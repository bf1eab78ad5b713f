import Axionvera.Lib.Transition

/-! # States that keep a log

A reader who sees nothing of a system but its log `record`s one entry after the
other. `Logged` says that a change of state was told in full: the entries that
were added fit what the reader knew, and take it to what holds afterwards. It is
enough to show this of single steps (`logged_of_run`). -/
namespace Axionvera.Lib.Replay
open Axionvera.Lib.Transition

variable {σ ℓ ε β : Type}

/-- What a reader knows after the entries of a log, oldest first. -/
def replay (record : β → ε → β) (b : β) (log : List ε) : β := log.foldl record b

/-- Every entry of a log fits what the entries before it say. -/
def Legal (record : β → ε → β) (fits : β → ε → Prop) : β → List ε → Prop
  | _, [] => True
  | b, e :: log => fits b e ∧ Legal record fits (record b e) log

/-- What the entries of a log add up to, each read in the light of those before
it. -/
def tally (record : β → ε → β) (amount : β → ε → Int) : β → List ε → Int
  | _, [] => 0
  | b, e :: log => amount b e + tally record amount (record b e) log

section Logs
variable (record : β → ε → β) (fits : β → ε → Prop) (amount : β → ε → Int)

theorem replay_append (b : β) (log new : List ε) :
    replay record b (log ++ new) = replay record (replay record b log) new :=
  List.foldl_append

theorem legal_append (b : β) (log new : List ε) : Legal record fits b (log ++ new) ↔
    Legal record fits b log ∧ Legal record fits (replay record b log) new := by
  induction log generalizing b with
  | nil => simp [Legal, replay]
  | cons e log ih =>
    simp only [List.cons_append, Legal, ih (record b e), and_assoc]
    rfl

theorem tally_append (b : β) (log new : List ε) : tally record amount b (log ++ new) =
    tally record amount b log + tally record amount (replay record b log) new := by
  induction log generalizing b with
  | nil => exact (Int.zero_add _).symm
  | cons e log ih =>
    simp only [List.cons_append, tally, ih (record b e), Int.add_assoc]
    rfl

end Logs

/-- From `s` to `t` the log grew by entries that fit and that tell what
changed. -/
def Logged (record : β → ε → β) (fits : β → ε → Prop) (log : σ → List ε) (view : σ → β)
    (s t : σ) : Prop :=
  ∃ new, log t = log s ++ new ∧ Legal record fits (view s) new ∧
    replay record (view s) new = view t

section Steps
variable {record : β → ε → β} {fits : β → ε → Prop} {log : σ → List ε} {view : σ → β}
variable {step : σ → ℓ → σ → Prop} {s₀ s t u : σ}

/-- Nothing was logged and nothing changed. -/
theorem Logged.silent (hl : log t = log s) (hv : view t = view s) :
    Logged record fits log view s t :=
  ⟨[], by rw [hl, List.append_nil], trivial, hv.symm⟩

/-- One entry was logged. -/
theorem Logged.single {e : ε} (hl : log t = log s ++ [e]) (hfits : fits (view s) e)
    (hv : view t = record (view s) e) : Logged record fits log view s t :=
  ⟨[e], hl, ⟨hfits, trivial⟩, hv.symm⟩

theorem Logged.trans (h : Logged record fits log view s t) (h' : Logged record fits log view t u) :
    Logged record fits log view s u := by
  obtain ⟨new, hl, hfits, hv⟩ := h
  obtain ⟨new', hl', hfits', hv'⟩ := h'
  refine ⟨new ++ new', ?_, ?_, ?_⟩
  · rw [hl', hl, List.append_assoc]
  · rw [legal_append, hv]
    exact ⟨hfits, hfits'⟩
  · rw [replay_append, hv, hv']

/-- **Steps that are told one by one make a run that is told as a whole.** -/
theorem logged_of_run {I : σ → Prop} (h0 : I s₀) (hI : ∀ s l t, I s → step s l t → I t)
    (hstep : ∀ s l t, I s → step s l t → Logged record fits log view s t) {h : List ℓ}
    (hr : Run step s₀ h s) : Logged record fits log view s₀ s := by
  induction hr with
  | nil => exact .silent rfl rfl
  | snoc hr hs ih => exact ih.trans (hstep _ _ _ (hr.invariant h0 hI) hs)

end Steps

end Axionvera.Lib.Replay

import Mathlib.Data.List.Basic

/-! # Runs of a labelled transition system

A run keeps the labels of its steps, latest first, so that a quantity summed up
along a run is a recursion on the list and a fact about whole runs is one step
lemma away (`Run.invariant`, `Run.induct`). -/
namespace Axionvera.Lib.Transition

variable {σ ℓ : Type} {step : σ → ℓ → σ → Prop} {s₀ : σ}

inductive Run (step : σ → ℓ → σ → Prop) (s₀ : σ) : List ℓ → σ → Prop
  | nil : Run step s₀ [] s₀
  | snoc {h : List ℓ} {s t : σ} {l : ℓ} : Run step s₀ h s → step s l t → Run step s₀ (l :: h) t

/-- What holds at the start and is kept by every step holds along every run. -/
theorem Run.invariant {I : σ → Prop} (h0 : I s₀) (hstep : ∀ s l t, I s → step s l t → I t)
    {h : List ℓ} {s : σ} (hr : Run step s₀ h s) : I s := by
  induction hr with
  | nil => exact h0
  | snoc _ hs ih => exact hstep _ _ _ ih hs

/-- The same for a relation between the steps taken and the state reached. The
step case may use that its first state is itself reached by a run. -/
theorem Run.induct {I : List ℓ → σ → Prop} (h0 : I [] s₀)
    (hstep : ∀ h s l t, Run step s₀ h s → I h s → step s l t → I (l :: h) t)
    {h : List ℓ} {s : σ} (hr : Run step s₀ h s) : I h s := by
  induction hr with
  | nil => exact h0
  | snoc hr hs ih => exact hstep _ _ _ _ hr ih hs

/-- A run from the end of a run. -/
theorem Run.trans {h₁ h₂ : List ℓ} {s t : σ} (hr : Run step s₀ h₁ s) (hr' : Run step s h₂ t) :
    Run step s₀ (h₂ ++ h₁) t := by
  induction hr' with
  | nil => exact hr
  | snoc _ hs ih => exact .snoc ih hs

/-- Each label of a run was the label of a step, after the run that the labels
before it make. -/
theorem Run.step_of_suffix {h h' : List ℓ} {s : σ} {l : ℓ} (hr : Run step s₀ h s)
    (hs : (l :: h') <:+ h) : ∃ t u, Run step s₀ h' t ∧ step t l u := by
  induction hr with
  | nil => cases List.eq_nil_of_suffix_nil hs
  | @snoc h t u k hr hstep ih =>
    rcases List.suffix_cons_iff.mp hs with heq | hs
    · obtain ⟨rfl, rfl⟩ := List.cons_eq_cons.mp heq
      exact ⟨t, u, hr, hstep⟩
    · exact ih hs

theorem exists_suffix_of_mem {l : ℓ} {h : List ℓ} (hl : l ∈ h) : ∃ h', (l :: h') <:+ h := by
  obtain ⟨later, h', rfl⟩ := List.append_of_mem hl
  exact ⟨h', later, rfl⟩

/-! ## Runs along a stream of labels -/

/-- The first labels of a stream, latest first. -/
def upTo (l : Nat → ℓ) : Nat → List ℓ
  | 0 => []
  | n + 1 => l n :: upTo l n

/-- Where a label leads to one state at most, so do labels. -/
theorem Run.unique (hdet : ∀ s l t u, step s l t → step s l u → t = u) {h : List ℓ} {s t : σ}
    (hr : Run step s₀ h s) (hr' : Run step s₀ h t) : s = t := by
  induction hr generalizing t with
  | nil =>
    cases hr'
    rfl
  | snoc _ hs ih =>
    cases hr' with
    | snoc hr' hs' =>
      cases ih hr'
      exact hdet _ _ _ _ hs hs'

/-- A run stays at a state that no label leaves. -/
theorem Run.rests (hdet : ∀ s l t u, step s l t → step s l u → t = u) {l : Nat → ℓ} {n m : Nat}
    {s t : σ} (hrest : ∀ k u, step s (l k) u → u = s) (hr : Run step s₀ (upTo l n) s)
    (hle : n ≤ m) (hr' : Run step s₀ (upTo l m) t) : t = s := by
  induction hle generalizing t with
  | refl => exact hr'.unique hdet hr
  | step _ ih =>
    cases hr' with
    | snoc hr' hs =>
      cases ih hr'
      exact hrest _ _ hs

/-! ## Runs of a function -/

/-- The state after the given labels, if each of them is possible in its turn. -/
def play (after : σ → ℓ → Option σ) (guard : σ → ℓ → Bool) (s₀ : σ) : List ℓ → Option σ
  | [] => some s₀
  | l :: h => (play after guard s₀ h).bind fun s => if guard s l then after s l else none

theorem run_of_play {after : σ → ℓ → Option σ} {guard : σ → ℓ → Bool} {h : List ℓ} {s : σ}
    (hp : play after guard s₀ h = some s) :
    Run (fun s l t => guard s l = true ∧ after s l = some t) s₀ h s := by
  induction h generalizing s with
  | nil =>
    cases hp
    exact .nil
  | cons l h ih =>
    obtain ⟨t, ht, hs⟩ := Option.bind_eq_some_iff.mp hp
    split at hs
    case isTrue hguard => exact .snoc (ih ht) ⟨hguard, hs⟩
    case isFalse => cases hs

/-- A run stays one under a step relation that allows more. -/
theorem Run.mono {step' : σ → ℓ → σ → Prop} (himp : ∀ s l t, step s l t → step' s l t)
    {h : List ℓ} {s : σ} (hr : Run step s₀ h s) : Run step' s₀ h s := by
  induction hr with
  | nil => exact .nil
  | snoc _ hs ih => exact .snoc ih (himp _ _ _ hs)

/-- Where every label is allowed, each step is one of the function. -/
theorem run_of_play_true {after : σ → ℓ → Option σ} {h : List ℓ} {s : σ}
    (hp : play after (fun _ _ => true) s₀ h = some s) :
    Run (fun s l t => after s l = some t) s₀ h s :=
  (run_of_play hp).mono fun _ _ _ hstep => hstep.2

/-! ## Labels that meet a condition -/

/-- What holds of no labels and is kept by every label that meets its condition
holds of labels that all meet it. -/
theorem suffix_induct {I : List ℓ → Prop} {C : List ℓ → ℓ → Prop} {h : List ℓ} (h0 : I [])
    (hstep : ∀ l h', I h' → C h' l → I (l :: h')) (hmeet : ∀ l h', (l :: h') <:+ h → C h' l) :
    I h := by
  induction h with
  | nil => exact h0
  | cons l h ih =>
    have hearlier : I h :=
      ih fun l' h' hsuffix => hmeet l' h' (hsuffix.trans (List.suffix_cons l h))
    exact hstep l h hearlier (hmeet l h List.suffix_rfl)

/-! ## Folds of a total function -/

section Fold
variable {f : ℓ → σ → σ} {I : σ → Prop} {C : σ → ℓ → Prop} {h : List ℓ}

/-- What holds at the start and is kept by every label that meets its condition
holds after labels that all meet it. -/
theorem foldr_invariant (h0 : I s₀) (hstep : ∀ s l, I s → C s l → I (f l s))
    (hmeet : ∀ l h', (l :: h') <:+ h → C (h'.foldr f s₀) l) : I (h.foldr f s₀) :=
  suffix_induct (I := fun h => I (h.foldr f s₀)) h0 (fun l _ hI hC => hstep _ l hI hC) hmeet

/-- If only the labels that meet their condition keep it, it holds all along
exactly if all of them do. -/
theorem foldr_invariant_iff (h0 : I s₀) (hstep : ∀ s l, I s → (I (f l s) ↔ C s l)) :
    (∀ h', h' <:+ h → I (h'.foldr f s₀)) ↔ ∀ l h', (l :: h') <:+ h → C (h'.foldr f s₀) l := by
  refine ⟨?_, ?_⟩
  · intro hall l h' hsuffix
    have hbefore : I (h'.foldr f s₀) := hall h' ((List.suffix_cons l h').trans hsuffix)
    exact (hstep _ l hbefore).mp (hall (l :: h') hsuffix)
  · intro hmeet h' hsuffix
    refine foldr_invariant h0 (fun s l hs => (hstep s l hs).mpr) ?_
    intro l h'' hsuffix'
    exact hmeet l h'' (hsuffix'.trans hsuffix)

end Fold

end Axionvera.Lib.Transition

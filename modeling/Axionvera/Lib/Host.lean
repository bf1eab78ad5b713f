import Axionvera.Lib.Fallible
import Mathlib.Data.List.Basic

/-! # Contract code as computations over host state

A contract call ends with a value, with an error value the code returned, or
with a trap of the host. An error keeps the state it was raised in: undoing the
writes is the host's part (`invoke`), not the code's. `Returns` is the success
relation, and each combinator has one lemma that says when it returns, so a
proof takes a program apart (or puts it together) without unfolding the monad. -/
namespace Axionvera.Lib.Host

/-- How a piece of contract code ends. -/
inductive Outcome (ε σ α : Type) where
  | ok (value : α) (state : σ)
  | err (error : ε) (state : σ)
  | trap

/-- Code that reads an environment `ρ`, works on a state `σ` and may return an
error `ε`. -/
def HostM (ρ ε σ α : Type) : Type := ρ → σ → Outcome ε σ α

variable {ρ ρ₁ ε σ σ₁ α β : Type}

instance : Monad (HostM ρ ε σ) where
  pure a := fun _ s => .ok a s
  bind m f := fun r s => match m r s with
    | .ok a t => f a r t
    | .err e t => .err e t
    | .trap => .trap

/-- `x.ok_or(e)`. -/
def okOr (x : Option α) (e : ε) : Except ε α :=
  match x with
  | some a => .ok a
  | none => .error e

namespace HostM

def get : HostM ρ ε σ σ := fun _ s => .ok s s

def ask : HostM ρ ε σ ρ := fun r s => .ok r s

/-- A read of the state. -/
def gets (f : σ → α) : HostM ρ ε σ α := fun _ s => .ok (f s) s

def modify (f : σ → σ) : HostM ρ ε σ Unit := fun _ s => .ok () (f s)

def throw (e : ε) : HostM ρ ε σ α := fun _ s => .err e s

/-- A host panic: nothing of the call survives. -/
def halt : HostM ρ ε σ α := fun _ _ => .trap

/-- A pure fallible computation, as in `let x = f(..)?`. -/
def lift : Except ε α → HostM ρ ε σ α
  | .ok a => pure a
  | .error e => throw e

/-- `x.ok_or(e)?`. -/
def okOr (x : Option α) (e : ε) : HostM ρ ε σ α := lift (Host.okOr x e)

/-- `if c { return Err(e) }`. -/
def failIf (c : Prop) [Decidable c] (e : ε) : HostM ρ ε σ Unit :=
  if c then throw e else pure ()

/-- `let result = f();` without `?`: an error becomes a value and the code
after it still runs. A trap does not. -/
def attempt (m : HostM ρ ε σ α) : HostM ρ ε σ (Except ε α) := fun r s =>
  match m r s with
  | .ok a t => .ok (.ok a) t
  | .err e t => .ok (.error e) t
  | .trap => .trap

/-- Code over a part of the state. -/
def zoom (view : σ → σ₁) (put : σ₁ → σ → σ) (env : ρ → σ → ρ₁) (m : HostM ρ₁ ε σ₁ α) :
    HostM ρ ε σ α := fun r s =>
  match m (env r s) (view s) with
  | .ok a t => .ok a (put t s)
  | .err e t => .err e (put t s)
  | .trap => .trap

end HostM

/-- The state after a top-level call: an error or a trap rolls every write
back. -/
def invoke (m : HostM ρ ε σ α) (r : ρ) (s : σ) : σ :=
  match m r s with
  | .ok _ t => t
  | .err _ _ => s
  | .trap => s

/-- The state that code leaves where nobody rolls writes back: those made
before an error stay. -/
def leave (m : HostM ρ ε σ α) (r : ρ) (s : σ) : σ :=
  match m r s with
  | .ok _ t => t
  | .err _ t => t
  | .trap => s

/-- `m` succeeds from `s` with value `a`, leaving `t`. -/
def Returns (m : HostM ρ ε σ α) (r : ρ) (s : σ) (a : α) (t : σ) : Prop := m r s = .ok a t

variable {m : HostM ρ ε σ α} {f : α → HostM ρ ε σ β} {r : ρ} {s t : σ} {a : α} {b : β} {e : ε}

theorem Returns.det {a' : α} {t' : σ} (h : Returns m r s a t) (h' : Returns m r s a' t') :
    a = a' ∧ t = t' := by
  unfold Returns at h h'
  rw [h] at h'
  cases h'
  exact ⟨rfl, rfl⟩

theorem bind_of_returns (h : Returns m r s a t) : (m >>= f) r s = f a r t := by
  unfold Returns at h
  simp [bind, h]

theorem bind_of_err (h : m r s = .err e t) : (m >>= f) r s = .err e t := by
  simp [bind, h]

theorem bind_bind {γ : Type} {g : β → HostM ρ ε σ γ} :
    (m >>= f) >>= g = m >>= fun a => f a >>= g := by
  funext r s
  simp only [bind]
  cases m r s with
  | ok a t => rfl
  | err e t => rfl
  | trap => rfl

theorem invoke_of_returns (h : Returns m r s a t) : invoke m r s = t := by
  unfold Returns at h
  simp [invoke, h]

/-- A call that does not return leaves no trace. -/
theorem invoke_of_not_returns (h : ∀ a t, ¬ Returns m r s a t) : invoke m r s = s := by
  unfold invoke
  cases ho : m r s with
  | ok a t => exact False.elim (h a t ho)
  | err e t => rfl
  | trap => rfl

/-- A call leaves the state alone or returns. -/
theorem invoke_eq_or_returns (m : HostM ρ ε σ α) (r : ρ) (s : σ) :
    invoke m r s = s ∨ ∃ a, Returns m r s a (invoke m r s) := by
  unfold Returns invoke
  cases m r s with
  | ok a t => exact Or.inr ⟨a, rfl⟩
  | err e t => exact Or.inl rfl
  | trap => exact Or.inl rfl

def Outcome.isOk : Outcome ε σ α → Bool
  | .ok _ _ => true
  | _ => false

/-- The value of a call that succeeded. -/
def Outcome.value : Outcome ε σ α → Option α
  | .ok a _ => some a
  | _ => none

theorem value_eq_some : (m r s).value = some a ↔ ∃ t, Returns m r s a t := by
  unfold Returns
  cases m r s <;> simp [Outcome.value]

/-- Success can be read off by running the code. -/
theorem returns_of_isOk (h : (m r s).isOk = true) : ∃ a, Returns m r s a (invoke m r s) := by
  unfold Returns invoke
  cases ho : m r s with
  | ok a t => exact ⟨a, rfl⟩
  | err e t => rw [ho] at h; cases h
  | trap => rw [ho] at h; cases h

/-! ## When each combinator returns -/

@[simp] theorem returns_pure {a' : α} :
    Returns (pure a : HostM ρ ε σ α) r s a' t ↔ a' = a ∧ t = s := by
  refine ⟨?_, ?_⟩
  · intro h; cases h; exact ⟨rfl, rfl⟩
  · intro h
    obtain ⟨rfl, rfl⟩ := h
    rfl

@[simp] theorem returns_bind :
    Returns (m >>= f) r s b t ↔ ∃ a u, Returns m r s a u ∧ Returns (f a) r u b t := by
  change (match m r s with
    | .ok a u => f a r u
    | .err e u => .err e u
    | .trap => .trap) = .ok b t ↔ _
  unfold Returns
  cases m r s with
  | ok a u =>
    refine ⟨?_, ?_⟩
    · intro h; exact ⟨a, u, rfl, h⟩
    · intro h
      obtain ⟨a', u', h, h'⟩ := h
      cases h
      exact h'
  | err e u => simp
  | trap => simp

@[simp] theorem returns_get {s' : σ} : Returns (HostM.get : HostM ρ ε σ σ) r s s' t ↔ s' = s ∧ t = s := by
  refine ⟨?_, ?_⟩
  · intro h; cases h; exact ⟨rfl, rfl⟩
  · intro h
    obtain ⟨rfl, rfl⟩ := h
    rfl

@[simp] theorem returns_gets {g : σ → α} :
    Returns (HostM.gets g : HostM ρ ε σ α) r s a t ↔ a = g s ∧ t = s := by
  refine ⟨?_, ?_⟩
  · intro h; cases h; exact ⟨rfl, rfl⟩
  · intro h
    obtain ⟨rfl, rfl⟩ := h
    rfl

@[simp] theorem returns_ask {r' : ρ} : Returns (HostM.ask : HostM ρ ε σ ρ) r s r' t ↔ r' = r ∧ t = s := by
  refine ⟨?_, ?_⟩
  · intro h; cases h; exact ⟨rfl, rfl⟩
  · intro h
    obtain ⟨rfl, rfl⟩ := h
    rfl

@[simp] theorem returns_modify {g : σ → σ} {u : Unit} :
    Returns (HostM.modify g : HostM ρ ε σ Unit) r s u t ↔ t = g s := by
  refine ⟨?_, ?_⟩
  · intro h; cases h; rfl
  · intro h
    subst h
    rfl

@[simp] theorem returns_throw : ¬ Returns (HostM.throw e : HostM ρ ε σ α) r s a t := by
  intro h; cases h

@[simp] theorem returns_halt : ¬ Returns (HostM.halt : HostM ρ ε σ α) r s a t := by
  intro h; cases h

@[simp] theorem returns_lift {x : Except ε α} :
    Returns (HostM.lift x : HostM ρ ε σ α) r s a t ↔ x = .ok a ∧ t = s := by
  cases x with
  | ok v =>
    simp only [HostM.lift, returns_pure, Except.ok.injEq]
    exact ⟨fun h => ⟨h.1.symm, h.2⟩, fun h => ⟨h.1.symm, h.2⟩⟩
  | error e => simp [HostM.lift, returns_throw]

@[simp] theorem okOr_eq_ok {x : Option α} : okOr x e = .ok a ↔ x = some a := by
  cases x <;> simp [okOr]

theorem okOr_eq_error {x : Option α} {e' : ε} : okOr x e' = .error e ↔ x = none ∧ e = e' := by
  cases x <;> simp [okOr, eq_comm]

@[simp] theorem returns_okOr {x : Option α} :
    Returns (HostM.okOr x e : HostM ρ ε σ α) r s a t ↔ x = some a ∧ t = s := by
  rw [HostM.okOr, returns_lift, okOr_eq_ok]

@[simp] theorem returns_failIf {c : Prop} [Decidable c] {u : Unit} :
    Returns (HostM.failIf c e : HostM ρ ε σ Unit) r s u t ↔ ¬ c ∧ t = s := by
  unfold HostM.failIf
  split
  · rename_i hc
    simp [hc, returns_throw]
  · rename_i hc
    simp [hc, returns_pure]

theorem returns_ite {c : Prop} [Decidable c] {m₁ m₂ : HostM ρ ε σ α} :
    Returns (if c then m₁ else m₂) r s a t ↔
      (c ∧ Returns m₁ r s a t) ∨ (¬ c ∧ Returns m₂ r s a t) := by
  split <;> simp_all

@[simp] theorem returns_attempt_ok :
    Returns (HostM.attempt m) r s (.ok a) t ↔ Returns m r s a t := by
  unfold Returns HostM.attempt
  cases m r s <;> simp

@[simp] theorem returns_zoom {view : σ → σ₁} {put : σ₁ → σ → σ} {env : ρ → σ → ρ₁}
    {m₁ : HostM ρ₁ ε σ₁ α} :
    Returns (HostM.zoom view put env m₁) r s a t ↔
      ∃ t₁, Returns m₁ (env r s) (view s) a t₁ ∧ t = put t₁ s := by
  unfold Returns HostM.zoom
  cases m₁ (env r s) (view s) with
  | ok v u =>
    simp only [Outcome.ok.injEq]
    refine ⟨?_, ?_⟩
    · intro h
      obtain ⟨rfl, rfl⟩ := h
      exact ⟨u, ⟨rfl, rfl⟩, rfl⟩
    · intro h
      obtain ⟨t₁, ⟨rfl, rfl⟩, rfl⟩ := h
      exact ⟨rfl, rfl⟩
  | err e u => simp
  | trap => simp

/-! ## Code that only reads -/

def ReadOnly (m : HostM ρ ε σ α) : Prop := ∀ r s a t, Returns m r s a t → t = s

namespace ReadOnly

theorem pure (a : α) : ReadOnly (pure a : HostM ρ ε σ α) :=
  fun _ _ _ _ h => (returns_pure.mp h).2

theorem gets (g : σ → α) : ReadOnly (HostM.gets g : HostM ρ ε σ α) :=
  fun _ _ _ _ h => (returns_gets.mp h).2

theorem ask : ReadOnly (HostM.ask : HostM ρ ε σ ρ) :=
  fun _ _ _ _ h => (returns_ask.mp h).2

theorem lift (x : Except ε α) : ReadOnly (HostM.lift x : HostM ρ ε σ α) :=
  fun _ _ _ _ h => (returns_lift.mp h).2

theorem failIf (c : Prop) [Decidable c] (e : ε) :
    ReadOnly (HostM.failIf c e : HostM ρ ε σ Unit) :=
  fun _ _ _ _ h => (returns_failIf.mp h).2

theorem bind (hm : ReadOnly m) (hf : ∀ a, ReadOnly (f a)) : ReadOnly (m >>= f) := by
  intro r s b t h
  obtain ⟨a, u, hu, ht⟩ := returns_bind.mp h
  rw [hf a r u b t ht, hm r s a u hu]

/-- What fails after a read fails. -/
theorem not_returns (hm : ReadOnly m) (h : ∀ a, ¬ Returns (f a) r s b t) :
    ¬ Returns (m >>= f) r s b t := by
  intro hret
  obtain ⟨a, u, hu, ht⟩ := returns_bind.mp hret
  rw [hm r s a u hu] at ht
  exact h a ht

end ReadOnly

/-! ## Code whose errors leave no trace -/

/-- An error is returned in the state that the code started from. -/
def Clean (m : HostM ρ ε σ α) : Prop := ∀ r s e t, m r s = .err e t → t = s

theorem leave_of_returns (h : Returns m r s a t) : leave m r s = t := by
  unfold Returns at h
  simp [leave, h]

/-- After code that only reads, the state is the one the rest leaves. -/
theorem leave_bind (hm : Clean m) (hro : ReadOnly m) :
    leave (m >>= f) r s = s ∨ ∃ a, Returns m r s a s ∧ leave (m >>= f) r s = leave (f a) r s := by
  cases ho : m r s with
  | ok a t =>
    have hs : t = s := hro r s a t ho
    subst hs
    refine Or.inr ⟨a, ho, ?_⟩
    simp [leave, bind, ho]
  | err e t =>
    refine Or.inl ?_
    simp [leave, bind, ho, hm r s e t ho]
  | trap => exact Or.inl (by simp [leave, bind, ho])

namespace Clean

/-- Code that always succeeds. -/
theorem of_total (h : ∀ r s, ∃ a t, Returns m r s a t) : Clean m := by
  intro r s e t herr
  obtain ⟨a, u, hu⟩ := h r s
  rw [hu] at herr
  cases herr

theorem pure (a : α) : Clean (pure a : HostM ρ ε σ α) := of_total fun _ s => ⟨a, s, rfl⟩

theorem gets (g : σ → α) : Clean (HostM.gets g : HostM ρ ε σ α) := of_total fun _ s => ⟨g s, s, rfl⟩

theorem ask : Clean (HostM.ask : HostM ρ ε σ ρ) := of_total fun r s => ⟨r, s, rfl⟩

theorem lift (x : Except ε α) : Clean (HostM.lift x : HostM ρ ε σ α) := by
  cases x with
  | ok a => exact pure a
  | error e =>
    intro _ _ _ _ h
    cases h
    rfl

theorem failIf (c : Prop) [Decidable c] (e : ε) : Clean (HostM.failIf c e : HostM ρ ε σ Unit) := by
  intro _ _ _ _ h
  unfold HostM.failIf at h
  split at h
  · cases h
    rfl
  · cases h

/-- A first part that only reads, and whatever follows it. -/
theorem bind (hm : Clean m) (hro : ReadOnly m) (hf : ∀ a, Clean (f a)) : Clean (m >>= f) := by
  intro r s e t h
  change (match m r s with
    | .ok a u => f a r u
    | .err e u => .err e u
    | .trap => .trap) = .err e t at h
  cases ho : m r s with
  | ok a u =>
    simp only [ho] at h
    rw [hf a r u e t h, hro r s a u ho]
  | err e' u =>
    simp only [ho] at h
    cases h
    exact hm r s _ _ ho
  | trap =>
    simp only [ho] at h
    cases h

end Clean

/-! ## Code that leaves a part of the state alone -/

/-- A successful run leaves what `view` shows of the state. -/
def Keeps (view : σ → β) (m : HostM ρ ε σ α) : Prop :=
  ∀ r s a t, Returns m r s a t → view t = view s

namespace Keeps
variable {γ : Type} {view : σ → γ}

theorem of_readOnly (h : ReadOnly m) : Keeps view m := by
  intro r s a t hret
  rw [h r s a t hret]

theorem modify {g : σ → σ} (h : ∀ s, view (g s) = view s) :
    Keeps view (HostM.modify g : HostM ρ ε σ Unit) := by
  intro r s a t hret
  rw [returns_modify.mp hret, h]

theorem bind (hm : Keeps view m) (hf : ∀ a, Keeps view (f a)) : Keeps view (m >>= f) := by
  intro r s b t h
  obtain ⟨a, u, hu, ht⟩ := returns_bind.mp h
  rw [hf a r u b t ht, hm r s a u hu]

theorem ite {c : Prop} [Decidable c] {m₁ m₂ : HostM ρ ε σ α} (h₁ : Keeps view m₁)
    (h₂ : Keeps view m₂) : Keeps view (if c then m₁ else m₂) := by
  split
  · exact h₁
  · exact h₂

end Keeps

/-- Two programs with the same beginning end alike if what follows the
beginning does. -/
theorem bind_congr_returns {g : α → HostM ρ ε σ β}
    (h : ∀ a t, Returns m r s a t → f a r t = g a r t) : (m >>= f) r s = (m >>= g) r s := by
  change (match m r s with
    | .ok a t => f a r t
    | .err e t => .err e t
    | .trap => .trap) = match m r s with
    | .ok a t => g a r t
    | .err e t => .err e t
    | .trap => .trap
  cases ho : m r s with
  | ok a t => exact h a t ho
  | err e t => rfl
  | trap => rfl

theorem bind_congr_readOnly {g : α → HostM ρ ε σ β} (hm : ReadOnly m)
    (h : ∀ a, f a r s = g a r s) : (m >>= f) r s = (m >>= g) r s := by
  refine bind_congr_returns fun a t hret => ?_
  rw [hm r s a t hret]
  exact h a

/-- Two programs that are alike and go on alike end alike. -/
theorem bind_congr_left {m' : HostM ρ ε σ α} (h : m r s = m' r s) :
    (m >>= f) r s = (m' >>= f) r s := by
  change (match m r s with
    | .ok a t => f a r t
    | .err e t => .err e t
    | .trap => .trap) = match m' r s with
    | .ok a t => f a r t
    | .err e t => .err e t
    | .trap => .trap
  rw [h]

theorem attempt_congr {m' : HostM ρ ε σ α} (h : m r s = m' r s) :
    HostM.attempt m r s = HostM.attempt m' r s := by
  unfold HostM.attempt
  rw [h]

end Axionvera.Lib.Host

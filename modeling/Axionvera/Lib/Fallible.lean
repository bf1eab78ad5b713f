import Mathlib.Init

/-! # Computations that fail with an error

When a sequence of checks in `Except` succeeds, peeled off one check at a time. -/
namespace Axionvera.Lib.Fallible

variable {ε ε' α β : Type} {e : ε} {a a' : α} {b : β}

/-- `if c { return Err(e) }`. -/
def failIf (c : Prop) [Decidable c] (e : ε) : Except ε Unit := if c then .error e else .ok ()

@[simp] theorem failIf_eq_ok {c : Prop} [Decidable c] {u : Unit} : failIf c e = .ok u ↔ ¬ c := by
  unfold failIf
  split <;> simp_all

@[simp] theorem bind_eq_ok {x : Except ε α} {g : α → Except ε β} :
    (x >>= g) = .ok b ↔ ∃ a, x = .ok a ∧ g a = .ok b := by
  cases x with
  | ok v => simp [bind, Except.bind]
  | error e => simp [bind, Except.bind]

theorem bind_eq_error {x : Except ε α} {g : α → Except ε β} :
    (x >>= g) = .error e ↔ x = .error e ∨ ∃ a, x = .ok a ∧ g a = .error e := by
  cases x with
  | ok v => simp [bind, Except.bind]
  | error e => simp [bind, Except.bind]

@[simp] theorem pure_eq_ok : (pure a : Except ε α) = .ok a' ↔ a' = a := by
  change Except.ok a = .ok a' ↔ _
  simp [eq_comm]

@[simp] theorem throw_ne_ok : ¬ (throw e : Except ε α) = .ok a := by
  intro h; cases h

/-- A walk over a list on which every call succeeds. -/
theorem mapM_eq_ok {f : α → Except ε β} {g : α → β} {l : List α} (h : ∀ x ∈ l, f x = .ok (g x)) :
    l.mapM f = .ok (l.map g) := by
  induction l with
  | nil => rfl
  | cons x rest ih =>
    have hrest := ih fun y hy => h y (List.mem_cons_of_mem x hy)
    rw [List.mapM_cons, h x List.mem_cons_self, hrest]
    rfl

theorem mapError_error {f : ε → ε'} :
    (Except.error e : Except ε α).mapError f = .error (f e) := rfl

@[simp] theorem mapError_eq_ok {x : Except ε α} {f : ε → ε'} :
    x.mapError f = .ok a ↔ x = .ok a := by
  cases x with
  | ok v =>
    show Except.ok v = .ok a ↔ _
    simp
  | error e =>
    rw [mapError_error]
    simp

end Axionvera.Lib.Fallible

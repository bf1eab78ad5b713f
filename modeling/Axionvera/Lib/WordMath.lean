import Axionvera.Lib.Fallible
import Axionvera.Lib.MachineInt

/-! # Plain arithmetic on 64-bit words

`+`, `-`, `*` and `/` as a program writes them without asking for a check. Whether
an overflow panics or wraps is decided when the program is built; a division by
zero always panics. As long as the build with checks does not panic, the other one
computes the same (`Safe`). -/
namespace Axionvera.Lib.WordMath
open Axionvera.Lib.Fallible Axionvera.Lib.MachineInt

/-- With overflow checks or without. -/
inductive Build where
  | checked
  | wrapping
  deriving DecidableEq

inductive Panic where
  | overflow
  | divideByZero
  deriving DecidableEq

/-- The wrapped result of an operation whose exact result is in range or not. -/
def inRange (build : Build) (fits : Bool) (wrapped : UInt64) : Except Panic UInt64 :=
  match fits, build with
  | false, .checked => .error .overflow
  | _, _ => .ok wrapped

def add (build : Build) (a b : UInt64) : Except Panic UInt64 :=
  inRange build (decide (a.toNat + b.toNat < u64Size)) (a + b)

def sub (build : Build) (a b : UInt64) : Except Panic UInt64 :=
  inRange build (decide (b ≤ a)) (a - b)

def mul (build : Build) (a b : UInt64) : Except Panic UInt64 :=
  inRange build (decide (a.toNat * b.toNat < u64Size)) (a * b)

def div (a b : UInt64) : Except Panic UInt64 :=
  if b = UInt64.ofNat 0 then .error .divideByZero else .ok (a / b)

variable {a b c : UInt64} {fits : Bool}

/-! ## With checks -/

theorem exists_toNat_eq {n : Nat} (h : n < u64Size) : ∃ w : UInt64, w.toNat = n :=
  ⟨UInt64.ofNat n, UInt64.toNat_ofNat_of_lt h⟩

theorem inRange_eq_ok : inRange .checked fits a = .ok c ↔ fits = true ∧ c = a := by
  cases fits with
  | false => simp [inRange]
  | true => simp [inRange, eq_comm]

theorem add_eq_ok : add .checked a b = .ok c ↔
    a.toNat + b.toNat < u64Size ∧ c.toNat = a.toNat + b.toNat := by
  rw [add, inRange_eq_ok, decide_eq_true_iff]
  refine and_congr_right ?_
  intro hfits
  have hsum : (a + b).toNat = a.toNat + b.toNat := by
    rw [UInt64.toNat_add]
    exact Nat.mod_eq_of_lt hfits
  rw [← UInt64.toNat_inj, hsum]

theorem sub_eq_ok : sub .checked a b = .ok c ↔
    b.toNat ≤ a.toNat ∧ c.toNat = a.toNat - b.toNat := by
  rw [sub, inRange_eq_ok, decide_eq_true_iff, ← UInt64.le_iff_toNat_le]
  refine and_congr_right ?_
  intro hle
  rw [← UInt64.toNat_inj, UInt64.toNat_sub_of_le _ _ hle]

theorem mul_eq_ok : mul .checked a b = .ok c ↔
    a.toNat * b.toNat < u64Size ∧ c.toNat = a.toNat * b.toNat := by
  rw [mul, inRange_eq_ok, decide_eq_true_iff]
  refine and_congr_right ?_
  intro hfits
  have hproduct : (a * b).toNat = a.toNat * b.toNat := by
    rw [UInt64.toNat_mul]
    exact Nat.mod_eq_of_lt hfits
  rw [← UInt64.toNat_inj, hproduct]

theorem div_eq_ok : div a b = .ok c ↔ b.toNat ≠ 0 ∧ c.toNat = a.toNat / b.toNat := by
  unfold div
  split
  · rename_i hzero
    simp [hzero]
  · rename_i hpos
    have hne : b.toNat ≠ 0 := fun hzero => hpos (UInt64.toNat_inj.mp hzero)
    simp only [Except.ok.injEq, ← UInt64.toNat_inj, UInt64.toNat_div, hne, ne_eq,
      not_false_eq_true, true_and, eq_comm]

/-! ## Without -/

/-- Where the build with checks does not panic, the one without does the same. -/
def Safe {α : Type} (f : Build → Except Panic α) : Prop :=
  ∀ r, f .checked = .ok r → ∀ build, f build = .ok r

theorem safe_inRange (fits : Bool) (a : UInt64) : Safe fun build => inRange build fits a := by
  intro r h build
  obtain ⟨rfl, rfl⟩ := inRange_eq_ok.mp h
  cases build <;> rfl

theorem safe_add (a b : UInt64) : Safe fun build => add build a b := safe_inRange _ _

theorem safe_sub (a b : UInt64) : Safe fun build => sub build a b := safe_inRange _ _

theorem safe_mul (a b : UInt64) : Safe fun build => mul build a b := safe_inRange _ _

theorem safe_const {α : Type} (x : Except Panic α) : Safe fun _ => x := fun _ h _ => h

theorem Safe.bind {α β : Type} {f : Build → Except Panic α} {g : α → Build → Except Panic β}
    (hf : Safe f) (hg : ∀ x, Safe (g x)) : Safe fun build => f build >>= fun x => g x build := by
  intro r h build
  obtain ⟨x, hx, hr⟩ := bind_eq_ok.mp h
  exact bind_eq_ok.mpr ⟨x, hf x hx build, hg x r hr build⟩

end Axionvera.Lib.WordMath

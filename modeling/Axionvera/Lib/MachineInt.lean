import Mathlib.Data.Int.Basic
import Mathlib.Data.List.Basic
import Mathlib.Algebra.BigOperators.Group.List.Basic
import Mathlib.Algebra.Order.BigOperators.Group.List
import Mathlib.Algebra.Order.Group.Int
import Mathlib.Algebra.Order.Ring.Int

/-! # Fixed-width integer arithmetic over `Int` and `Nat`

Machine values are mathematical integers; the operations say where the width
matters. A `checked` operation is `none` outside the width, a cast and an
unchecked sum wrap. -/
namespace Axionvera.Lib.MachineInt

/-- `2 ^ 127 - 1`. -/
def i128Max : Int := 170141183460469231731687303715884105727

def i128Min : Int := -170141183460469231731687303715884105728

/-- `2 ^ 128`. -/
def u128Size : Nat := 340282366920938463463374607431768211456

/-- `2 ^ 64`. -/
def u64Size : Nat := 18446744073709551616

/-- `2 ^ 32`. -/
def u32Size : Nat := 4294967296

def InI128 (x : Int) : Prop := i128Min ≤ x ∧ x ≤ i128Max

instance (x : Int) : Decidable (InI128 x) := inferInstanceAs (Decidable (_ ∧ _))

/-- A signed 128-bit value, as a caller can pass it. -/
structure I128 where
  val : Int
  inRange : InI128 val

def checkedAdd (a b : Int) : Option Int := if InI128 (a + b) then some (a + b) else none

def checkedSub (a b : Int) : Option Int := if InI128 (a - b) then some (a - b) else none

def checkedMul (a b : Int) : Option Int := if InI128 (a * b) then some (a * b) else none

/-- Division truncates toward zero; it fails on a zero divisor and on the one
quotient that leaves the range. -/
def checkedDiv (a b : Int) : Option Int :=
  if b = 0 ∨ (a = i128Min ∧ b = -1) then none else some (a.tdiv b)

def checkedMulU128 (a b : Nat) : Option Nat := if a * b < u128Size then some (a * b) else none

def checkedDivU128 (a b : Nat) : Option Nat := if b = 0 then none else some (a / b)

def checkedAddU64 (a b : Nat) : Option Nat := if a + b < u64Size then some (a + b) else none

def checkedSubU64 (a b : Nat) : Option Nat := if b ≤ a then some (a - b) else none

/-- `x as u128` for a signed `x`. -/
def asU128 (x : Int) : Nat := (x % u128Size).toNat

/-- `n as i128` for an unsigned `n` below `2 ^ 128`. -/
def asI128 (n : Nat) : Int := if (n : Int) ≤ i128Max then n else n - u128Size

/-- `x as u32` for a signed `x`. -/
def asU32 (x : Int) : Nat := (x % u32Size).toNat

theorem asU32_of_lt {x : Int} (h0 : 0 ≤ x) (h : x < u32Size) : (asU32 x : Int) = x := by
  unfold asU32
  rw [Int.emod_eq_of_lt h0 h, Int.toNat_of_nonneg h0]

theorem asU32_lt (x : Int) : (asU32 x : Int) < u32Size := by
  have hpos : (0 : Int) < u32Size := by decide
  rw [asU32, Int.toNat_of_nonneg (Int.emod_nonneg x hpos.ne')]
  exact Int.emod_lt_of_pos x hpos

/-- Two's complement wrap-around to 128 bits. -/
def wrapI128 (x : Int) : Int := (x - i128Min) % u128Size + i128Min

theorem inI128_wrapI128 (x : Int) : InI128 (wrapI128 x) := by
  have hpos : (0 : Int) < u128Size := by decide
  have hl := Int.emod_nonneg (x - i128Min) hpos.ne'
  have hu := Int.emod_lt_of_pos (x - i128Min) hpos
  have hmax : i128Min + u128Size = i128Max + 1 := by decide
  exact ⟨le_add_of_nonneg_left hl, by unfold wrapI128; omega⟩

/-- Literals of callers. -/
instance (n : Nat) : OfNat I128 n := ⟨⟨wrapI128 n, inI128_wrapI128 n⟩⟩

/-- `.sum()` without overflow checks: every partial sum wraps. -/
def sumI128 (xs : List Int) : Int := xs.foldl (fun acc x => wrapI128 (acc + x)) 0

/-! ## What the operations return -/

theorem checkedAdd_eq_some {a b c : Int} :
    checkedAdd a b = some c ↔ InI128 (a + b) ∧ c = a + b := by
  unfold checkedAdd
  split <;> simp_all [eq_comm]

theorem checkedSub_eq_some {a b c : Int} :
    checkedSub a b = some c ↔ InI128 (a - b) ∧ c = a - b := by
  unfold checkedSub
  split <;> simp_all [eq_comm]

theorem checkedMul_eq_some {a b c : Int} :
    checkedMul a b = some c ↔ InI128 (a * b) ∧ c = a * b := by
  unfold checkedMul
  split <;> simp_all [eq_comm]

theorem checkedDiv_of_pos {a b : Int} (ha : 0 ≤ a) (hb : 0 < b) : checkedDiv a b = some (a / b) := by
  unfold checkedDiv
  rw [if_neg (by omega), Int.tdiv_eq_ediv_of_nonneg ha]

theorem checkedMulU128_eq_some {a b c : Nat} :
    checkedMulU128 a b = some c ↔ a * b < u128Size ∧ c = a * b := by
  unfold checkedMulU128
  split <;> simp_all [eq_comm]

theorem checkedAddU64_eq_some {a b c : Nat} :
    checkedAddU64 a b = some c ↔ a + b < u64Size ∧ c = a + b := by
  unfold checkedAddU64
  split <;> simp_all [eq_comm]

theorem asU128_of_nonneg {x : Int} (h0 : 0 ≤ x) (h : x ≤ i128Max) : asU128 x = x.toNat := by
  unfold asU128
  rw [Int.emod_eq_of_lt h0 (by unfold i128Max at h; unfold u128Size; omega)]

theorem asI128_of_le {n : Nat} (h : (n : Int) ≤ i128Max) : asI128 n = n := if_pos h

theorem wrapI128_of_inI128 {x : Int} (h : InI128 x) : wrapI128 x = x := by
  obtain ⟨hl, hu⟩ := h
  unfold wrapI128
  rw [Int.emod_eq_of_lt (by omega) (by unfold i128Max at hu; unfold u128Size i128Min; omega)]
  omega

/-! ## Unchecked sums -/

/-- No partial sum leaves the range, whatever happens to the bits above it. -/
def SumFits (xs : List Int) : Prop := ∀ p, p <+: xs → InI128 p.sum

theorem sumI128_foldl (xs : List Int) (acc : Int)
    (h : ∀ p, p <+: xs → InI128 (acc + p.sum)) :
    xs.foldl (fun acc x => wrapI128 (acc + x)) acc = acc + xs.sum := by
  induction xs generalizing acc with
  | nil => simp
  | cons x xs ih =>
    have hx : InI128 (acc + x) := by simpa using h [x] (by simp)
    rw [List.foldl_cons, wrapI128_of_inI128 hx, ih (acc + x)]
    · simp [Int.add_assoc]
    · intro p hp
      have := h (x :: p) ((List.cons_prefix_cons).mpr ⟨rfl, hp⟩)
      simpa [Int.add_assoc] using this

theorem sumI128_eq_sum {xs : List Int} (h : SumFits xs) : sumI128 xs = xs.sum := by
  have := sumI128_foldl xs 0 fun p hp => by simpa using h p hp
  simpa [sumI128] using this

/-- Non-negative terms whose total fits never overflow on the way. -/
theorem sumFits_of_nonneg {xs : List Int} (h0 : ∀ x ∈ xs, 0 ≤ x) (hm : xs.sum ≤ i128Max) :
    SumFits xs := by
  rintro p ⟨q, rfl⟩
  rw [List.sum_append] at hm
  have hp := List.sum_nonneg fun x hx => h0 x (List.mem_append_left q hx)
  have hq := List.sum_nonneg fun x hx => h0 x (List.mem_append_right p hx)
  exact ⟨by unfold i128Min; omega, by omega⟩

end Axionvera.Lib.MachineInt

import Mathlib.Data.List.TakeWhile
import Mathlib.Data.Nat.Bitwise

/-! # Leading zeros of bytes

The bits of a list of bytes, most significant first, and how many of them are
zeros in front of the first one. In a byte that is not zero the first one is
where the binary logarithm says (`leadingZeros_byteBits`). -/
namespace Axionvera.Lib.LeadingZeros

variable {bits rest : List Bool} {byte : UInt8}

/-- The zeros in front of the first one. -/
def leadingZeros (bits : List Bool) : Nat := (bits.takeWhile fun bit => !bit).length

def byteBits (byte : UInt8) : List Bool :=
  (List.range 8).map fun k => byte.toNat.testBit (7 - k)

def bitsOf (bytes : List UInt8) : List Bool := bytes.flatMap byteBits

theorem leadingZeros_append (h : true ∈ bits) :
    leadingZeros (bits ++ rest) = leadingZeros bits := by
  induction bits with
  | nil => cases h
  | cons bit bits ih =>
    cases bit with
    | true => rfl
    | false =>
      have hrest : true ∈ bits := by simpa using h
      exact congrArg (· + 1) (ih hrest)

theorem leadingZeros_append_zeros (h : true ∉ bits) :
    leadingZeros (bits ++ rest) = bits.length + leadingZeros rest := by
  induction bits with
  | nil => simp
  | cons bit bits ih =>
    cases bit with
    | true => exact absurd List.mem_cons_self h
    | false =>
      have hstep : leadingZeros (false :: bits ++ rest) = leadingZeros (bits ++ rest) + 1 := rfl
      rw [hstep, ih fun hmem => h (List.mem_cons_of_mem _ hmem), List.length_cons]
      omega

/-- The first one of the values of a function on a range. -/
theorem leadingZeros_map_range {f : Nat → Bool} {n j : Nat} (hj : j < n) (hone : f j = true)
    (hzero : ∀ i < j, f i = false) : leadingZeros ((List.range n).map f) = j := by
  have hsplit : List.range n = List.range j ++ (List.range (n - j)).map (j + ·) := by
    rw [← List.range_add, Nat.add_sub_cancel' hj.le]
  have hfront : true ∉ (List.range j).map f := by
    intro hmem
    obtain ⟨i, hi, htrue⟩ := List.mem_map.mp hmem
    rw [hzero i (List.mem_range.mp hi)] at htrue
    cases htrue
  have hback : leadingZeros (((List.range (n - j)).map (j + ·)).map f) = 0 := by
    obtain ⟨m, hm⟩ : ∃ m, n - j = m + 1 := ⟨n - j - 1, by omega⟩
    rw [hm, List.range_succ_eq_map]
    simp [leadingZeros, hone]
  rw [hsplit, List.map_append, leadingZeros_append_zeros hfront, hback]
  simp

theorem leadingZeros_byteBits (h : byte ≠ 0) :
    leadingZeros (byteBits byte) = 7 - byte.toNat.log2 := by
  have hne : byte.toNat ≠ 0 := by
    intro hzero
    exact h (UInt8.toNat_inj.mp hzero)
  have hlog : byte.toNat.log2 < 8 := (Nat.log2_lt hne).mpr byte.toNat_lt
  refine leadingZeros_map_range (by omega) ?_ ?_
  · rw [Nat.sub_sub_self (by omega)]
    exact Nat.testBit_log2 hne
  · intro i hi
    refine Nat.testBit_lt_two_pow ?_
    exact (Nat.log2_lt hne).mp (by omega)

theorem true_mem_byteBits : true ∈ byteBits byte ↔ byte ≠ 0 := by
  refine ⟨?_, ?_⟩
  · intro hmem hzero
    subst hzero
    simp [byteBits] at hmem
  · intro hne
    by_contra hnone
    have hall := @leadingZeros_append_zeros (byteBits byte) [] hnone
    rw [List.append_nil, leadingZeros_byteBits hne] at hall
    simp [byteBits, leadingZeros] at hall
    omega

/-- Over a zero byte the count goes on, in another byte it ends. -/
theorem leadingZeros_bitsOf_cons (byte : UInt8) (bytes : List UInt8) :
    leadingZeros (bitsOf (byte :: bytes)) =
      if byte = 0 then 8 + leadingZeros (bitsOf bytes) else 7 - byte.toNat.log2 := by
  have hcons : bitsOf (byte :: bytes) = byteBits byte ++ bitsOf bytes := List.flatMap_cons
  rw [hcons]
  split
  · rename_i hzero
    rw [leadingZeros_append_zeros fun hmem => true_mem_byteBits.mp hmem hzero]
    simp [byteBits]
  · rename_i hne
    rw [leadingZeros_append (true_mem_byteBits.mpr hne), leadingZeros_byteBits hne]

end Axionvera.Lib.LeadingZeros

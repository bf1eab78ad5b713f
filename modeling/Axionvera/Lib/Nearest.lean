import Mathlib.Data.List.Nodup

/-! # The nearest elements of a list

A list sorted by a key and cut off. Where no two elements have one key, the keys
of what is left increase strictly, and what was cut off is behind all of it
(`nearest_spec`). -/
namespace Axionvera.Lib.Nearest
open Std

variable {α κ : Type} [Ord κ] {key : α → κ} {l : List α}

/-- Sorted by key, in the old order where the keys are the same. -/
def byKey (key : α → κ) (l : List α) : List α :=
  l.mergeSort fun a b => (compare (key a) (key b)).isLE

/-- The first `k` of the sorted list. -/
def nearest (key : α → κ) (k : Nat) (l : List α) : List α := (byKey key l).take k

/-- What `r` is to `l`: as many elements as asked for, by increasing key, and none
of the others is in front of one of them. -/
structure IsNearest (key : α → κ) (k : Nat) (l r : List α) : Prop where
  length : r.length = min k l.length
  members : ∀ a ∈ r, a ∈ l
  increasing : r.Pairwise fun a b => compare (key a) (key b) = .lt
  behind : ∀ a ∈ r, ∀ b ∈ l, b ∉ r → compare (key a) (key b) = .lt

theorem byKey_perm (key : α → κ) (l : List α) : (byKey key l).Perm l :=
  List.mergeSort_perm l _

section Lawful
variable [TransOrd κ] [LawfulEqOrd κ]

/-- Different keys are sorted strictly. -/
theorem byKey_lt (h : (l.map key).Nodup) :
    (byKey key l).Pairwise fun a b => compare (key a) (key b) = .lt := by
  have hle : (byKey key l).Pairwise fun a b => (compare (key a) (key b)).isLE = true := by
    refine List.pairwise_mergeSort ?_ ?_ l
    · intro a b c hab hbc
      exact TransCmp.isLE_trans hab hbc
    · intro a b
      by_cases hab : (compare (key a) (key b)).isLE = true
      · simp [hab]
      · simp [OrientedCmp.lt_of_not_isLE hab]
  have hne : (byKey key l).Pairwise fun a b => key a ≠ key b := by
    have hnodup : ((byKey key l).map key).Nodup := ((byKey_perm key l).map key).nodup_iff.mpr h
    exact List.pairwise_map.mp hnodup
  refine (hle.and hne).imp ?_
  intro a b hab
  rcases Ordering.isLE_iff_eq_lt_or_eq_eq.mp hab.1 with hlt | heq
  · exact hlt
  · exact absurd (LawfulEqCmp.eq_of_compare heq) hab.2

theorem nearest_spec (h : (l.map key).Nodup) (k : Nat) :
    IsNearest key k l (nearest key k l) := by
  have hlt := byKey_lt h
  have hperm := byKey_perm key l
  refine ⟨?_, ?_, ?_, ?_⟩
  · rw [nearest, List.length_take, hperm.length_eq]
  · intro a ha
    exact hperm.mem_iff.mp (List.mem_of_mem_take ha)
  · exact hlt.sublist (List.take_sublist k _)
  · intro a ha b hb hleft
    -- What is not in front of the cut is behind it.
    have hsplit : b ∈ (byKey key l).take k ++ (byKey key l).drop k := by
      rw [List.take_append_drop]
      exact hperm.mem_iff.mpr hb
    have hback : b ∈ (byKey key l).drop k := (List.mem_append.mp hsplit).resolve_left hleft
    have happend : ((byKey key l).take k ++ (byKey key l).drop k).Pairwise
        fun a b => compare (key a) (key b) = .lt := by
      rw [List.take_append_drop]
      exact hlt
    exact (List.pairwise_append.mp happend).2.2 a ha b hback

end Lawful

end Axionvera.Lib.Nearest

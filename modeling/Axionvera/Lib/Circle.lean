import Mathlib.Data.List.Basic
import Mathlib.Data.List.Rotate
import Mathlib.Tactic.SplitIfs

/-! # Places on a circle

The places `0` to `n - 1` in a circle, counted from a place `s` on. A search that
starts behind a place and goes around once finds the nearest place that will do,
so it passes over none (`findSome?_circle`). Whoever always goes on to the next
place that will do comes to each of them in turn (`candidates_of_cons`). -/
namespace Axionvera.Lib.Circle

variable {α : Type} {n s i j d : Nat}

/-- How many places `i` is ahead of `s`. -/
def ahead (n s i : Nat) : Nat := if s ≤ i then i - s else i + n - s

theorem ahead_self (n s : Nat) : ahead n s s = 0 := by
  simp [ahead]

theorem ahead_lt (hs : s < n) (hi : i < n) : ahead n s i < n := by
  unfold ahead
  split <;> omega

theorem add_mod (hi : i < n) (hd : d ≤ n) : (i + d) % n = if i + d < n then i + d else i + d - n := by
  split
  · exact Nat.mod_eq_of_lt ‹_›
  · rw [Nat.mod_eq_sub_mod (by omega), Nat.mod_eq_of_lt (by omega)]

theorem ahead_add (hs : s < n) (hi : i < n) (h : ahead n s i + d < n) :
    ahead n s ((i + d) % n) = ahead n s i + d := by
  rw [add_mod hi (by omega)]
  unfold ahead at h ⊢
  split at h <;> split <;> split <;> omega

theorem add_ahead (hs : s < n) (hi : i < n) (hj : j < n) (h : ahead n s i ≤ ahead n s j) :
    (i + (ahead n s j - ahead n s i)) % n = j := by
  have hlt := ahead_lt hs hj
  rw [add_mod hi (by omega)]
  unfold ahead at h hlt ⊢
  split_ifs at h hlt ⊢ <;> omega

/-- Going around from behind a place, one comes to every place. -/
theorem exists_add (hi : i < n) (hj : j < n) : ∃ d < n, (i + d + 1) % n = j := by
  by_cases h : i < j
  · refine ⟨j - i - 1, by omega, ?_⟩
    rw [Nat.add_assoc, add_mod hi (by omega), if_pos (by omega)]
    omega
  · refine ⟨j + n - i - 1, by omega, ?_⟩
    rw [Nat.add_assoc, add_mod hi (by omega), if_neg (by omega)]
    omega

/-- The search around the circle stops at a place that will do, and not behind
another one that is ahead. -/
theorem findSome?_circle {f : Nat → Option α} {a : α}
    (h : (List.range n).findSome? (fun k => f ((i + k + 1) % n)) = some a) :
    ∃ d < n, f ((i + d + 1) % n) = some a ∧
      (s < n → i < n → ∀ j < n, (f j).isSome → ahead n s i < ahead n s j →
        ahead n s i + d + 1 ≤ ahead n s j) := by
  obtain ⟨front, d, back, hsplit, hfound, hfront⟩ := List.findSome?_eq_some_iff.mp h
  have hmem : d ∈ List.range n := hsplit ▸ List.mem_append_right _ List.mem_cons_self
  refine ⟨d, List.mem_range.mp hmem, hfound, ?_⟩
  intro hs hi j hj hsome hlt
  by_contra hover
  -- `j` is passed before the search comes to its stop.
  have hjlt := ahead_lt hs hj
  have hearly : ahead n s j - ahead n s i - 1 ∈ front := by
    have hin : ahead n s j - ahead n s i - 1 ∈ List.range n := List.mem_range.mpr (by omega)
    rw [hsplit, List.mem_append, List.mem_cons] at hin
    rcases hin with hin | hin | hin
    · exact hin
    · omega
    · have hsorted : (front ++ d :: back).Pairwise (· < ·) := hsplit ▸ List.pairwise_lt_range
      have hback := (List.pairwise_cons.mp (List.pairwise_append.mp hsorted).2.1).1 _ hin
      omega
  have hnone := hfront _ hearly
  have hplace : i + (ahead n s j - ahead n s i - 1) + 1 = i + (ahead n s j - ahead n s i) := by
    omega
  rw [hplace, add_ahead hs hi hj (Nat.le_of_lt hlt)] at hnone
  simp [hnone] at hsome

/-! ## In turn -/

/-- The places from behind `i` on, `i` last. -/
def around (n i : Nat) : List Nat := (List.range n).map fun k => (i + k + 1) % n

theorem around_eq_rotate (n i : Nat) : around n i = (List.range n).rotate (i + 1) := by
  refine List.ext_getElem ?_ ?_
  · simp [around]
  · intro k _ _
    simp only [around, List.getElem_map, List.getElem_range, List.getElem_rotate, List.length_range]
    congr 1
    omega

/-- The places that will do, from behind `i` on. -/
def candidates (q : Nat → Bool) (n i : Nat) : List Nat := (around n i).filter q

theorem candidates_perm (q : Nat → Bool) (n i : Nat) :
    (candidates q n i).Perm ((List.range n).filter q) := by
  rw [candidates, around_eq_rotate]
  exact (List.rotate_perm _ _).filter q

/-- A search finds what the first of the places that will do has. -/
theorem findSome?_eq_head? {f : Nat → Option α} {q : Nat → Bool} (hq : ∀ j, (f j).isSome = q j)
    (places : List Nat) : places.findSome? f = (places.filter q).head?.bind f := by
  induction places with
  | nil => rfl
  | cons j rest ih =>
    have hj := hq j
    cases hf : f j with
    | none =>
      rw [hf] at hj
      rw [List.findSome?_cons, hf, List.filter_cons, ← hj]
      exact ih
    | some a =>
      rw [hf] at hj
      rw [List.findSome?_cons, hf, List.filter_cons, ← hj]
      exact hf.symm

/-- Who goes on to the first of them has it behind the others. -/
theorem candidates_of_cons {q : Nat → Bool} {a : Nat} {rest : List Nat}
    (h : candidates q n i = a :: rest) : candidates q n a = rest ++ [a] := by
  obtain ⟨front, back, hsplit, hfront, ha, hback⟩ := List.filter_eq_cons_iff.mp h
  have hlt : front.length < n := by
    have hlength := congrArg List.length hsplit
    simp only [around, List.length_map, List.length_range, List.length_append, List.length_cons]
      at hlength
    omega
  -- `a` stands `front.length + 1` places further on
  have hplace : (i + front.length + 1) % n = a := by
    have hget : (around n i)[front.length]? = some a := by
      rw [hsplit]
      simp
    rw [around, List.getElem?_map, List.getElem?_range hlt] at hget
    exact Option.some.inj hget
  have hrotate : around n a = (around n i).rotate (front.length + 1) := by
    have hlength : (List.range n).length = n := List.length_range
    rw [around_eq_rotate, around_eq_rotate, List.rotate_rotate, ← List.rotate_mod,
      ← List.rotate_mod (List.range n) (i + 1 + (front.length + 1)), hlength, ← hplace,
      Nat.mod_add_mod]
    congr 2
    omega
  have hshift : (front ++ a :: back).rotate (front.length + 1) = back ++ (front ++ [a]) := by
    have happend := List.rotate_append_length_eq (front ++ [a]) back
    simpa using happend
  have hnone : front.filter q = [] := List.filter_eq_nil_iff.mpr hfront
  rw [candidates, hrotate, hsplit, hshift, List.filter_append, List.filter_append, hback, hnone]
  simp [ha]

end Axionvera.Lib.Circle

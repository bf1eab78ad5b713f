import Mathlib.Data.List.AList
import Mathlib.Data.Nat.ModEq

/-! # Counting in a map

64-bit counters under keys, one made when its key first occurs. `Counts` says
which items a map has counted; the counters add up to how many there were
(`sum_bump`), as far as words can tell. -/
namespace Axionvera.Lib.Tally

variable {κ : Type} [DecidableEq κ] {m : AList fun _ : κ => UInt64} {l : List κ}

/-- `*m.entry(k).or_insert(0) += 1`. -/
def bump (m : AList fun _ : κ => UInt64) (k : κ) : AList fun _ : κ => UInt64 :=
  m.insert k ((m.lookup k).getD 0 + 1)

/-- The counters are those of the items of a list. -/
def Counts (m : AList fun _ : κ => UInt64) (l : List κ) : Prop :=
  ∀ k, m.lookup k = if k ∈ l then some (UInt64.ofNat (l.count k)) else none

theorem Counts.nil : Counts (∅ : AList fun _ : κ => UInt64) [] := fun _ => rfl

theorem Counts.getD (h : Counts m l) (k : κ) : (m.lookup k).getD 0 = UInt64.ofNat (l.count k) := by
  rw [h k]
  split
  · rfl
  · rename_i hk
    rw [List.count_eq_zero_of_not_mem hk]
    rfl

theorem Counts.bump (h : Counts m l) (k : κ) : Counts (bump m k) (l ++ [k]) := by
  intro j
  by_cases hj : j = k
  · subst hj
    rw [Tally.bump, AList.lookup_insert, h.getD, if_pos (by simp), List.count_append,
      List.count_singleton_self, UInt64.ofNat_add]
    rfl
  · have hcount : [k].count j = 0 := List.count_eq_zero_of_not_mem (by simpa using hj)
    rw [Tally.bump, AList.lookup_insert_ne hj, h j, List.count_append, hcount]
    simp [hj]

def sumEntries : List (Sigma fun _ : κ => UInt64) → Nat
  | [] => 0
  | e :: rest => e.2.toNat + sumEntries rest

/-- What the counters add up to. -/
def sum (m : AList fun _ : κ => UInt64) : Nat := sumEntries m.entries

theorem sumEntries_kerase (l : List (Sigma fun _ : κ => UInt64)) (k : κ) :
    sumEntries l = ((l.dlookup k).getD 0).toNat + sumEntries (l.kerase k) := by
  induction l with
  | nil => rfl
  | cons e rest ih =>
    obtain ⟨j, v⟩ := e
    by_cases hj : j = k
    · subst hj
      have herase : (⟨j, v⟩ :: rest : List (Sigma fun _ : κ => UInt64)).kerase j = rest :=
        List.kerase_cons_eq rfl
      rw [List.dlookup_cons_eq, herase]
      rfl
    · rw [List.dlookup_cons_ne _ _ (Ne.symm hj), List.kerase_cons_ne (Ne.symm hj), sumEntries,
        sumEntries, ih]
      exact Nat.add_left_comm _ _ _

theorem sum_bump (m : AList fun _ : κ => UInt64) (k : κ) :
    sum (bump m k) ≡ sum m + 1 [MOD 2 ^ 64] := by
  have hsum : sum m = ((m.lookup k).getD 0).toNat + sumEntries (m.entries.kerase k) :=
    sumEntries_kerase m.entries k
  have hbump : sum (bump m k) =
      ((m.lookup k).getD 0 + 1).toNat + sumEntries (m.entries.kerase k) := rfl
  rw [hsum, hbump, UInt64.toNat_add, Nat.add_right_comm]
  exact (Nat.mod_modEq _ _).add_right _

end Axionvera.Lib.Tally

import Mathlib.Algebra.BigOperators.Finprod
import Mathlib.Algebra.Order.BigOperators.Group.Finset
import Mathlib.Data.Set.Finite.Basic

/-! # Key-value storage with finitely many entries

A map is its lookup function together with the fact that only finitely many
keys are present, so that "the sum over all keys" means what it says. Absent
keys read as a default; writing zero may be modelled as removing the key, which
a reader with default zero cannot tell apart (`getD_put`). -/
namespace Axionvera.Lib.KeyValue

structure FinMap (κ ν : Type) where
  get : κ → Option ν
  finite : {k | get k ≠ none}.Finite

namespace FinMap

variable {κ ν : Type}

@[ext] theorem ext {m n : FinMap κ ν} (h : ∀ k, m.get k = n.get k) : m = n := by
  cases m; cases n
  congr
  exact funext h

def empty : FinMap κ ν := ⟨fun _ => none, by simp⟩

def getD (m : FinMap κ ν) (k : κ) (d : ν) : ν := (m.get k).getD d

def contains (m : FinMap κ ν) (k : κ) : Bool := (m.get k).isSome

@[simp] theorem get_empty (k : κ) : (empty : FinMap κ ν).get k = none := rfl

@[simp] theorem getD_empty (k : κ) (d : ν) : (empty : FinMap κ ν).getD k d = d := rfl

variable [DecidableEq κ]

def set (m : FinMap κ ν) (k : κ) (v : ν) : FinMap κ ν where
  get i := if i = k then some v else m.get i
  finite := by
    refine (m.finite.insert k).subset ?_
    intro i hi
    by_cases h : i = k
    · exact Or.inl h
    · exact Or.inr (by simpa [h] using hi)

def remove (m : FinMap κ ν) (k : κ) : FinMap κ ν where
  get i := if i = k then none else m.get i
  finite := by
    refine m.finite.subset ?_
    intro i hi
    by_cases h : i = k
    · simp [h] at hi
    · simpa [h] using hi

/-- Store `v` under `k`, or drop the entry when `v` is zero. -/
def put [Zero ν] [DecidableEq ν] (m : FinMap κ ν) (k : κ) (v : ν) : FinMap κ ν :=
  if v = 0 then m.remove k else m.set k v

theorem get_set (m : FinMap κ ν) (k i : κ) (v : ν) :
    (m.set k v).get i = if i = k then some v else m.get i := rfl

theorem get_remove (m : FinMap κ ν) (k i : κ) :
    (m.remove k).get i = if i = k then none else m.get i := rfl

theorem getD_set (m : FinMap κ ν) (k i : κ) (v d : ν) :
    (m.set k v).getD i d = if i = k then v else m.getD i d := by
  unfold getD
  rw [get_set]
  split <;> rfl

theorem get_set_ne (m : FinMap κ ν) {k i : κ} (v : ν) (h : i ≠ k) :
    (m.set k v).get i = m.get i := by
  rw [get_set, if_neg h]

theorem get_set_self (m : FinMap κ ν) (k : κ) (v : ν) : (m.set k v).get k = some v :=
  if_pos rfl

theorem set_set (m : FinMap κ ν) (k : κ) (v v' : ν) : (m.set k v).set k v' = m.set k v' := by
  refine ext fun i => ?_
  simp only [get_set]
  split <;> rfl

theorem contains_set (m : FinMap κ ν) (k i : κ) (v : ν) :
    (m.set k v).contains i = (decide (i = k) || m.contains i) := by
  unfold contains
  rw [get_set]
  by_cases h : i = k <;> simp [h]

section Zero
variable [Zero ν] [DecidableEq ν]

theorem getD_put (m : FinMap κ ν) (k i : κ) (v : ν) :
    (m.put k v).getD i 0 = if i = k then v else m.getD i 0 := by
  unfold put
  split
  · rename_i hv
    unfold getD
    rw [get_remove]
    split <;> simp [hv]
  · exact getD_set m k i v 0

theorem get_put_ne (m : FinMap κ ν) {k i : κ} (v : ν) (h : i ≠ k) :
    (m.put k v).get i = m.get i := by
  unfold put
  split
  · rw [get_remove, if_neg h]
  · exact get_set_ne m v h

/-- What a map holds under a key after `v` was put there. -/
def entry (v : ν) : Option ν := if v = 0 then none else some v

theorem get_put_self (m : FinMap κ ν) (k : κ) (v : ν) : (m.put k v).get k = entry v := by
  unfold put entry
  split
  · rw [get_remove, if_pos rfl]
  · exact get_set_self m k v

theorem put_put (m : FinMap κ ν) (k : κ) (v v' : ν) : (m.put k v).put k v' = m.put k v' := by
  refine ext fun i => ?_
  by_cases h : i = k
  · subst h
    rw [get_put_self, get_put_self]
  · rw [get_put_ne _ _ h, get_put_ne _ _ h, get_put_ne _ _ h]

end Zero

/-- Add to what is stored under a key. -/
def increase (m : FinMap κ ℤ) (k : κ) (d : ℤ) : FinMap κ ℤ := m.set k (m.getD k 0 + d)

theorem increase_comm (m : FinMap κ ℤ) (k i : κ) (d e : ℤ) :
    (m.increase k d).increase i e = (m.increase i e).increase k d := by
  refine ext fun x => ?_
  simp only [increase, get_set, getD_set]
  by_cases hk : x = k <;> by_cases hi : x = i <;> subst_vars <;> simp_all [add_right_comm]

end FinMap

/-! ## Sums over all keys -/

section Sum
variable {κ : Type} {f : κ → ℤ}

/-- Changing one value changes the sum by the difference. -/
theorem finsum_update [DecidableEq κ] (hf : {i | f i ≠ 0}.Finite) (k : κ) (v : ℤ) :
    ∑ᶠ i, Function.update f k v i = ∑ᶠ i, f i + (v - f k) := by
  let g : κ → ℤ := fun i => if i = k then v - f k else 0
  have hsplit : ∀ i, Function.update f k v i = f i + g i := by
    intro i
    by_cases h : i = k
    · subst h; simp [g]
    · simp [g, h]
  have hg : (Function.support g).Finite := by
    refine (Set.finite_singleton k).subset ?_
    intro i hi
    by_contra h
    exact hi (if_neg h)
  have hgk : ∑ᶠ i, g i = v - f k := by
    rw [finsum_eq_single g k fun i hi => if_neg hi]
    exact if_pos rfl
  rw [finsum_congr hsplit, finsum_add_distrib hf hg, hgk]

/-- A finite part of a sum of non-negative terms is at most the whole. -/
theorem sum_le_finsum (hf : {i | f i ≠ 0}.Finite) (h0 : ∀ i, 0 ≤ f i) (S : Finset κ) :
    ∑ i ∈ S, f i ≤ ∑ᶠ i, f i := by
  classical
  rw [finsum_eq_sum_of_support_subset f (s := hf.toFinset ∪ S) (by
    intro i hi; simp only [Finset.coe_union, Set.Finite.coe_toFinset]; exact Or.inl hi)]
  exact Finset.sum_le_sum_of_subset_of_nonneg Finset.subset_union_right fun i _ _ => h0 i

theorem le_finsum (hf : {i | f i ≠ 0}.Finite) (h0 : ∀ i, 0 ≤ f i) (k : κ) : f k ≤ ∑ᶠ i, f i := by
  simpa using sum_le_finsum hf h0 {k}

end Sum

/-! ## Sums over a list, key by key -/

/-- When every non-zero entry of a list belongs to one key, its sum is the sum
over the keys of what belongs to them. -/
theorem sum_eq_sum_by_key {α κ : Type} [DecidableEq κ] (key : α → Option κ) (f : α → ℤ)
    (S : Finset κ) {l : List α} (h0 : ∀ a ∈ l, key a = none → f a = 0)
    (hS : ∀ a ∈ l, ∀ k, key a = some k → k ∈ S) :
    (l.map f).sum = ∑ k ∈ S, (l.map fun a => if key a = some k then f a else 0).sum := by
  induction l with
  | nil => simp
  | cons a l ih =>
    have hone : ∑ k ∈ S, (if key a = some k then f a else 0) = f a := by
      cases hk : key a with
      | none => simp [h0 a (by simp) hk]
      | some k =>
        have hmem := hS a (by simp) k hk
        simp [hmem]
    have hrest := ih (fun b hb => h0 b (List.mem_cons_of_mem a hb))
      fun b hb => hS b (List.mem_cons_of_mem a hb)
    simp only [List.map_cons, List.sum_cons, Finset.sum_add_distrib, hone, hrest]

end Axionvera.Lib.KeyValue

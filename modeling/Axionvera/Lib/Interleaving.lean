import Mathlib.Data.List.Basic

/-! # Tasks that share a state

A system is a shared state and a list of tasks, each a program point with what
the task remembers. A step replaces one task by what it becomes and the shared
state by what the task leaves (`System.put`), so a quantity summed over the
tasks changes by what that one task contributed before and after. -/
namespace Axionvera.Lib.Interleaving

structure System (π σ : Type) where
  shared : σ
  tasks : List π

variable {π σ : Type} {s : System π σ} {i j : Nat} {t u : π} {x y : π × σ} {f : π → Bool}

/-- A new task, behind the others. -/
def System.start (s : System π σ) (t : π) : System π σ := { s with tasks := s.tasks ++ [t] }

/-- The task at place `i` becomes `x.1` and leaves the shared state `x.2`. -/
def System.put (s : System π σ) (i : Nat) (x : π × σ) : System π σ := ⟨x.2, s.tasks.set i x.1⟩

@[simp] theorem start_shared : (s.start t).shared = s.shared := rfl

@[simp] theorem put_shared : (s.put i x).shared = x.2 := rfl

theorem mem_start : u ∈ (s.start t).tasks ↔ u ∈ s.tasks ∨ u = t := by
  simp [System.start]

theorem mem_or_eq_of_mem_put (h : u ∈ (s.put i x).tasks) : u ∈ s.tasks ∨ u = x.1 :=
  List.mem_or_eq_of_mem_set h

theorem get_put_self (h : s.tasks[i]? = some t) : (s.put i x).tasks[i]? = some x.1 := by
  obtain ⟨hi, _⟩ := List.getElem?_eq_some_iff.mp h
  simp [System.put, hi]

theorem get_put_ne (h : i ≠ j) : (s.put i x).tasks[j]? = s.tasks[j]? :=
  List.getElem?_set_ne h

theorem put_put : (s.put i x).put i y = s.put i y := by
  simp [System.put]

theorem put_self (h : s.tasks[i]? = some t) : s.put i (t, s.shared) = s := by
  obtain ⟨hi, rfl⟩ := List.getElem?_eq_some_iff.mp h
  simp [System.put]

/-! ## Counting tasks -/

/-- How many of the tasks are of a kind. -/
def System.count (f : π → Bool) (s : System π σ) : Nat := s.tasks.countP f

theorem count_eq_zero : s.count f = 0 ↔ ∀ u ∈ s.tasks, ¬ f u = true := List.countP_eq_zero

theorem exists_of_count_pos (h : 0 < s.count f) :
    ∃ (i : Nat) (t : π), s.tasks[i]? = some t ∧ f t = true := by
  obtain ⟨t, hmem, ht⟩ := List.countP_pos_iff.mp h
  obtain ⟨i, hi⟩ := List.getElem?_of_mem hmem
  exact ⟨i, t, hi, ht⟩

theorem count_start : (s.start t).count f = s.count f + (f t).toNat := by
  cases h : f t with
  | false => simp [System.count, System.start, h]
  | true => simp [System.count, System.start, h]

/-- Only the task that moves changes the count. -/
theorem count_put (h : s.tasks[i]? = some t) :
    (s.put i x).count f + (f t).toNat = s.count f + (f x.1).toNat := by
  obtain ⟨hi, rfl⟩ := List.getElem?_eq_some_iff.mp h
  have hpos : (f s.tasks[i]).toNat ≤ s.tasks.countP f := by
    cases hf : f s.tasks[i] with
    | false => exact Nat.zero_le _
    | true => exact List.countP_pos_iff.mpr ⟨_, List.getElem_mem hi, hf⟩
  have hset := @List.countP_set π f s.tasks i x.1 hi
  have hnat : ∀ b : Bool, (if b = true then 1 else 0) = b.toNat := by decide
  rw [hnat, hnat] at hset
  show (s.tasks.set i x.1).countP f + _ = s.tasks.countP f + _
  omega

end Axionvera.Lib.Interleaving

import Axionvera.Lib.Interleaving
import Mathlib.Logic.Relation

/-! # Readers-writer locks that are not reentrant

A program point holds guards and may wait for one more. A request is granted
when no guard of any task stands against it, those of the asking task included.
Guards of different tasks then never conflict (`Exclusive`), and a task whose
own guard stands against its request is never the one that moves (`Stuck`), nor
is what it has locked ever written again (`Frozen`). Tasks that ask for their
locks in one order do not wait for each other in a circle (`Ascends`). -/
namespace Axionvera.Lib.Guards
open Axionvera.Lib.Interleaving

inductive Mode where
  | read
  | write
  deriving DecidableEq

structure Guard (ι : Type) where
  lock : ι
  mode : Mode
  deriving DecidableEq

/-- Two guards that cannot be held at a time: only readers share a lock. -/
def Guard.Conflicts {ι : Type} (g h : Guard ι) : Prop :=
  g.lock = h.lock ∧ (g.mode = .write ∨ h.mode = .write)

instance {ι : Type} [DecidableEq ι] (g h : Guard ι) : Decidable (g.Conflicts h) :=
  inferInstanceAs (Decidable (_ ∧ _))

/-- How program points use locks. -/
structure Discipline (ι π : Type) where
  holds : π → List (Guard ι)
  wants : π → Option (Guard ι)

variable {ι π σ : Type} {d : Discipline ι π} {s : System π σ} {tasks : List π} {t u t' : π}
  {e' : σ} {i j : Nat} {g h : Guard ι}

/-- What the task waits for, if anything, can be given to it. -/
def Granted (d : Discipline ι π) (tasks : List π) (t : π) : Prop :=
  ∀ g ∈ d.wants t, ∀ u ∈ tasks, ∀ h ∈ d.holds u, ¬ g.Conflicts h

instance [DecidableEq ι] : DecidablePred (Granted d tasks) := fun t =>
  inferInstanceAs (Decidable (∀ g ∈ d.wants t, _))

/-- The task waits for a lock that it holds. -/
def WaitsForItself (d : Discipline ι π) (t : π) : Prop :=
  ∃ g ∈ d.wants t, ∃ h ∈ d.holds t, g.lock = h.lock

/-- A guard of the task stands against its own request. -/
def Stuck (d : Discipline ι π) (t : π) : Prop := ∃ g ∈ d.wants t, ∃ h ∈ d.holds t, g.Conflicts h

theorem Stuck.not_granted (ht : Stuck d t) (hmem : t ∈ tasks) : ¬ Granted d tasks t := by
  intro hgranted
  obtain ⟨g, hg, h, hh, hconflict⟩ := ht
  exact hgranted g hg t hmem h hh hconflict

/-- When another task moves, a stuck one stays where it is. -/
theorem Stuck.get_put (hstuck : Stuck d t) (ht : s.tasks[i]? = some t) (hu : s.tasks[j]? = some u)
    (hgranted : Granted d s.tasks u) : (s.put j (t', e')).tasks[i]? = some t := by
  have hne : j ≠ i := by
    intro heq
    subst heq
    cases ht.symm.trans hu
    exact hstuck.not_granted (List.mem_of_getElem? ht) hgranted
  rw [get_put_ne hne]
  exact ht

/-- Guards of different tasks do not conflict. -/
def Exclusive (d : Discipline ι π) (tasks : List π) : Prop :=
  ∀ (i j : Nat) (t u : π), i ≠ j → tasks[i]? = some t → tasks[j]? = some u →
    ∀ g ∈ d.holds t, ∀ h ∈ d.holds u, ¬ g.Conflicts h

theorem Guard.Conflicts.symm (hc : g.Conflicts h) : h.Conflicts g :=
  ⟨hc.1.symm, hc.2.symm⟩

theorem Exclusive.start (h : Exclusive d s.tasks) (ht : d.holds t = []) :
    Exclusive d (s.start t).tasks := by
  intro i j x y hij hx hy g hg k hk
  have hold : ∀ {n : Nat} {z : π}, (s.start t).tasks[n]? = some z → d.holds z ≠ [] →
      s.tasks[n]? = some z := by
    intro n z hz hholds
    rw [System.start, List.getElem?_append] at hz
    split at hz
    · exact hz
    · rw [List.mem_singleton.mp (List.mem_of_getElem? hz)] at hholds
      exact False.elim (hholds ht)
  exact h i j x y hij (hold hx (List.ne_nil_of_mem hg)) (hold hy (List.ne_nil_of_mem hk)) g hg k hk

/-- A step takes no guard but the one that was granted. -/
theorem Exclusive.put (h : Exclusive d s.tasks) (ht : s.tasks[i]? = some t)
    (hgranted : Granted d s.tasks t) (htake : ∀ g ∈ d.holds t', g ∈ d.holds t ∨ g ∈ d.wants t) :
    Exclusive d (s.put i (t', e')).tasks := by
  -- The guards of the task that moved, against those of a task that did not.
  have hmoved : ∀ j u, i ≠ j → s.tasks[j]? = some u → ∀ g ∈ d.holds t', ∀ k ∈ d.holds u,
      ¬ g.Conflicts k := by
    intro j u hij hu g hg k hk
    rcases htake g hg with hg | hg
    · exact h i j t u hij ht hu g hg k hk
    · exact hgranted g hg u (List.mem_of_getElem? hu) k hk
  intro j k x y hjk hx hy g hg g' hg'
  by_cases hij : i = j
  · subst hij
    rw [get_put_self ht] at hx
    rw [get_put_ne hjk] at hy
    cases hx
    exact hmoved k y hjk hy g hg g' hg'
  · rw [get_put_ne hij] at hx
    by_cases hik : i = k
    · subst hik
      rw [get_put_self ht] at hy
      cases hy
      intro hconflict
      exact hmoved j x hij hx g' hg' g hg hconflict.symm
    · rw [get_put_ne hik] at hy
      exact h j k x y hjk hx hy g hg g' hg'

theorem exclusive_of_free (h : ∀ t ∈ tasks, d.holds t = []) : Exclusive d tasks := by
  intro i j t u _ ht _ g hg
  rw [h t (List.mem_of_getElem? ht)] at hg
  cases hg

/-! ## A state behind a lock -/

section Behind
variable {α : Type} {part : σ → α} {k : Guard ι} {s' : System π σ} {a : α}

/-- A step of tasks under locks: one that holds nothing joins, or one whose
request is granted moves, takes no guard but that and writes the part of the
state that is behind `k` only if it holds `k`. -/
inductive Moves (d : Discipline ι π) (k : Guard ι) (part : σ → α) (s : System π σ) :
    System π σ → Prop
  | start {t : π} (free : d.holds t = []) : Moves d k part s (s.start t)
  | put {i : Nat} {t : π} {x : π × σ} (found : s.tasks[i]? = some t)
      (granted : Granted d s.tasks t) (takes : ∀ g ∈ d.holds x.1, g ∈ d.holds t ∨ g ∈ d.wants t)
      (writes : k ∉ d.holds t → part x.2 = part s.shared) : Moves d k part s (s.put i x)

theorem Moves.exclusive (h : Moves d k part s s') (hex : Exclusive d s.tasks) :
    Exclusive d s'.tasks := by
  cases h with
  | start free => exact hex.start free
  | put found granted takes => exact hex.put found granted takes

/-- A stuck task stands at its place, and what it has locked is as it was. -/
structure Frozen (d : Discipline ι π) (part : σ → α) (i : Nat) (t : π) (a : α) (s : System π σ) :
    Prop where
  exclusive : Exclusive d s.tasks
  stays : s.tasks[i]? = some t
  kept : part s.shared = a

theorem Frozen.step (h : Frozen d part i t a s) (hstuck : Stuck d t) (hg : g ∈ d.holds t)
    (hk : g.Conflicts k) (hmoves : Moves d k part s s') : Frozen d part i t a s' := by
  refine ⟨hmoves.exclusive h.exclusive, ?_, ?_⟩
  · cases hmoves with
    | start =>
      obtain ⟨hi, _⟩ := List.getElem?_eq_some_iff.mp h.stays
      rw [System.start, List.getElem?_append_left hi]
      exact h.stays
    | put found granted => exact hstuck.get_put h.stays found granted
  · cases hmoves with
    | start => exact h.kept
    | @put j u x found granted takes writes =>
      refine (writes fun hheld => ?_).trans h.kept
      -- Only another task could hold the guard, and that would conflict.
      have hne : i ≠ j := by
        intro heq
        subst heq
        cases h.stays.symm.trans found
        exact hstuck.not_granted (List.mem_of_getElem? h.stays) granted
      exact h.exclusive i j t u hne h.stays found g hg k hheld hk

end Behind

/-! ## An order on the locks -/

/-- The task at place `i` waits for a lock that the one at place `j` holds. -/
def WaitsOn (d : Discipline ι π) (tasks : List π) (i j : Nat) : Prop :=
  ∃ t u, tasks[i]? = some t ∧ tasks[j]? = some u ∧
    ∃ g ∈ d.wants t, ∃ h ∈ d.holds u, g.lock = h.lock

/-- What the task asks for stands above all that it holds. -/
def Ascends (d : Discipline ι π) (rank : ι → Nat) (t : π) : Prop :=
  ∀ g ∈ d.wants t, ∀ h ∈ d.holds t, rank h.lock < rank g.lock

variable {rank : ι → Nat}

theorem Ascends.not_waitsForItself (h : Ascends d rank t) : ¬ WaitsForItself d t := by
  intro hself
  obtain ⟨g, hg, k, hk, hlock⟩ := hself
  have hlt := h g hg k hk
  rw [hlock] at hlt
  exact Nat.lt_irrefl _ hlt

/-- Along a chain of waiting tasks the locks do not go down. -/
theorem rank_le_of_waits (h : ∀ t ∈ tasks, Ascends d rank t)
    (hwaits : Relation.TransGen (WaitsOn d tasks) i j) :
    ∃ t u, tasks[i]? = some t ∧ tasks[j]? = some u ∧
      ∃ g ∈ d.wants t, ∃ k ∈ d.holds u, rank g.lock ≤ rank k.lock := by
  induction hwaits with
  | single hlast =>
    obtain ⟨t, u, ht, hu, g, hg, k, hk, hlock⟩ := hlast
    exact ⟨t, u, ht, hu, g, hg, k, hk, Nat.le_of_eq (congrArg rank hlock)⟩
  | tail _ hlast ih =>
    obtain ⟨t, u, ht, hu, g, hg, k, hk, hle⟩ := ih
    obtain ⟨u', v, hu', hv, g', hg', k', hk', hlock⟩ := hlast
    cases hu.symm.trans hu'
    have hlt := h u (List.mem_of_getElem? hu) g' hg' k hk
    rw [hlock] at hlt
    exact ⟨t, v, ht, hv, g, hg, k', hk', Nat.le_trans hle (Nat.le_of_lt hlt)⟩

theorem not_waits_in_circle (h : ∀ t ∈ tasks, Ascends d rank t) (i : Nat) :
    ¬ Relation.TransGen (WaitsOn d tasks) i i := by
  intro hwaits
  obtain ⟨t, u, ht, hu, g, hg, k, hk, hle⟩ := rank_le_of_waits h hwaits
  cases ht.symm.trans hu
  exact Nat.not_lt.mpr hle (h t (List.mem_of_getElem? ht) g hg k hk)

end Axionvera.Lib.Guards

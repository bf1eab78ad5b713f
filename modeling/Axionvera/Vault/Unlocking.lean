import Axionvera.Vault.Principal

/-! # Unlocking in batches

One pass over the locks of a user sets free the first few that have expired and
keeps the others in their order. Which locks these are is said by place: an
expired lock is due if fewer than `limit` expired ones stand before it. Two
passes at one time do what one pass with both limits does. -/
namespace Axionvera.Vault.Unlocking
open Axionvera.Lib.Host Axionvera.Lib.KeyValue
open Axionvera.Vault.Types Axionvera.Vault.Storage Axionvera.Vault.Contract Axionvera.Vault.Chain
open Axionvera.Vault.Accounts Axionvera.Vault.StorageSpec Axionvera.Vault.Effects
open Axionvera.Vault.Refinement Axionvera.Vault.Principal

variable {τ : Type} {D : Deployment τ} {w : World τ} {now n m : Nat} {ls : List Lock}
  {s : Storage} {u v : Address}

/-! ## Which locks are due -/

def expired (now : Nat) (l : Lock) : Bool := decide (l.unlockTimestamp ≤ now)

/-- A lock with its place in the list is among the first `n` expired ones. -/
def due (now n : Nat) (ls : List Lock) (x : Lock × Nat) : Bool :=
  expired now x.1 && decide (((ls.take x.2).filter (expired now)).length < n)

/-- The locks that are due, in their order. -/
def dueLocks (now n : Nat) (ls : List Lock) : List Lock :=
  (ls.zipIdx.filter (due now n ls)).map Prod.fst

/-- All the others, in theirs. -/
def otherLocks (now n : Nat) (ls : List Lock) : List Lock :=
  (ls.zipIdx.filter fun x => !due now n ls x).map Prod.fst

/-- One lock more in front moves every place by one. -/
theorem due_cons (l : Lock) (x : Lock × Nat) : due now n (l :: ls) (x.1, x.2 + 1) =
    due now (if expired now l then n - 1 else n) ls x := by
  unfold due
  rw [List.take_succ_cons]
  cases hl : expired now l with
  | false => simp [hl]
  | true =>
    simp only [List.filter_cons, hl, if_true, List.length_cons]
    congr 1
    rw [decide_eq_decide]
    omega

theorem due_zero (l : Lock) :
    due now n (l :: ls) (l, 0) = (expired now l && decide (0 < n)) := rfl

theorem places_cons (p : Lock × Nat → Bool) (l : Lock) (ls : List Lock) :
    (((l :: ls).zipIdx).filter p).map Prod.fst =
      (if p (l, 0) then [l] else []) ++
        (ls.zipIdx.filter fun x => p (x.1, x.2 + 1)).map Prod.fst := by
  rw [List.zipIdx_cons', List.filter_cons]
  have hrest : ((ls.zipIdx.map (Prod.map id (· + 1))).filter p).map Prod.fst =
      (ls.zipIdx.filter fun x => p (x.1, x.2 + 1)).map Prod.fst := by
    rw [List.filter_map, List.map_map]
    rfl
  split
  · rw [List.map_cons, hrest]
    rfl
  · rw [hrest]
    rfl

/-- What one lock in front adds to the locks that are due and to the others. -/
theorem dueLocks_cons (l : Lock) (ls : List Lock) : dueLocks now n (l :: ls) =
    (if l.unlockTimestamp ≤ now ∧ 0 < n then [l] else []) ++
      dueLocks now (if expired now l then n - 1 else n) ls := by
  rw [dueLocks, places_cons, due_zero]
  simp only [due_cons, expired, Bool.and_eq_true, decide_eq_true_eq]
  rfl

theorem otherLocks_cons (l : Lock) (ls : List Lock) : otherLocks now n (l :: ls) =
    (if l.unlockTimestamp ≤ now ∧ 0 < n then [] else [l]) ++
      otherLocks now (if expired now l then n - 1 else n) ls := by
  rw [otherLocks, places_cons, due_zero]
  simp only [due_cons, expired, Bool.not_eq_true', Bool.and_eq_false_iff, decide_eq_false_iff_not,
    ← not_and_or, ite_not]
  rfl

/-- The limit that is left after a lock, in the words of the pass. -/
theorem limit_after (l : Lock) (n : Nat) : (if expired now l then n - 1 else n) =
    if l.unlockTimestamp ≤ now ∧ 0 < n then n - 1 else n := by
  by_cases hl : l.unlockTimestamp ≤ now
  · cases n with
    | zero => simp
    | succ n => simp [expired, hl]
  · simp [expired, hl]

theorem released_eq_dueLocks (now n : Nat) (ls : List Lock) :
    released now n ls = dueLocks now n ls := by
  induction ls generalizing n with
  | nil => rfl
  | cons l ls ih =>
    rw [dueLocks_cons, limit_after, ← ih, released]
    split
    · rfl
    · rfl

theorem kept_eq_otherLocks (now n : Nat) (ls : List Lock) :
    kept now n ls = otherLocks now n ls := by
  induction ls generalizing n with
  | nil => rfl
  | cons l ls ih =>
    rw [otherLocks_cons, limit_after, ← ih, kept]
    split
    · rfl
    · rfl

/-! ## Two passes -/

theorem kept_zero (now : Nat) (ls : List Lock) : kept now 0 ls = ls :=
  kept_of_released_nil (released_zero now ls)

theorem kept_kept (now n m : Nat) (ls : List Lock) :
    kept now m (kept now n ls) = kept now (n + m) ls := by
  induction ls generalizing n with
  | nil => rfl
  | cons l ls ih =>
    cases n with
    | zero => rw [kept_zero, Nat.zero_add]
    | succ n =>
      by_cases hl : l.unlockTimestamp ≤ now
      · rw [Nat.succ_add]
        simp only [kept, hl, true_and, Nat.succ_pos, if_true, Nat.succ_sub_one]
        exact ih n
      · simp only [kept, hl, false_and, if_false]
        rw [ih (n + 1)]

/-- The first pass leaves the expired locks from its limit on. -/
theorem expired_kept (now n : Nat) (ls : List Lock) :
    (kept now n ls).filter (expired now) = (ls.filter (expired now)).drop n := by
  induction ls generalizing n with
  | nil => simp [kept]
  | cons l ls ih =>
    cases n with
    | zero => rw [kept_zero, List.drop_zero]
    | succ n =>
      by_cases hl : l.unlockTimestamp ≤ now
      · have hfirst : expired now l = true := decide_eq_true hl
        simp only [kept, hl, true_and, Nat.succ_pos, if_true, Nat.succ_sub_one]
        rw [ih n, List.filter_cons_of_pos hfirst, List.drop_succ_cons]
      · have hfirst : ¬ expired now l = true := by simpa [expired] using hl
        simp only [kept, hl, false_and, if_false]
        rw [List.filter_cons_of_neg hfirst, List.filter_cons_of_neg hfirst, ih (n + 1)]

theorem released_append_released (now n m : Nat) (ls : List Lock) :
    released now n ls ++ released now m (kept now n ls) = released now (n + m) ls := by
  have htake := fun k ks => released_eq_take now k ks
  have hkept : (kept now n ls).filter (fun l => decide (l.unlockTimestamp ≤ now)) =
      (ls.filter fun l => decide (l.unlockTimestamp ≤ now)).drop n := expired_kept now n ls
  rw [htake, htake, htake, hkept, ← List.take_add]

/-- Two passes leave the storage that one pass with both limits leaves. -/
theorem afterUnlock_afterUnlock (now n m : Nat) (u : Address) (s : Storage) :
    afterUnlock now m u (afterUnlock now n u s) = afterUnlock now (n + m) u s := by
  have hfree := released_append_released now n m (locks s u)
  have hkept := kept_kept now n m (locks s u)
  by_cases hfirst : released now n (locks s u) = []
  · -- nothing is due in the first pass, and so the second one finds what it found
    rw [kept_of_released_nil hfirst] at hfree hkept
    rw [hfirst, List.nil_append] at hfree
    rw [afterUnlock_of_nil hfirst, afterUnlock, afterUnlock, hfree, hkept]
  · have hlocks : locks (afterUnlock now n u s) u = kept now n (locks s u) := by
      rw [locks_afterUnlock, if_pos rfl]
    have hliquid : liquid (afterUnlock now n u s) u =
        liquid s u + lockSum (released now n (locks s u)) := by
      rw [liquid_afterUnlock, if_pos rfl]
    have hboth : released now (n + m) (locks s u) ≠ [] := by
      rw [← hfree]
      exact List.append_ne_nil_of_left_ne_nil hfirst _
    by_cases hsecond : released now m (kept now n (locks s u)) = []
    · rw [hsecond, List.append_nil] at hfree
      rw [kept_of_released_nil hsecond] at hkept
      rw [afterUnlock_of_nil (hlocks ▸ hsecond), afterUnlock, afterUnlock, hfree, hkept]
    · rw [afterUnlock_of_ne_nil (hlocks ▸ hsecond), afterUnlock_of_ne_nil hboth, hlocks, hliquid,
        afterUnlock_of_ne_nil hfirst, FinMap.put_put, FinMap.set_set, hkept, ← hfree,
        lockSum_append, add_assoc]

/-! ## The pass of the code -/

/-- The pass writes the liquid balance and the locks of its user and nothing else. -/
theorem afterUnlock_frame (now n : Nat) (u : Address) (s : Storage) :
    { afterUnlock now n u s with
      userLiquidBalance := s.userLiquidBalance, userLocks := s.userLocks } = s ∧
    ∀ v, v ≠ u → (afterUnlock now n u s).userLiquidBalance.get v = s.userLiquidBalance.get v ∧
      (afterUnlock now n u s).userLocks.get v = s.userLocks.get v := by
  refine ⟨rfl, ?_⟩
  intro v hv
  by_cases hnone : released now n (locks s u) = []
  · rw [afterUnlock_of_nil hnone]
    exact ⟨rfl, rfl⟩
  · rw [afterUnlock_of_ne_nil hnone]
    exact ⟨FinMap.get_put_ne _ _ hv, FinMap.get_set_ne _ _ hv⟩

/-- A pass over a sound storage always returns. -/
theorem unlockExpiredLocks_pass {s : Storage} (hs : Sound s) (now n : Nat) (u : Address) :
    unlockExpiredLocks u n now s =
      .ok (lockSum (released now n (locks s u))) (afterUnlock now n u s) :=
  (unlockExpiredLocks_returns hs).mpr ⟨rfl, rfl⟩

/-- **Batched unlocking.** In every reachable state, at every time and for every
limit, the pass sets free the locks that are due, which are the first `n` expired
ones or all of them, keeps the others, adds the sum to the liquid balance and
returns it. Hence two passes at one time are one pass with the sum of their
limits. -/
theorem unlock_batches_compose (hr : Reachable D w) (now : Nat) (u : Address) :
    let s := w.storage
    let ls := locks s u
    (∀ n, ∃ t, unlockExpiredLocks u n now s = .ok (lockSum (dueLocks now n ls)) t ∧
      dueLocks now n ls = (ls.filter (expired now)).take n ∧
      (dueLocks now n ls).length = min n (ls.filter (expired now)).length ∧
      locks t u = otherLocks now n ls ∧
      liquid t u = liquid s u + lockSum (dueLocks now n ls) ∧
      { t with userLiquidBalance := s.userLiquidBalance, userLocks := s.userLocks } = s ∧
      ∀ v, v ≠ u → t.userLiquidBalance.get v = s.userLiquidBalance.get v ∧
        t.userLocks.get v = s.userLocks.get v) ∧
    ∀ n m, ∃ x y t t', unlockExpiredLocks u n now s = .ok x t ∧
      unlockExpiredLocks u m now t = .ok y t' ∧
      unlockExpiredLocks u (n + m) now s = .ok (x + y) t' := by
  intro s ls
  have hsound := (ready_of_reachable hr).sound
  refine ⟨?_, ?_⟩
  · intro n
    have hreturns := unlockExpiredLocks_pass hsound now n u
    have htake : dueLocks now n ls = (ls.filter (expired now)).take n := by
      rw [← released_eq_dueLocks]
      exact released_eq_take now n ls
    rw [released_eq_dueLocks] at hreturns
    refine ⟨_, hreturns, htake, ?_, ?_, ?_, afterUnlock_frame now n u s⟩
    · rw [htake, List.length_take]
    · rw [locks_afterUnlock, if_pos rfl, kept_eq_otherLocks]
    · rw [liquid_afterUnlock, if_pos rfl, released_eq_dueLocks]
  · intro n m
    have hfirst := unlockExpiredLocks_pass hsound now n u
    have hsecond := unlockExpiredLocks_pass (sound_afterUnlock hsound now n u) now m u
    have hboth := unlockExpiredLocks_pass hsound now (n + m) u
    have hsum := congrArg lockSum (released_append_released now n m ls)
    rw [locks_afterUnlock, if_pos rfl, afterUnlock_afterUnlock] at hsecond
    rw [← hsum, lockSum_append] at hboth
    exact ⟨_, _, _, _, hfirst, hsecond, hboth⟩

/-- Three locks of which the outer two have expired: one pass for each of them. -/
theorem unlock_batches_compose_three : ∃ w : World Bank,
    (locks w.storage alice).map Lock.unlockTimestamp = [15, 90, 20] ∧
    ∃ x y t t', unlockExpiredLocks alice 1 30 w.storage = .ok x t ∧
      unlockExpiredLocks alice 1 30 t = .ok y t' ∧
      unlockExpiredLocks alice 2 30 w.storage = .ok (x + y) t' := by
  have hreach := session_reachable 1000 plainOpening plainOpening_isOk
    [(10, .deposit alice 100), (10, .lock alice 6 5), (10, .lock alice 7 80), (10, .lock alice 8 10)]
  exact ⟨_, rfl, (unlock_batches_compose hreach 30 alice).2 1 1⟩

end Axionvera.Vault.Unlocking

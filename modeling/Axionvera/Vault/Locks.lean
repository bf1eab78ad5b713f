import Axionvera.Vault.Principal

/-! # Locked funds

A lock enters the list of its user with the `lock` call that makes it and leaves
with a withdrawal or an unlocking that the user makes once it has expired. Both
directions are kept as accounts over whole runs: the locks ever made are those
ever removed together with those still there, and the liquid balance is what
came in and went out, less what was locked, plus what was removed. -/
namespace Axionvera.Vault.Locks
open Axionvera.Lib.Host Axionvera.Lib.MachineInt Axionvera.Lib.Transition
open Axionvera.Vault.Types Axionvera.Vault.Storage Axionvera.Vault.Contract Axionvera.Vault.Chain
open Axionvera.Vault.Accounts Axionvera.Vault.Effects Axionvera.Vault.Refinement
open Axionvera.Vault.Principal

variable {τ : Type}

/-! ## What a step of the chain does to the locks of a user -/

/-- The lock a step makes for `u`. -/
def appendedBy (u : Address) : Entry τ → List Lock
  | .ok _ (.lock v amount duration) pre _ =>
    if v = u then [newLock pre.timestamp amount.val duration.toNat] else []
  | _ => []

/-- The locks of `u` that a step sets free. -/
def removedBy (u : Address) : Entry τ → List Lock
  | .ok _ (.withdraw v _) pre _ =>
    if v = u then released pre.timestamp WITHDRAW_UNLOCK_LIMIT (locks pre.storage u) else []
  | .ok _ (.unlockExpired v limit) pre _ =>
    if v = u then released pre.timestamp limit.toNat (locks pre.storage u) else []
  | _ => []

/-- What a step brings into the legacy pool for `u`, or takes out. -/
def flowBy (u : Address) : Entry τ → Int
  | .ok _ (.deposit v amount) _ _ => if v = u then amount.val else 0
  | .ok _ (.withdraw v amount) _ _ => if v = u then -amount.val else 0
  | _ => 0

/-- A successful call by `u` that may remove `l`: a withdrawal or an unlocking,
authorised by `u` and not before the lock expires. -/
inductive Releases (u : Address) (l : Lock) : Entry τ → Prop
  | withdraw {env : Env} {amount : I128} {pre : World τ} {value : Value} : env.auths u = true →
      l.unlockTimestamp ≤ pre.timestamp → Releases u l (.ok env (.withdraw u amount) pre value)
  | unlockExpired {env : Env} {limit : UInt32} {pre : World τ} {value : Value} :
      env.auths u = true → l.unlockTimestamp ≤ pre.timestamp →
      Releases u l (.ok env (.unlockExpired u limit) pre value)

/-- A step keeps the account of the locks of `u`. -/
structure LockStep (u : Address) (s : Storage) (e : Entry τ) (t : Storage) : Prop where
  perm : (locks s u ++ appendedBy u e).Perm (removedBy u e ++ locks t u)
  expired : ∀ l ∈ removedBy u e, Releases u l e
  liquid : liquid t u = liquid s u + flowBy u e - lockSum (appendedBy u e) + lockSum (removedBy u e)

section Steps
variable {D : Deployment τ} {env : Env} {w w' : World τ} {call : Call} {value : Value}
variable {s t : Storage} {u v : Address} {e : Entry τ}

theorem LockStep.rest (ha : appendedBy u e = []) (hr : removedBy u e = []) (hf : flowBy u e = 0)
    (hk : locks t u = locks s u) (hl : Accounts.liquid t u = Accounts.liquid s u) :
    LockStep u s e t := by
  refine ⟨?_, ?_, ?_⟩
  · rw [ha, hr, hk, List.append_nil]
    exact List.Perm.refl _
  · intro l hl
    rw [hr] at hl
    cases hl
  · rw [ha, hr, hf, hl, add_zero, sub_add_cancel]

/-- The locks a bounded pass sets free are credited and the others stay. -/
theorem LockStep.release {now limit : Nat} (ha : appendedBy u e = [])
    (hr : removedBy u e = released now limit (locks s u))
    (hk : locks t u = kept now limit (locks s u))
    (hl : Accounts.liquid t u =
      Accounts.liquid s u + lockSum (released now limit (locks s u)) + flowBy u e)
    (hrel : ∀ l : Lock, l.unlockTimestamp ≤ now → Releases u l e) : LockStep u s e t := by
  refine ⟨?_, ?_, ?_⟩
  · rw [ha, hr, hk, List.append_nil]
    exact (released_perm_kept now limit (locks s u)).symm
  · intro l hl
    rw [hr] at hl
    exact hrel l (released_expired now limit hl)
  · rw [ha, hr, hl]
    simp only [lockSum, List.map_nil, List.sum_nil]
    omega

theorem lockStep_of_effect (h : Effect D env w call value w') (u : Address) :
    LockStep u w.storage (.ok env call w value) w'.storage := by
  cases h with
  | @deposit v _ amount =>
    by_cases hu : v = u
    · subst hu
      refine ⟨?_, ?_, ?_⟩
      · exact (List.append_nil _).symm ▸ List.Perm.refl _
      · intro l hl
        cases hl
      · rw [moved, liquid_afterDeposit, if_pos rfl, flowBy, if_pos rfl]
        simp [appendedBy, removedBy, lockSum]
    · refine .rest rfl rfl (if_neg hu) rfl ?_
      rw [moved, liquid_afterDeposit, if_neg (Ne.symm hu)]
  | @withdraw v _ amount _ _ _ hauth =>
    by_cases hu : v = u
    · subst hu
      refine .release rfl (if_pos rfl) ?_ ?_ fun l hl => .withdraw hauth hl
      · rw [moved, locks_afterWithdraw, if_pos rfl]
      · rw [moved, liquid_afterWithdraw, if_pos rfl, flowBy, if_pos rfl, withdrawable, sub_eq_add_neg]
    · refine .rest rfl (if_neg hu) (if_neg hu) ?_ ?_
      · rw [moved, locks_afterWithdraw, if_neg (Ne.symm hu)]
      · rw [moved, liquid_afterWithdraw, if_neg (Ne.symm hu)]
  | @lock v amount duration =>
    by_cases hu : v = u
    · subst hu
      have happ : appendedBy v (Entry.ok env (.lock v amount duration) w .unit) =
          [newLock w.timestamp amount.val duration.toNat] := if_pos rfl
      refine ⟨?_, ?_, ?_⟩
      · rw [happ, moved, locks_afterLock, if_pos rfl]
        exact List.Perm.refl _
      · intro l hl
        cases hl
      · rw [happ, moved, liquid_afterLock, if_pos rfl]
        simp [flowBy, removedBy, lockSum, newLock]
    · refine .rest (if_neg hu) rfl rfl ?_ ?_
      · rw [moved, locks_afterLock, if_neg (Ne.symm hu)]
      · rw [moved, liquid_afterLock, if_neg (Ne.symm hu)]
  | @unlockExpired v limit _ _ hauth =>
    by_cases hu : v = u
    · subst hu
      refine .release rfl (if_pos rfl) ?_ ?_ fun l hl => .unlockExpired hauth hl
      · rw [moved, locks_afterUnlock, if_pos rfl]
      · rw [moved, liquid_afterUnlock, if_pos rfl]
        exact (add_zero _).symm
    · refine .rest rfl (if_neg hu) rfl ?_ ?_
      · rw [moved, locks_afterUnlock, if_neg (Ne.symm hu)]
      · rw [moved, liquid_afterUnlock, if_neg (Ne.symm hu)]
  | _ => exact .rest rfl rfl rfl rfl rfl

/-- **One step of the chain keeps the account of every user's locks.** -/
theorem lockStep_of_step (hr : Ready w.storage) (hs : ChainStep D w e w') (u : Address) :
    LockStep u w.storage e w'.storage := by
  cases stepEffect_of_step hr hs with
  | call _ heff => exact lockStep_of_effect heff u
  | failed => exact .rest rfl rfl rfl rfl rfl
  | outside => exact .rest rfl rfl rfl rfl rfl

/-- A lock that a step may not remove is there as often as before. -/
theorem LockStep.count_le (h : LockStep u s e t) {l : Lock} (hl : ¬ Releases u l e) :
    (locks s u).count l ≤ (locks t u).count l := by
  have hnot : l ∉ removedBy u e := fun hm => hl (h.expired l hm)
  have hcount := h.perm.count_eq l
  rw [List.count_append, List.count_append, List.count_eq_zero.mpr hnot] at hcount
  omega

end Steps

/-! ## Whole runs -/

/-- The locks of `u` made along a run. -/
def appended (u : Address) (h : List (Entry τ)) : List Lock := h.flatMap (appendedBy u)

/-- The locks of `u` removed along a run, once for each removal. -/
def removed (u : Address) (h : List (Entry τ)) : List Lock := h.flatMap (removedBy u)

section Runs
variable {D : Deployment τ} {w₀ w w' : World τ} {h : List (Entry τ)} {u : Address}

theorem locks_of_started (h0 : Started D w) (u : Address) :
    locks w.storage u = [] ∧ liquid w.storage u = 0 := by
  obtain ⟨_, _, _, _, _, _, _, hw⟩ := started_storage h0
  rw [hw]
  exact ⟨rfl, rfl⟩

/-- The locks ever made are those ever removed and those still there. -/
theorem appended_perm (h0 : Started D w₀) (hr : ChainRun D w₀ h w) (u : Address) :
    (appended u h).Perm (removed u h ++ locks w.storage u) := by
  induction hr with
  | nil =>
    rw [(locks_of_started h0 u).1]
    exact List.Perm.refl _
  | @snoc h w₁ w₂ e hr hs ih =>
    have hstep := (lockStep_of_step (ready_of_run h0 hr) hs u).perm
    refine List.perm_iff_count.mpr fun l => ?_
    have hl := ih.count_eq l
    have hls := hstep.count_eq l
    simp only [appended, removed, List.flatMap_cons, List.count_append] at hl hls ⊢
    omega

/-- The liquid balance is what came in and went out, less what was locked, plus
what was removed. -/
theorem liquid_eq (h0 : Started D w₀) (hr : ChainRun D w₀ h w) (u : Address) :
    liquid w.storage u =
      (h.map (flowBy u)).sum - lockSum (appended u h) + lockSum (removed u h) := by
  induction hr with
  | nil =>
    rw [(locks_of_started h0 u).2]
    rfl
  | @snoc h w₁ w₂ e hr hs ih =>
    have hstep := (lockStep_of_step (ready_of_run h0 hr) hs u).liquid
    simp only [appended, removed, List.flatMap_cons, List.map_cons, List.sum_cons,
      lockSum_append] at ih ⊢
    omega

theorem released_of_mem_removed (h0 : Started D w₀) (hr : ChainRun D w₀ h w) {l : Lock}
    (hl : l ∈ removed u h) : ∃ e ∈ h, Releases u l e := by
  induction hr with
  | nil => cases hl
  | @snoc h w₁ w₂ e hr hs ih =>
    rw [removed, List.flatMap_cons] at hl
    rcases List.mem_append.mp hl with hl | hl
    · exact ⟨e, by simp, (lockStep_of_step (ready_of_run h0 hr) hs u).expired l hl⟩
    · obtain ⟨e', he, hrel⟩ := ih hl
      exact ⟨e', List.mem_cons_of_mem e he, hrel⟩

/-- Without a call that may remove it, a lock stays. -/
theorem count_le_of_run (hready : Ready w.storage) (hr : ChainRun D w h w') {l : Lock}
    (hl : ∀ e ∈ h, ¬ Releases u l e) :
    Ready w'.storage ∧ (locks w.storage u).count l ≤ (locks w'.storage u).count l := by
  induction hr with
  | nil => exact ⟨hready, le_rfl⟩
  | @snoc h w₁ w₂ e hr hs ih =>
    obtain ⟨hready₁, hle⟩ := ih fun e' he => hl e' (List.mem_cons_of_mem e he)
    have hstep := lockStep_of_step hready₁ hs u
    exact ⟨ready_of_step hready₁ hs, hle.trans (hstep.count_le (hl e (by simp)))⟩

end Runs

/-! ## Running locks -/

/-- The locks that have not expired. -/
def running (now : Nat) (ls : List Lock) : List Lock :=
  ls.filter fun l => decide (now < l.unlockTimestamp)

section Running
variable {D : Deployment τ} {w₀ w w' : World τ} {h : List (Entry τ)} {u : Address} {s : Storage}

theorem running_le_balance (hs : Sound s) (now : Nat) (u : Address) :
    lockSum (running now (locks s u)) ≤ (position s .legacy u).balance := by
  have hliq := hs.liquid_nonneg u
  have hle : lockSum (running now (locks s u)) ≤ lockSum (locks s u) := by
    refine (List.filter_sublist.map Lock.amount).sum_le_sum ?_
    intro x hx
    obtain ⟨l, hl, rfl⟩ := List.mem_map.mp hx
    exact (hs.lock_pos u l hl).le
  rw [balance_eq]
  omega

/-- A call removes no running lock: those there before are there after it, with
the one it may have made. -/
theorem running_perm_of_effect {env : Env} {call : Call} {value : Value}
    (h : Effect D env w call value w') (u : Address) :
    (running w.timestamp (locks w.storage u) ++
      running w.timestamp (appendedBy u (.ok env call w value))).Perm
        (running w.timestamp (locks w'.storage u)) := by
  have hstep := lockStep_of_effect h u
  have hgone : running w.timestamp (removedBy u (.ok env call w value)) = [] := by
    refine List.filter_eq_nil_iff.mpr fun l hl => ?_
    have hexp : l.unlockTimestamp ≤ w.timestamp := by
      cases hstep.expired l hl with
      | withdraw _ hexp => exact hexp
      | unlockExpired _ hexp => exact hexp
    simpa using hexp
  have hperm := hstep.perm.filter fun l => decide (w.timestamp < l.unlockTimestamp)
  rw [List.filter_append, List.filter_append] at hperm
  exact hperm.trans (by rw [show (removedBy u _).filter _ = [] from hgone, List.nil_append]; rfl)

theorem running_le_of_effect {env : Env} {call : Call} {value : Value} (hs : Sound w'.storage)
    (h : Effect D env w call value w') (u : Address) :
    lockSum (running w.timestamp (locks w.storage u)) ≤
      lockSum (running w.timestamp (locks w'.storage u)) := by
  have hperm := running_perm_of_effect h u
  have hnew : 0 ≤ lockSum (running w.timestamp (appendedBy u (.ok env call w value))) := by
    refine lockSum_nonneg fun l hl => ?_
    have hmem := hperm.subset (List.mem_append_right _ hl)
    exact hs.lock_pos u l (List.mem_filter.mp hmem).1
  have hsum := (hperm.map Lock.amount).sum_eq
  rw [List.map_append, List.sum_append] at hsum
  exact (le_add_of_nonneg_right hnew).trans_eq hsum

/-- **Locked funds never leave early.** Every step removes only expired locks of
a user who asked for it and credits what it removes; a lock stays as long as no
such step is made; along a whole run each lock is removed at most once and
credited exactly as often; and no call brings a balance below the locks still
running, be they those before the call or those after it. -/
theorem locked_until_expiry (h0 : Started D w₀) (hr : ChainRun D w₀ h w) (u : Address) :
    (∀ e w', ChainStep D w e w' → LockStep u w.storage e w'.storage) ∧
    (∀ l h' w', ChainRun D w h' w' → (∀ e ∈ h', ¬ Releases u l e) →
      (locks w.storage u).count l ≤ (locks w'.storage u).count l) ∧
    (∀ l ∈ removed u h, ∃ e ∈ h, Releases u l e) ∧
    (appended u h).Perm (removed u h ++ locks w.storage u) ∧
    liquid w.storage u =
      (h.map (flowBy u)).sum - lockSum (appended u h) + lockSum (removed u h) ∧
    ∀ env call value w', Returns (exec D.client call) env w value w' →
      lockSum (running w.timestamp (locks w.storage u)) ≤ (position w'.storage .legacy u).balance ∧
      lockSum (running w.timestamp (locks w'.storage u)) ≤ (position w'.storage .legacy u).balance := by
  have hready := ready_of_run h0 hr
  refine ⟨?_, ?_, ?_, appended_perm h0 hr u, liquid_eq h0 hr u, ?_⟩
  · intro e w' hs
    exact lockStep_of_step hready hs u
  · intro l h' w' hr' hl
    exact (count_le_of_run hready hr' hl).2
  · intro l hl
    exact released_of_mem_removed h0 hr hl
  · intro env call value w' hret
    have heff := effect_of_returns hready hret
    have hs' := sound_of_effect hready.sound heff
    have hafter := running_le_balance hs' w.timestamp u
    exact ⟨(running_le_of_effect hs' heff u).trans hafter, hafter⟩

/-- A lock made, outlived by a withdrawal and removed after its time. -/
def unlockedSession : List (Entry Bank) × World Bank :=
  session 1000 plainOpening [(10, .deposit alice 100),
    (20, .lock alice 40 1000), (30, .withdraw alice 60),
    (40, .unlockExpired alice 5), (1020, .unlockExpired alice 5)]

theorem locked_until_expiry_unlocked :
    appended alice unlockedSession.1 = [newLock 20 40 1000] ∧
    removed alice unlockedSession.1 = [newLock 20 40 1000] ∧
    ((appended alice unlockedSession.1).Perm
      (removed alice unlockedSession.1 ++ locks unlockedSession.2.storage alice)) ∧
    liquid unlockedSession.2.storage alice = 40 := by
  have h := locked_until_expiry (started_opened 1000 plainOpening plainOpening_isOk)
    (session_run 1000 plainOpening [(10, .deposit alice 100),
      (20, .lock alice 40 1000), (30, .withdraw alice 60),
      (40, .unlockExpired alice 5), (1020, .unlockExpired alice 5)]) alice
  exact ⟨rfl, rfl, h.2.2.2.1, rfl⟩

end Running
end Axionvera.Vault.Locks

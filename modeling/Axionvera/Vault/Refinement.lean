import Axionvera.Lib.RewardLedger
import Axionvera.Vault.Effects

/-! # The vault is a family of reward pools

Each pool of the vault, watched along a run of the chain, makes a run of the
pool machine of `RewardPool`: `callMove` says which event a successful call is
for a pool, `effect_step` that the event is a legal step. Since legal steps keep
a pool well formed, so does the vault (`ready_of_reachable`), and what
`RewardLedger` proves about runs of pools holds of the vault
(`ledger_of_chainRun`). -/
namespace Axionvera.Vault.Refinement
open Axionvera.Lib.Host Axionvera.Lib.KeyValue Axionvera.Lib.MachineInt Axionvera.Lib.Transition
open Axionvera.Lib.RewardPool Axionvera.Lib.RewardLedger
open Axionvera.Vault.Types Axionvera.Vault.Storage Axionvera.Vault.Contract Axionvera.Vault.Chain
open Axionvera.Vault.Accounts Axionvera.Vault.StorageSpec Axionvera.Vault.Effects

variable {τ : Type}

/-! ## Calls as pool events -/

/-- The amount a claim returns. -/
def amountOf : Value → Int
  | .int x => x
  | _ => 0

/-- A distribution of `amount` over the stakes that a pool has at this moment. -/
def distributionOf (s : Storage) (p : PoolId) (amount : Int) : Distribution Address where
  amount := amount
  total := poolTotal s p
  balance u := (position s p u).balance

/-- What a successful call is for one pool. Unlocking and every administrative
call leave all pools alone. -/
def callMove (pre : World τ) (value : Value) (p : PoolId) : Call → Move Address
  | .deposit u amount => if p = .legacy then .touch u amount.val 0 pre.timestamp else .idle
  | .withdraw u amount => if p = .legacy then .touch u (-amount.val) 0 pre.timestamp else .idle
  | .lock u _ _ => if p = .legacy then .touch u 0 0 pre.timestamp else .idle
  | .claimRewards u => if p = .legacy then .touch u 0 (amountOf value) pre.timestamp else .idle
  | .distributeRewards amount =>
    if p = .legacy then .distribute (distributionOf pre.storage p (effective pre.storage amount.val))
    else .idle
  | .depositAsset u a amount => if p = .asset a then .touch u amount.val 0 pre.timestamp else .idle
  | .withdrawAsset u a amount =>
    if p = .asset a then .touch u (-amount.val) 0 pre.timestamp else .idle
  | .claimRewardsForAsset u a =>
    if p = .asset a then .touch u 0 (amountOf value) pre.timestamp else .idle
  | .distributeRewardsForAsset _ a amount =>
    if p = .asset a then .distribute (distributionOf pre.storage p amount.val) else .idle
  | _ => .idle

/-- What a step of the chain is for one pool. -/
def move (p : PoolId) : Entry τ → Move Address
  | .ok _ call pre value => callMove pre value p call
  | .failed _ _ => .idle
  | .outside => .idle

section Steps
variable {D : Deployment τ} {env : Env} {w w' : World τ} {call : Call} {value : Value}
variable {s t : Storage} {u : Address} {delta paid amount : Int} {now : Nat} {p : PoolId}

theorem idle_step (h : pool t p = pool s p) : Step REWARD_INDEX_SCALE (pool s p) .idle (pool t p) := by
  rw [h]
  exact .idle

theorem touch_step (h : pool t p = (pool s p).touch REWARD_INDEX_SCALE u delta paid now)
    (hb : 0 ≤ (position s p u).balance + delta) (h0 : 0 ≤ paid) (hp : paid ≤ pending s p u) :
    Step REWARD_INDEX_SCALE (pool s p) (.touch u delta paid now) (pool t p) := by
  rw [h]
  exact .touch hb h0 hp

theorem distribute_step (h : pool t p = (pool s p).distribute REWARD_INDEX_SCALE amount)
    (ht : 0 < poolTotal s p) (h0 : 0 ≤ amount) :
    Step REWARD_INDEX_SCALE (pool s p) (.distribute (distributionOf s p amount)) (pool t p) := by
  rw [h]
  exact Step.distribute (d := distributionOf s p amount) ht h0 rfl rfl

theorem withdrawable_le_balance (hs : Sound s) (now : Nat) (u : Address) :
    withdrawable now s u ≤ (position s .legacy u).balance := by
  have := hs.released_le (u := u) now WITHDRAW_UNLOCK_LIMIT
  rw [balance_eq, withdrawable]
  omega

/-- **One call is one step of every pool.** -/
theorem effect_step (hs : Sound w.storage) (h : Effect D env w call value w') (p : PoolId) :
    Step REWARD_INDEX_SCALE (pool w.storage p) (callMove w value p call) (pool w'.storage p) := by
  have hbal := fun p u => hs.balance_nonneg (p := p) (u := u)
  have hpend := fun p u => hs.pending_nonneg (p := p) (u := u)
  cases h with
  | deposit _ h0 =>
    cases p with
    | legacy =>
      refine touch_step pool_afterDeposit ?_ le_rfl (hpend _ _)
      exact add_nonneg (hbal _ _) h0.le
    | asset b => exact idle_step rfl
  | @withdraw u _ amount _ _ _ _ _ _ hle _ =>
    cases p with
    | legacy =>
      have := withdrawable_le_balance hs w.timestamp u
      refine touch_step pool_afterWithdraw ?_ le_rfl (hpend _ _)
      omega
    | asset b => exact idle_step rfl
  | lock =>
    cases p with
    | legacy =>
      refine touch_step pool_afterLock ?_ le_rfl (hpend _ _)
      rw [add_zero]
      exact hbal _ _
    | asset b => exact idle_step rfl
  | unlockExpired =>
    cases p with
    | legacy => exact idle_step pool_afterUnlock
    | asset b => exact idle_step rfl
  | claimRewards _ _ _ _ hpaid =>
    cases p with
    | legacy =>
      subst hpaid
      refine touch_step pool_afterClaim ?_ (claimable_nonneg hs _ _ _) (claimable_le hs _ _ _)
      rw [add_zero]
      exact hbal _ _
    | asset b => exact idle_step rfl
  | distributeRewards hmin _ _ _ _ _ _ hd =>
    cases p with
    | legacy =>
      refine distribute_step pool_afterDistribution hd.total_pos (effective_nonneg ?_)
      exact le_trans (by decide) hmin
    | asset b => exact idle_step rfl
  | addAsset => exact idle_step (pool_afterAddAsset hs _ p)
  | @depositAsset u a amount _ _ h0 =>
    by_cases hp : p = .asset a
    · subst hp
      rw [callMove, if_pos rfl]
      refine touch_step pool_afterAssetMove ?_ le_rfl (hpend _ _)
      exact add_nonneg (hbal _ _) h0.le
    · rw [callMove, if_neg hp]
      cases p with
      | legacy => exact idle_step rfl
      | asset b => exact idle_step (pool_afterAssetMove_other fun hb => hp (hb ▸ rfl))
  | @withdrawAsset u a amount _ _ _ _ _ _ hle =>
    by_cases hp : p = .asset a
    · subst hp
      rw [callMove, if_pos rfl]
      refine touch_step pool_afterAssetMove ?_ le_rfl (hpend _ _)
      omega
    · rw [callMove, if_neg hp]
      cases p with
      | legacy => exact idle_step rfl
      | asset b => exact idle_step (pool_afterAssetMove_other fun hb => hp (hb ▸ rfl))
  | @distributeRewardsForAsset _ a _ amount _ hmin _ _ _ _ _ hd =>
    by_cases hp : p = .asset a
    · subst hp
      rw [callMove, if_pos rfl]
      refine distribute_step pool_afterAssetDistribution hd.total_pos ?_
      exact le_trans (by decide) hmin
    · rw [callMove, if_neg hp]
      cases p with
      | legacy => exact idle_step rfl
      | asset b => exact idle_step (pool_afterAssetDistribution_other fun hb => hp (hb ▸ rfl))
  | @claimRewardsForAsset u a paid _ _ _ _ _ _ hpaid =>
    by_cases hp : p = .asset a
    · subst hp
      subst hpaid
      rw [callMove, if_pos rfl]
      refine touch_step pool_afterAssetClaim ?_ (claimable_nonneg hs _ _ _) (claimable_le hs _ _ _)
      rw [add_zero]
      exact hbal _ _
    · rw [callMove, if_neg hp]
      cases p with
      | legacy => exact idle_step rfl
      | asset b => exact idle_step (pool_afterAssetClaim_other fun hb => hp (hb ▸ rfl))
  | proposeNewAdmin | acceptAdmin | pauseContract | unpauseContract | upgrade | view =>
    exact idle_step (by cases p <;> rfl)

/-! ## Calls keep the vault well formed -/

theorem sound_of_pools (hs : Sound s) (hp : ∀ p, pool t p = pool s p)
    (hliq : ∀ v, 0 ≤ liquid t v) (hlock : ∀ v, ∀ l ∈ locks t v, 0 < l.amount)
    (hsup : ∀ a, supported t a = false → supported s a = false) : Sound t where
  liquid_nonneg := hliq
  lock_pos := hlock
  good p := hp p ▸ hs.good p
  total_le p := (congrArg Pool.total (hp p)).trans_le (hs.total_le p)
  index_le p := (congrArg Pool.index (hp p)).trans_le (hs.index_le p)
  accrued_le p v := (congrArg (fun P => (P.account v).accrued) (hp p)).trans_le (hs.accrued_le p v)
  unlisted a ha := by
    obtain ⟨ht, hi⟩ := hs.unlisted a (hsup a ha)
    exact ⟨(congrArg Pool.total (hp (.asset a))).trans ht,
      (congrArg Pool.index (hp (.asset a))).trans hi⟩

/-- A pool that calls can reach. -/
def Listed (s : Storage) : PoolId → Prop
  | .legacy => True
  | .asset a => supported s a = true

/-- One pool makes a step within the machine's bounds and the others rest. -/
theorem sound_of_step {e : Move Address} (hs : Sound s)
    (hstep : Step REWARD_INDEX_SCALE (pool s p) e (pool t p))
    (hother : ∀ q, q ≠ p → pool t q = pool s q)
    (hlisted : Listed s p)
    (htot : poolTotal t p ≤ i128Max) (hidx : poolIndex t p ≤ i128Max)
    (hacc : ∀ v, (position t p v).accruedRewards ≤ i128Max)
    (hliq : ∀ v, 0 ≤ liquid t v) (hlock : ∀ v, ∀ l ∈ locks t v, 0 < l.amount)
    (hsup : t.supportedAssets = s.supportedAssets) : Sound t where
  liquid_nonneg := hliq
  lock_pos := hlock
  good q := by
    by_cases hq : q = p
    · subst hq
      exact hstep.good scale_pos (hs.good q)
    · exact hother q hq ▸ hs.good q
  total_le q := by
    by_cases hq : q = p
    · subst hq
      exact htot
    · exact (congrArg Pool.total (hother q hq)).trans_le (hs.total_le q)
  index_le q := by
    by_cases hq : q = p
    · subst hq
      exact hidx
    · exact (congrArg Pool.index (hother q hq)).trans_le (hs.index_le q)
  accrued_le q v := by
    by_cases hq : q = p
    · subst hq
      exact hacc v
    · exact (congrArg (fun P => (P.account v).accrued) (hother q hq)).trans_le (hs.accrued_le q v)
  unlisted a ha := by
    have hsa : supported s a = false := by rw [← ha, supported, supported, hsup]
    have hq : PoolId.asset a ≠ p := by
      intro h
      subst h
      rw [show supported s a = true from hlisted] at hsa
      cases hsa
    obtain ⟨ht, hi⟩ := hs.unlisted a hsa
    exact ⟨(congrArg Pool.total (hother _ hq)).trans ht,
      (congrArg Pool.index (hother _ hq)).trans hi⟩

/-- A settlement that fits leaves accrued rewards that fit. -/
theorem accrued_le_of_touch (hs : Sound s) (hfit : AccrualFits s p u) (h0 : 0 ≤ paid)
    (h : pool t p = (pool s p).touch REWARD_INDEX_SCALE u delta paid now) (v : Address) :
    (position t p v).accruedRewards ≤ i128Max := by
  have hv : (position t p v).accruedRewards =
      (((pool s p).touch REWARD_INDEX_SCALE u delta paid now).account v).accrued :=
    congrArg (fun P => (P.account v).accrued) h
  rw [hv]
  by_cases hvu : v = u
  · subst hvu
    rw [touch_account_self]
    exact (sub_le_self _ h0).trans hfit.pending
  · rw [touch_account_other hvu]
    exact hs.accrued_le p v

theorem sound_of_touch (hs : Sound s) (hfit : AccrualFits s p u)
    (h : pool t p = (pool s p).touch REWARD_INDEX_SCALE u delta paid now)
    (hb : 0 ≤ (position s p u).balance + delta) (h0 : 0 ≤ paid) (hp : paid ≤ pending s p u)
    (htot : poolTotal s p + delta ≤ i128Max)
    (hother : ∀ q, q ≠ p → pool t q = pool s q)
    (hlisted : Listed s p)
    (hliq : ∀ v, 0 ≤ liquid t v) (hlock : ∀ v, ∀ l ∈ locks t v, 0 < l.amount)
    (hsup : t.supportedAssets = s.supportedAssets) : Sound t := by
  refine sound_of_step hs (touch_step h hb h0 hp) hother hlisted ?_ ?_
    (accrued_le_of_touch hs hfit h0 h) hliq hlock hsup
  · exact (congrArg Pool.total h).trans_le htot
  · exact (congrArg Pool.index h).trans_le (hs.index_le p)

theorem sound_of_distribute (hs : Sound s) (hd : Distributes s p amount) (h0 : 0 ≤ amount)
    (h : pool t p = (pool s p).distribute REWARD_INDEX_SCALE amount)
    (hother : ∀ q, q ≠ p → pool t q = pool s q)
    (hlisted : Listed s p)
    (hliq : ∀ v, 0 ≤ liquid t v) (hlock : ∀ v, ∀ l ∈ locks t v, 0 < l.amount)
    (hsup : t.supportedAssets = s.supportedAssets) : Sound t := by
  refine sound_of_step hs (distribute_step h hd.total_pos h0) hother hlisted ?_ ?_ ?_ hliq hlock hsup
  · exact (congrArg Pool.total h).trans_le (hs.total_le p)
  · exact (congrArg Pool.index h).trans_le hd.fits
  · intro v
    exact (congrArg (fun P => (P.account v).accrued) h).trans_le (hs.accrued_le p v)

theorem other_of_legacy (h : ∀ b, pool t (.asset b) = pool s (.asset b)) (q : PoolId)
    (hq : q ≠ .legacy) : pool t q = pool s q := by
  cases q with
  | legacy => exact absurd rfl hq
  | asset b => exact h b

theorem other_of_asset {a : Address} (hl : pool t .legacy = pool s .legacy)
    (h : ∀ b, b ≠ a → pool t (.asset b) = pool s (.asset b)) (q : PoolId)
    (hq : q ≠ .asset a) : pool t q = pool s q := by
  cases q with
  | legacy => exact hl
  | asset b => exact h b fun hb => hq (hb ▸ rfl)

theorem sound_afterUnlock (hs : Sound s) (now limit : Nat) (u : Address) :
    Sound (afterUnlock now limit u s) := by
  refine sound_of_pools hs ?_ ?_ ?_ fun a ha => ha
  · intro p
    cases p with
    | legacy => exact pool_afterUnlock
    | asset b => rfl
  · intro v
    rw [liquid_afterUnlock]
    split
    · exact add_nonneg (hs.liquid_nonneg u) (hs.released_nonneg _ _)
    · exact hs.liquid_nonneg v
  · intro v l hl
    rw [locks_afterUnlock] at hl
    split at hl
    · exact hs.lock_pos u l (mem_of_mem_kept hl)
    · exact hs.lock_pos v l hl

theorem sound_of_effect (hs : Sound w.storage) (h : Effect D env w call value w') :
    Sound w'.storage := by
  have hliq := hs.liquid_nonneg
  have hlock := hs.lock_pos
  have hbal := fun p u => hs.balance_nonneg (p := p) (u := u)
  have hpend := fun p u => hs.pending_nonneg (p := p) (u := u)
  cases h with
  | proposeNewAdmin | acceptAdmin | pauseContract | unpauseContract | upgrade | view =>
    exact sound_of_pools hs (fun p => by cases p <;> rfl) hliq hlock fun _ h => h
  | @deposit u _ amount _ _ h0 _ _ _ hfit htot =>
    refine sound_of_touch hs hfit pool_afterDeposit (add_nonneg (hbal _ _) h0.le) le_rfl (hpend _ _)
      htot (other_of_legacy fun _ => rfl) trivial ?_ hlock rfl
    intro v
    rw [moved, liquid_afterDeposit]
    split
    · exact add_nonneg (hliq u) h0.le
    · exact hliq v
  | @withdraw u _ amount _ _ h0 _ _ hfit hle _ =>
    have hw := withdrawable_le_balance hs w.timestamp u
    have htot := hs.total_le .legacy
    refine sound_of_touch hs hfit pool_afterWithdraw (by omega) le_rfl (hpend _ _) (by omega)
      (other_of_legacy fun _ => rfl) trivial ?_ ?_ rfl
    · intro v
      rw [moved, liquid_afterWithdraw]
      split
      · omega
      · exact hliq v
    · intro v l hl
      rw [moved, locks_afterWithdraw] at hl
      split at hl
      · exact hlock u l (mem_of_mem_kept hl)
      · exact hlock v l hl
  | @lock u amount duration _ h0 _ _ _ hfit hle =>
    refine sound_of_touch hs hfit pool_afterLock (by rw [add_zero]; exact hbal _ _) le_rfl
      (hpend _ _) (by rw [add_zero]; exact hs.total_le _) (other_of_legacy fun _ => rfl) trivial ?_ ?_
      rfl
    · intro v
      rw [moved, liquid_afterLock]
      split
      · omega
      · exact hliq v
    · intro v l hl
      rw [moved, locks_afterLock] at hl
      split at hl
      · rcases List.mem_append.mp hl with hl | hl
        · exact hlock u l hl
        · rw [List.mem_singleton.mp hl]
          exact h0
      · exact hlock v l hl
  | unlockExpired => exact sound_afterUnlock hs _ _ _
  | claimRewards _ _ hfit _ hpaid =>
    subst hpaid
    exact sound_of_touch hs hfit pool_afterClaim (by rw [add_zero]; exact hbal _ _)
      (claimable_nonneg hs _ _ _) (claimable_le hs _ _ _) (by rw [add_zero]; exact hs.total_le _)
      (other_of_legacy fun _ => rfl) trivial hliq hlock rfl
  | distributeRewards hmin _ _ _ _ _ _ hd =>
    exact sound_of_distribute hs hd (effective_nonneg (le_trans (by decide) hmin))
      pool_afterDistribution (other_of_legacy fun _ => rfl) trivial hliq hlock rfl
  | @addAsset _ a =>
    exact sound_of_pools hs (pool_afterAddAsset hs a) hliq hlock fun _ =>
      supported_of_afterAddAsset
  | @depositAsset u a amount _ _ h0 _ hsup _ hfit htot =>
    exact sound_of_touch hs hfit pool_afterAssetMove (add_nonneg (hbal _ _) h0.le) le_rfl
      (hpend _ _) htot (other_of_asset rfl fun _ => pool_afterAssetMove_other) hsup hliq hlock rfl
  | @withdrawAsset u a amount _ _ h0 _ hsup hfit hle _ =>
    have htot := hs.total_le (.asset a)
    exact sound_of_touch hs hfit pool_afterAssetMove (by omega) le_rfl (hpend _ _) (by omega)
      (other_of_asset rfl fun _ => pool_afterAssetMove_other) hsup hliq hlock rfl
  | @distributeRewardsForAsset _ a _ amount _ hmin hsup _ _ _ _ hd =>
    exact sound_of_distribute hs hd (le_trans (by decide) hmin) pool_afterAssetDistribution
      (other_of_asset rfl fun _ => pool_afterAssetDistribution_other) hsup hliq hlock rfl
  | @claimRewardsForAsset u a _ _ _ _ hsup hfit _ hpaid =>
    subst hpaid
    exact sound_of_touch hs hfit pool_afterAssetClaim (by rw [add_zero]; exact hbal _ _)
      (claimable_nonneg hs _ _ _) (claimable_le hs _ _ _) (by rw [add_zero]; exact hs.total_le _)
      (other_of_asset rfl fun _ => pool_afterAssetClaim_other) hsup hliq hlock rfl

/-- What `initialize` fixes for good, and the guard. -/
structure Config where
  initialized : Option Bool
  reentrancyGuard : Option Bool
  depositToken : Option Address
  rewardToken : Option Address
  vestingPeriod : Option Nat
  targetDeposits : Option Int
  utilizationMultipliers : Option (List MultiplierPoint)

def configOf (s : Storage) : Config where
  initialized := s.initialized
  reentrancyGuard := s.reentrancyGuard
  depositToken := s.depositToken
  rewardToken := s.rewardToken
  vestingPeriod := s.vestingPeriod
  targetDeposits := s.targetDeposits
  utilizationMultipliers := s.utilizationMultipliers

theorem configOf_of_effect (h : Effect D env w call value w') :
    configOf w'.storage = configOf w.storage := by
  cases h with
  | _ => rfl

theorem admin_of_effect (h : Effect D env w call value w') :
    w'.storage.admin = w.storage.admin ∨
      ∃ newAdmin, call = .acceptAdmin newAdmin ∧ w'.storage.admin = some newAdmin := by
  cases h with
  | acceptAdmin => exact Or.inr ⟨_, rfl, rfl⟩
  | _ => exact Or.inl rfl

theorem exists_stateOf (hi : s.initialized = some true) (ha : s.admin ≠ none)
    (hd : s.depositToken ≠ none) (hr : s.rewardToken ≠ none) : ∃ st, StateOf s st := by
  obtain ⟨a, ha⟩ := Option.ne_none_iff_exists'.mp ha
  obtain ⟨d, hd⟩ := Option.ne_none_iff_exists'.mp hd
  obtain ⟨r, hr⟩ := Option.ne_none_iff_exists'.mp hr
  exact ⟨⟨a, d, r, _, _, _, _, _⟩, hi, ha, hd, hr, rfl, rfl, rfl, rfl, rfl⟩

theorem ready_of_effect (hr : Ready w.storage) (h : Effect D env w call value w') :
    Ready w'.storage := by
  obtain ⟨hs, ⟨st, hst⟩, hg⟩ := hr
  have hc := configOf_of_effect h
  refine ⟨sound_of_effect hs h, exists_stateOf ?_ ?_ ?_ ?_, ?_⟩
  · exact (congrArg Config.initialized hc).trans hst.initialized
  · rcases admin_of_effect h with ha | ⟨_, _, ha⟩
    · rw [ha, hst.admin]
      exact Option.some_ne_none _
    · rw [ha]
      exact Option.some_ne_none _
  · rw [show w'.storage.depositToken = _ from congrArg Config.depositToken hc, configOf,
      hst.depositToken]
    exact Option.some_ne_none _
  · rw [show w'.storage.rewardToken = _ from congrArg Config.rewardToken hc, configOf,
      hst.rewardToken]
    exact Option.some_ne_none _
  · exact (congrArg Config.reentrancyGuard hc).trans hg

/-! ## The first state -/

/-- What `initialize` leaves in a fresh storage. -/
def initialStorage (admin depositToken rewardToken : Address) (vestingPeriod : Nat)
    (targetDeposits : Int) (multipliers : List MultiplierPoint) : Storage :=
  { Storage.fresh with
    initialized := some true
    admin := some admin
    depositToken := some depositToken
    rewardToken := some rewardToken
    vestingPeriod := some vestingPeriod
    totalDeposits := some 0
    rewardIndex := some 0
    targetDeposits := some targetDeposits
    utilizationMultipliers := some multipliers
    reentrancyGuard := some false
    isPaused := some false }

theorem initializeVault_storage {admin depositToken rewardToken : Address} {period : Nat}
    {target : Int} {points : List MultiplierPoint} {x : Unit} (hfresh : w.storage = .fresh)
    (h : Returns (initializeVault admin depositToken rewardToken period target points) env w x w') :
    depositToken ≠ rewardToken ∧
      w'.storage = initialStorage admin depositToken rewardToken period target points := by
  simp only [initializeVault, isInitialized, initializeState, returns_bind, onStorage_returns,
    requireNotPaused_returns, and_assoc, exists_and_left, ↓existsAndEq, exists_const, returns_gets,
    returns_failIf, returns_lift, requireAuth_returns, returns_modify, emit_returns, true_and] at h
  obtain ⟨_, _, _, hdistinct, _, _, _, rfl⟩ := h
  refine ⟨?_, ?_⟩
  · intro heq
    simp [validateDistinctTokenAddresses, heq] at hdistinct
  · simp only [hfresh]
    rfl

theorem started_storage (h : Started D w) : ∃ admin depositToken rewardToken vestingPeriod
    targetDeposits multipliers, depositToken ≠ rewardToken ∧
      w.storage = initialStorage admin depositToken rewardToken vestingPeriod targetDeposits
        multipliers := by
  obtain ⟨_, env, admin, depositToken, rewardToken, period, target, points, _, hfresh, _, h⟩ := h
  exact ⟨_, _, _, _, _, _, initializeVault_storage hfresh (returns_then.mp h).2⟩

theorem pool_of_started (h : Started D w) (p : PoolId) : pool w.storage p = emptyPool := by
  obtain ⟨_, _, _, _, _, _, _, hw⟩ := started_storage h
  rw [hw]
  cases p <;> rfl

theorem ready_of_started (h : Started D w) : Ready w.storage := by
  have hpool := pool_of_started h
  obtain ⟨_, _, _, _, _, _, _, hw⟩ := started_storage h
  have hmax : (0 : Int) ≤ i128Max := by decide
  refine ⟨?_, ?_, by rw [hw]; rfl⟩
  · refine
      { liquid_nonneg := fun u => ?_
        lock_pos := fun u l hl => ?_
        good := fun p => hpool p ▸ fresh_emptyPool.good
        total_le := fun p => (congrArg Pool.total (hpool p)).trans_le hmax
        index_le := fun p => (congrArg Pool.index (hpool p)).trans_le hmax
        accrued_le := fun p u => (congrArg (fun P => (P.account u).accrued) (hpool p)).trans_le hmax
        unlisted := fun a _ => ⟨congrArg Pool.total (hpool (.asset a)),
          congrArg Pool.index (hpool (.asset a))⟩ }
    · rw [hw]
      exact le_rfl
    · rw [hw] at hl
      cases hl
  · rw [hw]
    exact exists_stateOf rfl (Option.some_ne_none _) (Option.some_ne_none _) (Option.some_ne_none _)

end Steps

/-! ## Runs -/

section Runs
variable {D : Deployment τ} {w₀ w w' : World τ} {h : List (Entry τ)} {e : Entry τ}

/-- A step of the chain keeps the vault between calls. -/
theorem ready_of_step (hr : Ready w.storage) (hs : ChainStep D w e w') : Ready w'.storage := by
  cases stepEffect_of_step hr hs with
  | call _ heff => exact ready_of_effect hr heff
  | failed => exact hr
  | outside => exact hr

theorem ready_of_run (h0 : Started D w₀) (hr : ChainRun D w₀ h w) : Ready w.storage :=
  hr.invariant (I := fun w => Ready w.storage) (ready_of_started h0) fun _ _ _ hi hs =>
    ready_of_step hi hs

theorem ready_of_reachable (hr : Reachable D w) : Ready w.storage := by
  obtain ⟨w₀, h, h0, hrun⟩ := hr
  exact ready_of_run h0 hrun

theorem configOf_of_step (hr : Ready w.storage) (hs : ChainStep D w e w') :
    configOf w'.storage = configOf w.storage := by
  cases stepEffect_of_step hr hs with
  | call _ heff => exact configOf_of_effect heff
  | failed => rfl
  | outside => rfl

/-- The configuration of the start is kept for good. -/
theorem configOf_of_run (h0 : Started D w₀) (hr : ChainRun D w₀ h w) :
    configOf w.storage = configOf w₀.storage := by
  induction hr with
  | nil => rfl
  | snoc hr hs ih => exact (configOf_of_step (ready_of_run h0 hr) hs).trans ih

/-- **One step of the chain is one step of every pool.** -/
theorem pool_step (hr : Ready w.storage) (hs : ChainStep D w e w') (p : PoolId) :
    Step REWARD_INDEX_SCALE (pool w.storage p) (move p e) (pool w'.storage p) := by
  cases stepEffect_of_step hr hs with
  | call _ heff => exact effect_step hr.sound heff p
  | failed => exact .idle
  | outside => exact .idle

/-- Every pool of the vault makes a run of the pool machine. -/
theorem pool_run (h0 : Started D w₀) (hr : ChainRun D w₀ h w) (p : PoolId) :
    Run (Step REWARD_INDEX_SCALE) (pool w₀.storage p) (h.map (move p)) (pool w.storage p) := by
  induction hr with
  | nil => exact .nil
  | snoc hr hs ih => exact .snoc ih (pool_step (ready_of_run h0 hr) hs p)

/-- The books of every pool are kept along every run of the vault. -/
theorem ledger_of_chainRun (h0 : Started D w₀) (hr : ChainRun D w₀ h w) (p : PoolId) :
    Ledger REWARD_INDEX_SCALE (h.map (move p)) (pool w.storage p) := by
  have hrun := pool_run h0 hr p
  rw [pool_of_started h0 p] at hrun
  exact ledger_of_run scale_pos fresh_emptyPool hrun

end Runs

end Axionvera.Vault.Refinement

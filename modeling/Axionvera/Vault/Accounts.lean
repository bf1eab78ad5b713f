import Axionvera.Lib.RewardPool
import Axionvera.Vault.Storage

/-! # What the storage means

The stored keys read as reward pools: the legacy pool, whose balances are split
into a liquid part and a list of locks, and one pool for each asset. Every
storage operation has a pure counterpart here (`afterDeposit`, `afterLock`, ..)
that says what it leaves behind, and a lemma that says which step of the pool
machine that is. That the code computes these is proved in `StorageSpec`. -/
namespace Axionvera.Vault.Accounts
open Axionvera.Lib.KeyValue Axionvera.Lib.MachineInt Axionvera.Lib.RewardPool
open Axionvera.Vault.Errors Axionvera.Vault.Types Axionvera.Vault.Storage

/-! ## Reading -/

inductive PoolId where
  | legacy
  | asset (a : Address)
  deriving DecidableEq

def liquid (s : Storage) (u : Address) : Int := s.userLiquidBalance.getD u 0

def locks (s : Storage) (u : Address) : List Lock := s.userLocks.getD u []

def lockSum (ls : List Lock) : Int := (ls.map Lock.amount).sum

theorem lockSum_append (ks ls : List Lock) : lockSum (ks ++ ls) = lockSum ks + lockSum ls := by
  simp [lockSum]

def locked (s : Storage) (u : Address) : Int := lockSum (locks s u)

def supported (s : Storage) (a : Address) : Bool := (s.supportedAssets.getD .empty).contains a

def poolIndex (s : Storage) : PoolId → Int
  | .legacy => s.rewardIndex.getD 0
  | .asset a => s.assetRewardIndex.getD a 0

def poolTotal (s : Storage) : PoolId → Int
  | .legacy => s.totalDeposits.getD 0
  | .asset a => s.assetTotalDeposits.getD a 0

/-- What a user holds in a pool, locks included. -/
def position (s : Storage) : PoolId → Address → UserPosition
  | .legacy, u => {
      balance := liquid s u + locked s u
      rewardIndex := s.userRewardIndex.getD u 0
      accruedRewards := s.userAccruedRewards.getD u 0
      lastRewardTimestamp := s.userLastRewardTimestamp.getD u 0 }
  | .asset a, u => {
      balance := s.userAssetBalance.getD (u, a) 0
      rewardIndex := s.userAssetRewardIndex.getD (u, a) 0
      accruedRewards := s.userAssetAccruedRewards.getD (u, a) 0
      lastRewardTimestamp := s.userAssetLastRewardTimestamp.getD (u, a) 0 }

def toAccount (q : UserPosition) : Account where
  balance := q.balance
  index := q.rewardIndex
  accrued := q.accruedRewards
  since := q.lastRewardTimestamp

theorem toAccount_injective {q r : UserPosition} (h : toAccount q = toAccount r) : q = r := by
  cases q
  cases r
  simpa [toAccount] using h

/-- A pool of the vault, as the reward-pool machine sees it. -/
def pool (s : Storage) (p : PoolId) : Pool Address where
  index := poolIndex s p
  total := poolTotal s p
  account u := toAccount (position s p u)

/-- Stored accrued rewards plus what the index has moved since. -/
def pending (s : Storage) (p : PoolId) (u : Address) : Int := (pool s p).pending REWARD_INDEX_SCALE u

/-- A position brought up to a pool's index. -/
def settle (now : Nat) (index : Int) (q : UserPosition) : UserPosition :=
  let gain := q.balance * (index - q.rewardIndex) / REWARD_INDEX_SCALE
  { q with
    rewardIndex := index
    accruedRewards := q.accruedRewards + gain
    lastRewardTimestamp := if 0 < gain then now else q.lastRewardTimestamp }

def settled (now : Nat) (s : Storage) (p : PoolId) (u : Address) : UserPosition :=
  settle now (poolIndex s p) (position s p u)

/-- The settlement of `u` stays inside the machine's integers. -/
structure AccrualFits (s : Storage) (p : PoolId) (u : Address) : Prop where
  product : (position s p u).balance * (poolIndex s p - (position s p u).rewardIndex) ≤ i128Max
  pending : pending s p u ≤ i128Max

theorem settled_accrued (now : Nat) (s : Storage) (p : PoolId) (u : Address) :
    (settled now s p u).accruedRewards = pending s p u := rfl

theorem settled_balance (now : Nat) (s : Storage) (p : PoolId) (u : Address) :
    (settled now s p u).balance = (position s p u).balance := rfl

theorem scale_pos : 0 < REWARD_INDEX_SCALE := by decide

/-! ## Vesting -/

/-- The part of a settled position that has vested. -/
def vested (now period : Nat) (q : UserPosition) : Int :=
  if period = 0 then q.accruedRewards
  else if q.lastRewardTimestamp = 0 then 0
  else if period ≤ now - q.lastRewardTimestamp then q.accruedRewards
  else q.accruedRewards * (now - q.lastRewardTimestamp : Nat) / period

theorem vested_eq (now period : Nat) (q : UserPosition) :
    vested now period q = (toAccount q).vested period now := rfl

theorem vested_nonneg (now period : Nat) {q : UserPosition} (h : 0 ≤ q.accruedRewards) :
    0 ≤ vested now period q := by
  rw [vested_eq]
  exact Account.vested_nonneg h period now

theorem vested_le (now period : Nat) {q : UserPosition} (h : 0 ≤ q.accruedRewards) :
    vested now period q ≤ q.accruedRewards := by
  rw [vested_eq]
  exact Account.vested_le h period now

/-- The product that vesting computes stays below `2 ^ 128`. -/
def VestingFits (now period : Nat) (q : UserPosition) : Prop :=
  0 < period → q.lastRewardTimestamp ≠ 0 → now - q.lastRewardTimestamp < period →
    q.accruedRewards * (now - q.lastRewardTimestamp : Nat) < u128Size

def vestingPeriod (s : Storage) : Nat := s.vestingPeriod.getD 0

/-- What a claim made now pays. -/
def claimable (now : Nat) (s : Storage) (p : PoolId) (u : Address) : Int :=
  vested now (vestingPeriod s) (settled now s p u)

theorem claimable_eq (now : Nat) (s : Storage) (p : PoolId) (u : Address) :
    claimable now s p u = (pool s p).vested REWARD_INDEX_SCALE (vestingPeriod s) now u := rfl

/-! ## Locks -/

/-- The locks one bounded pass over the list sets free: the first `limit` that
have expired. -/
def released (now : Nat) : Nat → List Lock → List Lock
  | _, [] => []
  | limit, lock :: rest =>
    if lock.unlockTimestamp ≤ now ∧ 0 < limit then lock :: released now (limit - 1) rest
    else released now limit rest

/-- The locks it leaves, in their order. -/
def kept (now : Nat) : Nat → List Lock → List Lock
  | _, [] => []
  | limit, lock :: rest =>
    if lock.unlockTimestamp ≤ now ∧ 0 < limit then kept now (limit - 1) rest
    else lock :: kept now limit rest

theorem released_perm_kept (now limit : Nat) (ls : List Lock) :
    (released now limit ls ++ kept now limit ls).Perm ls := by
  induction ls generalizing limit with
  | nil => exact List.Perm.refl _
  | cons l rest ih =>
    unfold released kept
    split
    · exact (ih (limit - 1)).cons l
    · exact List.perm_middle.trans ((ih limit).cons l)

theorem released_expired (now limit : Nat) {ls : List Lock} {l : Lock}
    (h : l ∈ released now limit ls) : l.unlockTimestamp ≤ now := by
  induction ls generalizing limit with
  | nil => cases h
  | cons k rest ih =>
    unfold released at h
    split at h
    · rename_i hk
      rcases List.mem_cons.mp h with rfl | h
      · exact hk.1
      · exact ih _ h
    · exact ih _ h

theorem mem_of_mem_released {now limit : Nat} {ls : List Lock} {l : Lock}
    (h : l ∈ released now limit ls) : l ∈ ls :=
  (released_perm_kept now limit ls).subset (List.mem_append_left _ h)

theorem mem_of_mem_kept {now limit : Nat} {ls : List Lock} {l : Lock}
    (h : l ∈ kept now limit ls) : l ∈ ls :=
  (released_perm_kept now limit ls).subset (List.mem_append_right _ h)

theorem released_zero (now : Nat) (ls : List Lock) : released now 0 ls = [] := by
  induction ls with
  | nil => rfl
  | cons l rest ih => simpa [released] using ih

theorem released_eq_take (now limit : Nat) (ls : List Lock) :
    released now limit ls = (ls.filter fun l => decide (l.unlockTimestamp ≤ now)).take limit := by
  induction ls generalizing limit with
  | nil => simp [released]
  | cons l rest ih =>
    by_cases hl : l.unlockTimestamp ≤ now
    · cases limit with
      | zero => simp [released_zero]
      | succ n => simp [released, hl, ih]
    · simp [released, hl, ih]

theorem kept_of_released_nil {now limit : Nat} {ls : List Lock} (h : released now limit ls = []) :
    kept now limit ls = ls := by
  induction ls generalizing limit with
  | nil => rfl
  | cons l rest ih =>
    unfold released at h
    unfold kept
    split at h
    · cases h
    · rename_i hl
      rw [if_neg hl, ih h]

theorem lockSum_released_add_kept (now limit : Nat) (ls : List Lock) :
    lockSum (released now limit ls) + lockSum (kept now limit ls) = lockSum ls := by
  have h := ((released_perm_kept now limit ls).map Lock.amount).sum_eq
  simpa [lockSum] using h

theorem lockSum_nonneg {ls : List Lock} (h : ∀ l ∈ ls, 0 < l.amount) : 0 ≤ lockSum ls :=
  List.sum_nonneg fun x hx => by
    obtain ⟨l, hl, rfl⟩ := List.mem_map.mp hx
    exact (h l hl).le

/-- Locks have positive amounts, so an empty release is one that adds up to
nothing. -/
theorem lockSum_pos {ls : List Lock} (h : ∀ l ∈ ls, 0 < l.amount) (hne : ls ≠ []) :
    0 < lockSum ls := by
  cases ls with
  | nil => exact absurd rfl hne
  | cons l rest =>
    have hl := h l (by simp)
    have hrest := lockSum_nonneg fun k hk => h k (List.mem_cons_of_mem l hk)
    simp only [lockSum, List.map_cons, List.sum_cons] at hrest ⊢
    omega

/-! ## Writing -/

/-- The reward part of a legacy position; the balance is stored elsewhere. -/
def putPosition (u : Address) (q : UserPosition) (s : Storage) : Storage :=
  { s with
    userRewardIndex := s.userRewardIndex.put u q.rewardIndex
    userAccruedRewards := s.userAccruedRewards.put u q.accruedRewards
    userLastRewardTimestamp := s.userLastRewardTimestamp.set u q.lastRewardTimestamp }

def putAssetPosition (u a : Address) (q : UserPosition) (s : Storage) : Storage :=
  { s with
    userAssetBalance := s.userAssetBalance.put (u, a) q.balance
    userAssetRewardIndex := s.userAssetRewardIndex.put (u, a) q.rewardIndex
    userAssetAccruedRewards := s.userAssetAccruedRewards.put (u, a) q.accruedRewards
    userAssetLastRewardTimestamp :=
      s.userAssetLastRewardTimestamp.set (u, a) q.lastRewardTimestamp }

def afterDeposit (now : Nat) (u : Address) (amount : Int) (s : Storage) : Storage :=
  putPosition u (settled now s .legacy u) { s with
    userLiquidBalance := s.userLiquidBalance.put u (liquid s u + amount)
    totalDeposits := some (poolTotal s .legacy + amount) }

/-- Nothing is written when nothing is set free. -/
def afterUnlock (now limit : Nat) (u : Address) (s : Storage) : Storage :=
  { s with
    userLiquidBalance := if released now limit (locks s u) = [] then s.userLiquidBalance
      else s.userLiquidBalance.put u (liquid s u + lockSum (released now limit (locks s u)))
    userLocks := if released now limit (locks s u) = [] then s.userLocks
      else s.userLocks.set u (kept now limit (locks s u)) }

/-- What a withdrawal can take: it sets free a few expired locks first. -/
def withdrawable (now : Nat) (s : Storage) (u : Address) : Int :=
  liquid s u + lockSum (released now WITHDRAW_UNLOCK_LIMIT (locks s u))

def afterWithdraw (now : Nat) (u : Address) (amount : Int) (s : Storage) : Storage :=
  let t := afterUnlock now WITHDRAW_UNLOCK_LIMIT u s
  putPosition u (settled now s .legacy u) { t with
    userLiquidBalance := t.userLiquidBalance.put u (withdrawable now s u - amount)
    totalDeposits := some (poolTotal s .legacy - amount) }

def newLock (now : Nat) (amount : Int) (duration : Nat) : Lock :=
  { amount := amount, unlockTimestamp := now + duration, rewardMultiplier := 0 }

def afterLock (now : Nat) (u : Address) (amount : Int) (duration : Nat) (s : Storage) : Storage :=
  { putPosition u (settled now s .legacy u) s with
    userLiquidBalance := s.userLiquidBalance.put u (liquid s u - amount)
    userLocks := s.userLocks.set u (locks s u ++ [newLock now amount duration]) }

def claimed (now : Nat) (s : Storage) (p : PoolId) (u : Address) (paid : Int) : UserPosition :=
  { settled now s p u with accruedRewards := pending s p u - paid }

def afterClaim (now : Nat) (u : Address) (paid : Int) (s : Storage) : Storage :=
  putPosition u (claimed now s .legacy u paid) s

/-- A deposit or a withdrawal of an asset. -/
def afterAssetMove (now : Nat) (u a : Address) (delta : Int) (s : Storage) : Storage :=
  putAssetPosition u a
    { settled now s (.asset a) u with balance := (position s (.asset a) u).balance + delta }
    { s with assetTotalDeposits := s.assetTotalDeposits.set a (poolTotal s (.asset a) + delta) }

def afterAssetClaim (now : Nat) (u a : Address) (paid : Int) (s : Storage) : Storage :=
  putAssetPosition u a (claimed now s (.asset a) u paid) s

/-- The multiplier a legacy distribution applies, in basis points. -/
def multiplier (s : Storage) : Except VaultError UInt32 :=
  calculateUtilizationMultiplier (poolTotal s .legacy) (s.targetDeposits.getD 0)
    (s.utilizationMultipliers.getD [])

def multiplierBps (s : Storage) : Nat :=
  match multiplier s with
  | .ok m => m.toNat
  | .error _ => 0

/-- What a legacy distribution of `amount` tokens is worth after the multiplier. -/
def effective (s : Storage) (amount : Int) : Int := amount * multiplierBps s / 10000

/-- What a distribution adds to the index of a pool. -/
def increment (s : Storage) (p : PoolId) (amount : Int) : Int :=
  amount * REWARD_INDEX_SCALE / poolTotal s p

/-- A pool can take a distribution: somebody has a stake, the arithmetic fits
and the index moves. -/
structure Distributes (s : Storage) (p : PoolId) (amount : Int) : Prop where
  total_pos : 0 < poolTotal s p
  product : amount * REWARD_INDEX_SCALE ≤ i128Max
  raises : 0 < increment s p amount
  fits : poolIndex s p + increment s p amount ≤ i128Max

def afterDistribution (amount : Int) (s : Storage) : Storage :=
  { s with rewardIndex := some (poolIndex s .legacy + increment s .legacy amount) }

def afterAssetDistribution (a : Address) (amount : Int) (s : Storage) : Storage :=
  { s with assetRewardIndex :=
      s.assetRewardIndex.set a (poolIndex s (.asset a) + increment s (.asset a) amount) }

/-- Nothing is written when the asset is listed already. -/
def afterAddAsset (a : Address) (s : Storage) : Storage :=
  { s with
    supportedAssets := if supported s a = true then s.supportedAssets
      else some ((s.supportedAssets.getD .empty).set a true)
    assetTotalDeposits := if supported s a = true then s.assetTotalDeposits
      else s.assetTotalDeposits.set a 0
    assetRewardIndex := if supported s a = true then s.assetRewardIndex
      else s.assetRewardIndex.set a 0 }

/-! ## Each write is a step of the pool machine -/

section Pools
variable {now limit duration : Nat} {u v a : Address} {amount delta paid : Int} {s t : Storage}

/-- Two pools are equal when they agree on the index, on the total and on every
position. -/
theorem pool_ext {P : Pool Address} {p : PoolId} (hi : poolIndex s p = P.index)
    (ht : poolTotal s p = P.total) (hp : ∀ v, toAccount (position s p v) = P.account v) :
    pool s p = P := by
  unfold pool
  rw [hi, ht, funext hp]

theorem pool_congr {p : PoolId} (hi : poolIndex t p = poolIndex s p)
    (ht : poolTotal t p = poolTotal s p) (hv : ∀ v, position t p v = position s p v) :
    pool t p = pool s p :=
  pool_ext hi ht fun v => by rw [hv v]; rfl

theorem claimed_zero (now : Nat) (s : Storage) (p : PoolId) (u : Address) :
    claimed now s p u 0 = settled now s p u := by
  unfold claimed
  rw [sub_zero]
  rfl

/-- A pool is touched when one position is settled, moved by `delta` and paid,
and nothing else changes but the total. -/
theorem pool_eq_touch {p : PoolId} (hi : poolIndex t p = poolIndex s p)
    (ht : poolTotal t p = poolTotal s p + delta)
    (hu : position t p u = { claimed now s p u paid with
      balance := (position s p u).balance + delta })
    (hv : ∀ v, v ≠ u → position t p v = position s p v) :
    pool t p = (pool s p).touch REWARD_INDEX_SCALE u delta paid now := by
  refine pool_ext hi ht fun v => ?_
  by_cases hvu : v = u
  · subst hvu
    rw [touch_account_self, hu]
    rfl
  · rw [touch_account_other hvu, hv v hvu]
    rfl

theorem liquid_afterDeposit : liquid (afterDeposit now u amount s) v =
    if v = u then liquid s u + amount else liquid s v :=
  FinMap.getD_put _ _ _ _

theorem afterUnlock_of_nil (h : released now limit (locks s u) = []) :
    afterUnlock now limit u s = s := by
  unfold afterUnlock
  simp only [h, if_true]

theorem afterUnlock_of_ne_nil (h : released now limit (locks s u) ≠ []) :
    afterUnlock now limit u s = { s with
      userLiquidBalance := s.userLiquidBalance.put u
        (liquid s u + lockSum (released now limit (locks s u)))
      userLocks := s.userLocks.set u (kept now limit (locks s u)) } := by
  unfold afterUnlock
  simp only [h, if_false]

theorem liquid_afterUnlock : liquid (afterUnlock now limit u s) v =
    if v = u then liquid s u + lockSum (released now limit (locks s u)) else liquid s v := by
  by_cases h : released now limit (locks s u) = []
  · rw [afterUnlock_of_nil h, h]
    split
    · rename_i hv
      subst hv
      simp [lockSum]
    · rfl
  · rw [afterUnlock_of_ne_nil h]
    exact FinMap.getD_put _ _ _ _

theorem locks_afterUnlock : locks (afterUnlock now limit u s) v =
    if v = u then kept now limit (locks s u) else locks s v := by
  by_cases h : released now limit (locks s u) = []
  · rw [afterUnlock_of_nil h, kept_of_released_nil h]
    split
    · rename_i hv
      rw [hv]
    · rfl
  · rw [afterUnlock_of_ne_nil h]
    exact FinMap.getD_set _ _ _ _ _

theorem liquid_afterWithdraw : liquid (afterWithdraw now u amount s) v =
    if v = u then withdrawable now s u - amount else liquid s v := by
  have h : liquid (afterWithdraw now u amount s) v = if v = u then withdrawable now s u - amount
      else liquid (afterUnlock now WITHDRAW_UNLOCK_LIMIT u s) v := FinMap.getD_put _ _ _ _
  rw [h]
  by_cases hv : v = u
  · rw [if_pos hv, if_pos hv]
  · rw [if_neg hv, if_neg hv, liquid_afterUnlock, if_neg hv]

theorem locks_afterWithdraw : locks (afterWithdraw now u amount s) v =
    if v = u then kept now WITHDRAW_UNLOCK_LIMIT (locks s u) else locks s v :=
  locks_afterUnlock

theorem balance_afterWithdraw : liquid (afterWithdraw now u amount s) u +
    locked (afterWithdraw now u amount s) u = liquid s u + locked s u - amount := by
  have hsum := lockSum_released_add_kept now WITHDRAW_UNLOCK_LIMIT (locks s u)
  simp only [locked, liquid_afterWithdraw, locks_afterWithdraw, if_true, withdrawable]
  omega

theorem liquid_afterLock : liquid (afterLock now u amount duration s) v =
    if v = u then liquid s u - amount else liquid s v :=
  FinMap.getD_put _ _ _ _

theorem locks_afterLock : locks (afterLock now u amount duration s) v =
    if v = u then locks s u ++ [newLock now amount duration] else locks s v :=
  FinMap.getD_set _ _ _ _ _

theorem afterAddAsset_of_supported (h : supported s a = true) : afterAddAsset a s = s := by
  unfold afterAddAsset
  simp only [h, if_true]

theorem afterAddAsset_of_not_supported (h : ¬ supported s a = true) : afterAddAsset a s = { s with
    supportedAssets := some ((s.supportedAssets.getD .empty).set a true)
    assetTotalDeposits := s.assetTotalDeposits.set a 0
    assetRewardIndex := s.assetRewardIndex.set a 0 } := by
  unfold afterAddAsset
  rw [if_neg h, if_neg h, if_neg h]

theorem supported_afterAddAsset {b : Address} :
    supported (afterAddAsset a s) b = (decide (b = a) || supported s b) := by
  by_cases ha : supported s a = true
  · rw [afterAddAsset_of_supported ha]
    by_cases hb : b = a
    · rw [hb, ha, Bool.or_true]
    · rw [decide_eq_false hb, Bool.false_or]
  · rw [afterAddAsset_of_not_supported ha]
    simp only [supported, Option.getD_some, FinMap.contains_set]

/-- Adding an asset unlists nothing. -/
theorem supported_of_afterAddAsset {b : Address} (h : supported (afterAddAsset a s) b = false) :
    supported s b = false := by
  rw [supported_afterAddAsset, Bool.or_eq_false_iff] at h
  exact h.2

theorem balance_eq (s : Storage) (u : Address) :
    (position s .legacy u).balance = liquid s u + lockSum (locks s u) := rfl

/-- The keys that hold the reward part of legacy positions. -/
def rewardKeys (s : Storage) : FinMap Address Int × FinMap Address Int × FinMap Address Nat :=
  (s.userRewardIndex, s.userAccruedRewards, s.userLastRewardTimestamp)

/-- A legacy write moves the balance of one user by `delta` and stores their
rewards; it touches the legacy pool. -/
theorem pool_legacy_touch (hi : poolIndex t .legacy = poolIndex s .legacy)
    (ht : poolTotal t .legacy = poolTotal s .legacy + delta)
    (hu : liquid t u + lockSum (locks t u) = liquid s u + lockSum (locks s u) + delta)
    (hv : ∀ v, v ≠ u → liquid t v = liquid s v ∧ locks t v = locks s v)
    (hr : rewardKeys t = rewardKeys (putPosition u (claimed now s .legacy u paid) s)) :
    pool t .legacy = (pool s .legacy).touch REWARD_INDEX_SCALE u delta paid now := by
  simp only [rewardKeys, putPosition, Prod.mk.injEq] at hr
  obtain ⟨h1, h2, h3⟩ := hr
  refine pool_eq_touch hi ht ?_ fun v hvu => ?_
  · simp only [position, locked, hu, h1, h2, h3, FinMap.getD_put, FinMap.getD_set, if_true]
  · obtain ⟨hl, hk⟩ := hv v hvu
    simp only [position, locked, hl, hk, h1, h2, h3, FinMap.getD_put, FinMap.getD_set, if_neg hvu]

theorem pool_afterDeposit : pool (afterDeposit now u amount s) .legacy =
    (pool s .legacy).touch REWARD_INDEX_SCALE u amount 0 now := by
  refine pool_legacy_touch rfl rfl ?_ (fun v hv => ⟨?_, rfl⟩) ?_
  · rw [liquid_afterDeposit, if_pos rfl]
    exact add_right_comm _ _ _
  · rw [liquid_afterDeposit, if_neg hv]
  · rw [claimed_zero]
    rfl

theorem pool_afterWithdraw : pool (afterWithdraw now u amount s) .legacy =
    (pool s .legacy).touch REWARD_INDEX_SCALE u (-amount) 0 now := by
  refine pool_legacy_touch rfl rfl ?_ (fun v hv => ⟨?_, ?_⟩) ?_
  · exact balance_afterWithdraw
  · rw [liquid_afterWithdraw, if_neg hv]
  · rw [locks_afterWithdraw, if_neg hv]
  · rw [claimed_zero]
    rfl

theorem pool_afterUnlock : pool (afterUnlock now limit u s) .legacy = pool s .legacy := by
  have hsum := lockSum_released_add_kept now limit (locks s u)
  have hl := @liquid_afterUnlock now limit u
  have hk := @locks_afterUnlock now limit u
  refine pool_congr rfl rfl fun v => ?_
  have hb : liquid (afterUnlock now limit u s) v + lockSum (locks (afterUnlock now limit u s) v) =
      liquid s v + lockSum (locks s v) := by
    rw [hl, hk]
    by_cases hv : v = u
    · subst hv
      rw [if_pos rfl, if_pos rfl]
      omega
    · rw [if_neg hv, if_neg hv]
  simp only [position, locked, hb]
  rfl

theorem pool_afterLock : pool (afterLock now u amount duration s) .legacy =
    (pool s .legacy).touch REWARD_INDEX_SCALE u 0 0 now := by
  refine pool_legacy_touch rfl (add_zero _).symm ?_ (fun v hv => ⟨?_, ?_⟩) ?_
  · rw [liquid_afterLock, locks_afterLock, if_pos rfl, if_pos rfl]
    simp only [lockSum, newLock, List.map_append, List.map_cons, List.map_nil, List.sum_append,
      List.sum_cons, List.sum_nil]
    omega
  · rw [liquid_afterLock, if_neg hv]
  · rw [locks_afterLock, if_neg hv]
  · rw [claimed_zero]
    rfl

theorem pool_afterClaim : pool (afterClaim now u paid s) .legacy =
    (pool s .legacy).touch REWARD_INDEX_SCALE u 0 paid now :=
  pool_legacy_touch rfl (add_zero _).symm (add_zero _).symm (fun _ _ => ⟨rfl, rfl⟩) rfl

theorem pool_afterDistribution : pool (afterDistribution amount s) .legacy =
    (pool s .legacy).distribute REWARD_INDEX_SCALE amount := rfl

/-! Asset pools. -/

theorem position_putAssetPosition (q : UserPosition) (b : Address) :
    position (putAssetPosition u a q s) (.asset b) v =
      if v = u ∧ b = a then q else position s (.asset b) v := by
  by_cases h : v = u ∧ b = a
  · obtain ⟨rfl, rfl⟩ := h
    simp [position, putAssetPosition, FinMap.getD_put, FinMap.getD_set]
  · simp [position, putAssetPosition, FinMap.getD_put, FinMap.getD_set, h]

theorem pool_afterAssetMove : pool (afterAssetMove now u a delta s) (.asset a) =
    (pool s (.asset a)).touch REWARD_INDEX_SCALE u delta 0 now := by
  unfold afterAssetMove
  rw [← claimed_zero]
  refine pool_eq_touch rfl ?_ ?_ fun v hv => ?_
  · simp only [poolTotal, putAssetPosition, FinMap.getD_set, if_true]
  · rw [position_putAssetPosition, if_pos ⟨rfl, rfl⟩]
  · rw [position_putAssetPosition, if_neg fun h => hv h.1]
    rfl

theorem pool_afterAssetClaim : pool (afterAssetClaim now u a paid s) (.asset a) =
    (pool s (.asset a)).touch REWARD_INDEX_SCALE u 0 paid now := by
  refine pool_eq_touch rfl (add_zero _).symm ?_ fun v hv => ?_
  · rw [afterAssetClaim, position_putAssetPosition, if_pos ⟨rfl, rfl⟩, add_zero]
    rfl
  · rw [afterAssetClaim, position_putAssetPosition, if_neg fun h => hv h.1]

theorem pool_afterAssetDistribution : pool (afterAssetDistribution a amount s) (.asset a) =
    (pool s (.asset a)).distribute REWARD_INDEX_SCALE amount := by
  refine pool_ext ?_ rfl fun v => rfl
  simp only [poolIndex, afterAssetDistribution, FinMap.getD_set, if_true]
  rfl

/-! What a write to one pool leaves of the others. -/

theorem pool_afterAssetMove_other {b : Address} (h : b ≠ a) :
    pool (afterAssetMove now u a delta s) (.asset b) = pool s (.asset b) := by
  refine pool_congr rfl ?_ fun v => ?_
  · simp only [poolTotal, afterAssetMove, putAssetPosition, FinMap.getD_set, if_neg h]
  · rw [afterAssetMove, position_putAssetPosition, if_neg fun hb => h hb.2]
    rfl

theorem pool_afterAssetClaim_other {b : Address} (h : b ≠ a) :
    pool (afterAssetClaim now u a paid s) (.asset b) = pool s (.asset b) :=
  pool_congr rfl rfl fun v => by
    rw [afterAssetClaim, position_putAssetPosition, if_neg fun hb => h hb.2]

theorem pool_afterAssetDistribution_other {b : Address} (h : b ≠ a) :
    pool (afterAssetDistribution a amount s) (.asset b) = pool s (.asset b) := by
  refine pool_congr ?_ rfl fun _ => rfl
  simp only [poolIndex, afterAssetDistribution, FinMap.getD_set, if_neg h]

end Pools

/-! ## Well-formed storage -/

/-- What every pool of the vault satisfies between calls, with the bounds that
the machine's integers impose. -/
structure Sound (s : Storage) : Prop where
  liquid_nonneg : ∀ u, 0 ≤ liquid s u
  lock_pos : ∀ u, ∀ l ∈ locks s u, 0 < l.amount
  good : ∀ p, (pool s p).Good
  total_le : ∀ p, poolTotal s p ≤ i128Max
  index_le : ∀ p, poolIndex s p ≤ i128Max
  accrued_le : ∀ p u, (position s p u).accruedRewards ≤ i128Max
  unlisted : ∀ a, supported s a = false →
    poolTotal s (.asset a) = 0 ∧ poolIndex s (.asset a) = 0

namespace Sound
variable {s : Storage} (h : Sound s) {p : PoolId} {u : Address}
include h

theorem balance_nonneg : 0 ≤ (position s p u).balance := (h.good p).balance_nonneg u

theorem balance_le_total : (position s p u).balance ≤ poolTotal s p := (h.good p).balance_le_total u

theorem accrued_nonneg : 0 ≤ (position s p u).accruedRewards := (h.good p).accrued_nonneg u

theorem index_nonneg : 0 ≤ (position s p u).rewardIndex := (h.good p).index_nonneg u

theorem index_le_pool : (position s p u).rewardIndex ≤ poolIndex s p := (h.good p).index_le u

theorem poolIndex_nonneg (u : Address) : 0 ≤ poolIndex s p := (h.good p).index_pool_nonneg u

theorem pending_nonneg : 0 ≤ pending s p u := (h.good p).pending_nonneg scale_pos u

theorem locked_nonneg : 0 ≤ lockSum (locks s u) := lockSum_nonneg (h.lock_pos u)

theorem balance_le_max : liquid s u + lockSum (locks s u) ≤ i128Max :=
  (h.balance_le_total (p := .legacy) (u := u)).trans (h.total_le .legacy)

theorem locked_le_max : lockSum (locks s u) ≤ i128Max := by
  have := h.balance_le_max (u := u)
  have := h.liquid_nonneg u
  omega

/-- No sum over a part of the locks of a user overflows. -/
theorem sumFits {ls : List Lock} (hl : ls.Sublist (locks s u)) : SumFits (ls.map Lock.amount) := by
  have hpos : ∀ x ∈ (locks s u).map Lock.amount, 0 ≤ x := by
    intro x hx
    obtain ⟨l, hl, rfl⟩ := List.mem_map.mp hx
    exact (h.lock_pos u l hl).le
  have hle : (ls.map Lock.amount).sum ≤ ((locks s u).map Lock.amount).sum :=
    (hl.map Lock.amount).sum_le_sum hpos
  refine sumFits_of_nonneg ?_ (hle.trans h.locked_le_max)
  intro x hx
  exact hpos x ((hl.map Lock.amount).subset hx)

theorem released_le (now limit : Nat) :
    lockSum (released now limit (locks s u)) ≤ lockSum (locks s u) := by
  have := lockSum_released_add_kept now limit (locks s u)
  have := lockSum_nonneg fun l hl => h.lock_pos u l (@mem_of_mem_kept now limit _ l hl)
  omega

theorem released_nonneg (now limit : Nat) : 0 ≤ lockSum (released now limit (locks s u)) :=
  lockSum_nonneg fun l hl => h.lock_pos u l (mem_of_mem_released hl)

end Sound

/-- Adding an asset changes no pool: a new one was empty, a listed one stays. -/
theorem pool_afterAddAsset {s : Storage} (h : Sound s) (a : Address) (p : PoolId) :
    pool (afterAddAsset a s) p = pool s p := by
  by_cases ha : supported s a = true
  · rw [afterAddAsset_of_supported ha]
  · rw [afterAddAsset_of_not_supported ha]
    cases p with
    | legacy => rfl
    | asset b =>
      by_cases hb : b = a
      · subst hb
        obtain ⟨ht, hi⟩ := h.unlisted b (by simpa using ha)
        refine pool_congr ?_ ?_ fun _ => rfl
        · rw [hi]
          simp only [poolIndex, FinMap.getD_set, if_true]
        · rw [ht]
          simp only [poolTotal, FinMap.getD_set, if_true]
      · refine pool_congr ?_ ?_ fun _ => rfl
        · simp only [poolIndex, FinMap.getD_set, if_neg hb]
        · simp only [poolTotal, FinMap.getD_set, if_neg hb]

end Axionvera.Vault.Accounts

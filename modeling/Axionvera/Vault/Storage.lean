import Axionvera.Vault.Types

/-! # The storage layer

`storage.rs`, function by function; helpers stand before their first use. A
`checked_*` call with `ok_or` is `okOr`, a guard with an early `return Err` is
`failIf`. -/
namespace Axionvera.Vault.Storage
open Axionvera.Lib.Host Axionvera.Lib.KeyValue Axionvera.Lib.MachineInt
open Axionvera.Vault.Errors Axionvera.Vault.Types

def PRECISION_FACTOR : Int := 1000000000

def REWARD_INDEX_SCALE : Int := PRECISION_FACTOR

/-! ## Init -/

def isInitialized : StoreM Bool := HostM.gets fun s => s.initialized.getD false

def requireInitialized : StoreM Unit := do
  let initialized ← isInitialized
  HostM.failIf (initialized = false) StateError.notInitialized

def requireNotPaused : StoreM Unit := do
  let paused ← HostM.gets fun s => s.isPaused.getD false
  HostM.failIf (paused = true) AuthorizationError.unauthorized

def initializeState (admin depositToken rewardToken : Address) (vestingPeriod : Nat)
    (targetDeposits : Int) (utilizationMultipliers : List MultiplierPoint) : StoreM Unit :=
  HostM.modify fun s => { s with
    initialized := some true
    admin := some admin
    pendingAdmin := none
    depositToken := some depositToken
    rewardToken := some rewardToken
    vestingPeriod := some vestingPeriod
    totalDeposits := some 0
    rewardIndex := some 0
    targetDeposits := some targetDeposits
    utilizationMultipliers := some utilizationMultipliers
    reentrancyGuard := some false
    isPaused := some false }

/-! ## State (global) -/

def getState : StoreM VaultState := do
  requireInitialized
  let s ← HostM.get
  let admin ← HostM.okOr s.admin StateError.invalidState
  let depositToken ← HostM.okOr s.depositToken StateError.invalidState
  let rewardToken ← HostM.okOr s.rewardToken StateError.invalidState
  return {
    admin := admin
    depositToken := depositToken
    rewardToken := rewardToken
    totalDeposits := s.totalDeposits.getD 0
    rewardIndex := s.rewardIndex.getD 0
    vestingPeriod := s.vestingPeriod.getD 0
    targetDeposits := s.targetDeposits.getD 0
    utilizationMultipliers := s.utilizationMultipliers.getD [] }

def getAdmin : StoreM Address := do
  let state ← getState
  return state.admin

def setAdmin (admin : Address) : StoreM Unit := HostM.modify fun s => { s with admin := some admin }

def getPendingAdmin : StoreM (Option Address) := do
  requireInitialized
  HostM.gets fun s => s.pendingAdmin

def setPendingAdmin (pendingAdmin : Address) : StoreM Unit :=
  HostM.modify fun s => { s with pendingAdmin := some pendingAdmin }

def clearPendingAdmin : StoreM Unit := HostM.modify fun s => { s with pendingAdmin := none }

def getDepositToken : StoreM Address := do
  let state ← getState
  return state.depositToken

def getRewardToken : StoreM Address := do
  let state ← getState
  return state.rewardToken

def getTotalDeposits : StoreM Int := do
  let state ← getState
  return state.totalDeposits

def setTotalDeposits (total : Int) : StoreM Unit :=
  HostM.modify fun s => { s with totalDeposits := some total }

def getRewardIndex : StoreM Int := do
  let state ← getState
  return state.rewardIndex

def setRewardIndex (index : Int) : StoreM Unit :=
  HostM.modify fun s => { s with rewardIndex := some index }

def getVestingPeriod : StoreM Nat := do
  let state ← getState
  return state.vestingPeriod

def setPaused (paused : Bool) : StoreM Unit :=
  HostM.modify fun s => { s with isPaused := some paused }

/-! ## Reentrancy guard -/

def enterNonReentrant : StoreM Unit := do
  let entered ← HostM.gets fun s => s.reentrancyGuard.getD false
  HostM.failIf (entered = true) AuthorizationError.reentrancyDetected
  HostM.modify fun s => { s with reentrancyGuard := some true }

def exitNonReentrant : StoreM Unit :=
  HostM.modify fun s => { s with reentrancyGuard := some false }

/-! ## User position -/

def getLiquidBalanceUnchecked (user : Address) : StoreM Int :=
  HostM.gets fun s => s.userLiquidBalance.getD user 0

def setLiquidBalance (user : Address) (amount : Int) : StoreM Unit :=
  HostM.modify fun s => { s with userLiquidBalance := s.userLiquidBalance.put user amount }

def getUserLocksUnchecked (user : Address) : StoreM (List Lock) :=
  HostM.gets fun s => s.userLocks.getD user []

def setUserLocks (user : Address) (locks : List Lock) : StoreM Unit :=
  HostM.modify fun s => { s with userLocks := s.userLocks.set user locks }

def getUserPositionUnchecked (user : Address) : StoreM UserPosition := do
  let liquidBalance ← getLiquidBalanceUnchecked user
  let locks ← getUserLocksUnchecked user
  let lockedBalance := sumI128 (locks.map Lock.amount)
  let totalBalance ← HostM.okOr (checkedAdd liquidBalance lockedBalance) ArithmeticError.overflow
  let s ← HostM.get
  return {
    balance := totalBalance
    rewardIndex := s.userRewardIndex.getD user 0
    accruedRewards := s.userAccruedRewards.getD user 0
    lastRewardTimestamp := s.userLastRewardTimestamp.getD user 0 }

def getUserPosition (user : Address) : StoreM UserPosition := do
  requireInitialized
  getUserPositionUnchecked user

/-- Zero values are stored as absent keys; the timestamp is always written. -/
def setUserPosition (user : Address) (position : UserPosition) : StoreM Unit :=
  HostM.modify fun s => { s with
    userRewardIndex := s.userRewardIndex.put user position.rewardIndex
    userAccruedRewards := s.userAccruedRewards.put user position.accruedRewards
    userLastRewardTimestamp := s.userLastRewardTimestamp.set user position.lastRewardTimestamp }

def getUserBalance (user : Address) : StoreM Int := do
  let position ← getUserPosition user
  return position.balance

def getLiquidBalance (user : Address) : StoreM Int := do
  requireInitialized
  getLiquidBalanceUnchecked user

def getLockedBalance (user : Address) : StoreM Int := do
  requireInitialized
  let locks ← getUserLocksUnchecked user
  let now ← HostM.ask
  return sumI128 ((locks.filter fun l => decide (now < l.unlockTimestamp)).map Lock.amount)

/-! ## Arithmetic helpers -/

def checkedRewardIndexIncrement (amount totalDeposits : Int) : Except VaultError Int := do
  if totalDeposits ≤ 0 then
    throw (BalanceError.noDeposits : VaultError)
  else
    let scaled ← okOr (checkedMul amount REWARD_INDEX_SCALE) (ArithmeticError.overflow : VaultError)
    let increment ← okOr (checkedDiv scaled totalDeposits)
      (ArithmeticError.rewardCalculationFailed : VaultError)
    if increment ≤ 0 then
      throw (ArithmeticError.zeroRewardIncrement : VaultError)
    else
      return increment

def checkedAccruedRewards (balance delta : Int) : Except VaultError Int := do
  let product ← okOr (checkedMul balance delta) (ArithmeticError.overflow : VaultError)
  okOr (checkedDiv product REWARD_INDEX_SCALE) (ArithmeticError.rewardCalculationFailed : VaultError)

/-- The loop over the curve: the first point at or above the utilization, or
else what was selected before the loop. -/
def selectMultiplier (utilizationBps : Nat) (selectedMultiplier : UInt32) :
    List MultiplierPoint → UInt32
  | [] => selectedMultiplier
  | point :: rest =>
    if utilizationBps ≤ point.utilizationBps.toNat then point.multiplierBps
    else selectMultiplier utilizationBps selectedMultiplier rest

def calculateUtilizationMultiplier (totalDeposits targetDeposits : Int) :
    List MultiplierPoint → Except VaultError UInt32
  | [] => return 10000
  | first :: rest =>
    if targetDeposits ≤ 0 then return 10000
    else do
      let scaled ← okOr (checkedMul totalDeposits 10000) (ArithmeticError.overflow : VaultError)
      let utilization ← okOr (checkedDiv scaled targetDeposits)
        (ArithmeticError.rewardCalculationFailed : VaultError)
      let last := (first :: rest).getLast (List.cons_ne_nil first rest)
      return selectMultiplier (asU32 utilization) last.multiplierBps (first :: rest)

/-- The body of `accrue_position_rewards` and of `accrue_asset_position_rewards`,
which differ only in where the pool's index comes from. -/
def accrueRewards (now : Nat) (poolIndex : Int) (position : UserPosition) :
    Except VaultError UserPosition := do
  if poolIndex = position.rewardIndex ∨ position.balance = 0 then
    return { position with rewardIndex := poolIndex }
  else if 0 < position.balance then
    let delta ← okOr (checkedSub poolIndex position.rewardIndex)
      (ArithmeticError.overflow : VaultError)
    let accrued ← checkedAccruedRewards position.balance delta
    if 0 < accrued then
      let accruedRewards ← okOr (checkedAdd position.accruedRewards accrued)
        (ArithmeticError.overflow : VaultError)
      return { position with
        accruedRewards := accruedRewards
        lastRewardTimestamp := now
        rewardIndex := poolIndex }
    else
      return { position with rewardIndex := poolIndex }
  else
    return { position with rewardIndex := poolIndex }

def accruePositionRewards (state : VaultState) (position : UserPosition) : StoreM UserPosition := do
  let now ← HostM.ask
  HostM.lift (accrueRewards now state.rewardIndex position)

/-! ## Deposit, withdraw, lock -/

def storeDeposit (user : Address) (amount : Int) : StoreM (VaultState × UserPosition) := do
  let state ← getState
  let position ← getUserPositionUnchecked user
  let position ← accruePositionRewards state position
  let balance ← HostM.okOr (checkedAdd position.balance amount) ArithmeticError.overflow
  let position := { position with balance := balance }
  let liquidBalance ← getLiquidBalanceUnchecked user
  let newLiquidBalance ← HostM.okOr (checkedAdd liquidBalance amount) ArithmeticError.overflow
  let nextTotal ← HostM.okOr (checkedAdd state.totalDeposits amount) ArithmeticError.overflow
  setLiquidBalance user newLiquidBalance
  setTotalDeposits nextTotal
  setUserPosition user position
  return ({ state with totalDeposits := nextTotal }, position)

/-- The loop of `unlock_expired_locks` over the remaining locks, with its three
accumulators. -/
def unlockLoop (now limit : Nat) :
    List Lock → Int → List Lock → Nat → Except VaultError (Int × List Lock)
  | [], unlockedAmount, newLocks, _ => .ok (unlockedAmount, newLocks)
  | lock :: rest, unlockedAmount, newLocks, processedCount =>
    if lock.unlockTimestamp ≤ now ∧ processedCount < limit then
      match checkedAdd unlockedAmount lock.amount with
      | none => .error ArithmeticError.overflow
      | some unlockedAmount => unlockLoop now limit rest unlockedAmount newLocks (processedCount + 1)
    else unlockLoop now limit rest unlockedAmount (newLocks ++ [lock]) processedCount

def unlockExpiredLocks (user : Address) (limit : Nat) : StoreM Int := do
  if limit = 0 then
    return 0
  else
    let now ← HostM.ask
    let locks ← getUserLocksUnchecked user
    let result ← HostM.lift (unlockLoop now limit locks 0 [] 0)
    if 0 < result.1 then
      let liquidBalance ← getLiquidBalanceUnchecked user
      let newLiquidBalance ← HostM.okOr (checkedAdd liquidBalance result.1) ArithmeticError.overflow
      setLiquidBalance user newLiquidBalance
      setUserLocks user result.2
      return result.1
    else
      return result.1

def WITHDRAW_UNLOCK_LIMIT : Nat := 5

def storeWithdraw (user : Address) (amount : Int) : StoreM (VaultState × UserPosition) := do
  let state ← getState
  let position ← getUserPositionUnchecked user
  let position ← accruePositionRewards state position
  let _ ← unlockExpiredLocks user WITHDRAW_UNLOCK_LIMIT
  let liquidBalance ← getLiquidBalanceUnchecked user
  HostM.failIf (liquidBalance < amount) BalanceError.insufficientBalance
  let balance ← HostM.okOr (checkedSub position.balance amount) ArithmeticError.overflow
  let position := { position with balance := balance }
  let newLiquidBalance ← HostM.okOr (checkedSub liquidBalance amount) ArithmeticError.overflow
  let nextTotal ← HostM.okOr (checkedSub state.totalDeposits amount) ArithmeticError.overflow
  setLiquidBalance user newLiquidBalance
  setTotalDeposits nextTotal
  setUserPosition user position
  return ({ state with totalDeposits := nextTotal }, position)

def storeLock (user : Address) (amount : Int) (duration : Nat) : StoreM Unit := do
  let state ← getState
  let position ← getUserPositionUnchecked user
  let position ← accruePositionRewards state position
  setUserPosition user position
  let liquidBalance ← getLiquidBalanceUnchecked user
  HostM.failIf (liquidBalance < amount) BalanceError.insufficientBalance
  let newLiquidBalance ← HostM.okOr (checkedSub liquidBalance amount) ArithmeticError.overflow
  setLiquidBalance user newLiquidBalance
  let locks ← getUserLocksUnchecked user
  let now ← HostM.ask
  let unlockTimestamp ← HostM.okOr (checkedAddU64 now duration) ArithmeticError.overflow
  let lock : Lock :=
    { amount := amount, unlockTimestamp := unlockTimestamp, rewardMultiplier := 0 }
  setUserLocks user (locks ++ [lock])

/-! ## Reward distribution -/

/-- `(amount as u128) * multiplier / 10000`, back as `i128`. -/
def effectiveAmount (amount : Int) (multiplierBps : Nat) : Except VaultError Int := do
  let product ← okOr (checkedMulU128 (asU128 amount) multiplierBps)
    (ArithmeticError.overflow : VaultError)
  let quotient ← okOr (checkedDivU128 product 10000)
    (ArithmeticError.rewardCalculationFailed : VaultError)
  return asI128 quotient

def storeRewardDistribution (amount : Int) : StoreM VaultState := do
  let state ← getState
  let multiplierBps ← HostM.lift (calculateUtilizationMultiplier state.totalDeposits
    state.targetDeposits state.utilizationMultipliers)
  let effective ← HostM.lift (effectiveAmount amount multiplierBps.toNat)
  let increment ← HostM.lift (checkedRewardIndexIncrement effective state.totalDeposits)
  let nextRewardIndex ← HostM.okOr (checkedAdd state.rewardIndex increment) ArithmeticError.overflow
  setRewardIndex nextRewardIndex
  return { state with rewardIndex := nextRewardIndex }

/-! ## Claim rewards -/

def calculateVestedRewards (currentTimestamp : Nat) (position : UserPosition)
    (vestingPeriod : Nat) : Except VaultError Int := do
  if vestingPeriod = 0 then
    return position.accruedRewards
  else if position.lastRewardTimestamp = 0 then
    return 0
  else
    let timeElapsed := (checkedSubU64 currentTimestamp position.lastRewardTimestamp).getD 0
    if vestingPeriod ≤ timeElapsed then
      return position.accruedRewards
    else
      let product ← okOr (checkedMulU128 (asU128 position.accruedRewards) timeElapsed)
        (ArithmeticError.overflow : VaultError)
      let vested ← okOr (checkedDivU128 product vestingPeriod)
        (ArithmeticError.rewardCalculationFailed : VaultError)
      return asI128 vested

def storeClaimableRewards (user : Address) : StoreM Int := do
  let state ← getState
  let position ← getUserPositionUnchecked user
  let position ← accruePositionRewards state position
  let now ← HostM.ask
  let vested ← HostM.lift (calculateVestedRewards now position state.vestingPeriod)
  let remaining ← HostM.okOr (checkedSub position.accruedRewards vested) ArithmeticError.overflow
  setUserPosition user { position with accruedRewards := remaining }
  return vested

/-! ## Read-only reward preview -/

def previewUserRewards (user : Address) : StoreM UserRewardSnapshot := do
  requireInitialized
  let state ← getState
  let position ← getUserPositionUnchecked user
  let position ← accruePositionRewards state position
  let now ← HostM.ask
  let vested ← HostM.lift (calculateVestedRewards now position state.vestingPeriod)
  return {
    rewardIndex := position.rewardIndex
    rewards := position.accruedRewards
    vestedRewards := vested }

def pendingUserRewardsView (user : Address) : StoreM Int := do
  let snapshot ← previewUserRewards user
  return snapshot.rewards

def vestedUserRewardsView (user : Address) : StoreM Int := do
  let snapshot ← previewUserRewards user
  return snapshot.vestedRewards

/-! ## Multi-asset support -/

def getSupportedAssets : StoreM (FinMap Address Bool) :=
  HostM.gets fun s => s.supportedAssets.getD .empty

def addSupportedAsset (asset : Address) : StoreM Unit := do
  let assets ← getSupportedAssets
  if assets.contains asset = false then
    HostM.modify fun s => { s with
      supportedAssets := some (assets.set asset true)
      assetTotalDeposits := s.assetTotalDeposits.set asset 0
      assetRewardIndex := s.assetRewardIndex.set asset 0 }
  else
    return ()

def isAssetSupported (asset : Address) : StoreM Bool := do
  let assets ← getSupportedAssets
  return assets.contains asset

/-- `if !is_asset_supported(e, asset) { return Err(InvalidAddress) }`. -/
def requireAssetSupported (asset : Address) : StoreM Unit := do
  let supported ← isAssetSupported asset
  HostM.failIf (supported = false) ValidationError.invalidAddress

def getAssetTotalDeposits (asset : Address) : StoreM Int := do
  requireAssetSupported asset
  HostM.gets fun s => s.assetTotalDeposits.getD asset 0

def setAssetTotalDeposits (asset : Address) (total : Int) : StoreM Unit :=
  HostM.modify fun s => { s with assetTotalDeposits := s.assetTotalDeposits.set asset total }

def getAssetRewardIndex (asset : Address) : StoreM Int := do
  requireAssetSupported asset
  HostM.gets fun s => s.assetRewardIndex.getD asset 0

def setAssetRewardIndex (asset : Address) (index : Int) : StoreM Unit :=
  HostM.modify fun s => { s with assetRewardIndex := s.assetRewardIndex.set asset index }

def getUserAssetPositionUnchecked (user asset : Address) : StoreM UserPosition :=
  HostM.gets fun s => {
    balance := s.userAssetBalance.getD (user, asset) 0
    rewardIndex := s.userAssetRewardIndex.getD (user, asset) 0
    accruedRewards := s.userAssetAccruedRewards.getD (user, asset) 0
    lastRewardTimestamp := s.userAssetLastRewardTimestamp.getD (user, asset) 0 }

def getUserAssetPosition (user asset : Address) : StoreM UserPosition := do
  requireInitialized
  requireAssetSupported asset
  getUserAssetPositionUnchecked user asset

def setUserAssetPosition (user asset : Address) (position : UserPosition) : StoreM Unit :=
  HostM.modify fun s => { s with
    userAssetBalance := s.userAssetBalance.put (user, asset) position.balance
    userAssetRewardIndex := s.userAssetRewardIndex.put (user, asset) position.rewardIndex
    userAssetAccruedRewards := s.userAssetAccruedRewards.put (user, asset) position.accruedRewards
    userAssetLastRewardTimestamp :=
      s.userAssetLastRewardTimestamp.set (user, asset) position.lastRewardTimestamp }

def getUserAssetBalance (user asset : Address) : StoreM Int := do
  let position ← getUserAssetPosition user asset
  return position.balance

def accrueAssetPositionRewards (assetRewardIndex : Int) (position : UserPosition) :
    StoreM UserPosition := do
  let now ← HostM.ask
  HostM.lift (accrueRewards now assetRewardIndex position)

def storeAssetDeposit (user asset : Address) (amount : Int) : StoreM UserPosition := do
  requireAssetSupported asset
  let position ← getUserAssetPositionUnchecked user asset
  let assetRewardIndex ← getAssetRewardIndex asset
  let assetTotal ← getAssetTotalDeposits asset
  let position ← accrueAssetPositionRewards assetRewardIndex position
  let balance ← HostM.okOr (checkedAdd position.balance amount) ArithmeticError.overflow
  let position := { position with balance := balance }
  let nextTotal ← HostM.okOr (checkedAdd assetTotal amount) ArithmeticError.overflow
  setAssetTotalDeposits asset nextTotal
  setUserAssetPosition user asset position
  return position

def storeAssetWithdraw (user asset : Address) (amount : Int) : StoreM UserPosition := do
  requireAssetSupported asset
  let position ← getUserAssetPositionUnchecked user asset
  let assetRewardIndex ← getAssetRewardIndex asset
  let assetTotal ← getAssetTotalDeposits asset
  let position ← accrueAssetPositionRewards assetRewardIndex position
  HostM.failIf (position.balance < amount) BalanceError.insufficientBalance
  let balance ← HostM.okOr (checkedSub position.balance amount) ArithmeticError.overflow
  let position := { position with balance := balance }
  let nextTotal ← HostM.okOr (checkedSub assetTotal amount) ArithmeticError.overflow
  setAssetTotalDeposits asset nextTotal
  setUserAssetPosition user asset position
  return position

def storeAssetRewardDistribution (asset : Address) (amount : Int) : StoreM Int := do
  requireAssetSupported asset
  let assetTotal ← getAssetTotalDeposits asset
  let assetRewardIndex ← getAssetRewardIndex asset
  let increment ← HostM.lift (checkedRewardIndexIncrement amount assetTotal)
  let nextRewardIndex ← HostM.okOr (checkedAdd assetRewardIndex increment) ArithmeticError.overflow
  setAssetRewardIndex asset nextRewardIndex
  return nextRewardIndex

def storeAssetClaimableRewards (user asset : Address) : StoreM Int := do
  requireAssetSupported asset
  let state ← getState
  let position ← getUserAssetPositionUnchecked user asset
  let assetRewardIndex ← getAssetRewardIndex asset
  let position ← accrueAssetPositionRewards assetRewardIndex position
  let now ← HostM.ask
  let vested ← HostM.lift (calculateVestedRewards now position state.vestingPeriod)
  let remaining ← HostM.okOr (checkedSub position.accruedRewards vested) ArithmeticError.overflow
  setUserAssetPosition user asset { position with accruedRewards := remaining }
  return vested

def previewUserAssetRewards (user asset : Address) : StoreM UserRewardSnapshot := do
  requireInitialized
  requireAssetSupported asset
  let state ← getState
  let position ← getUserAssetPositionUnchecked user asset
  let assetRewardIndex ← getAssetRewardIndex asset
  let position ← accrueAssetPositionRewards assetRewardIndex position
  let now ← HostM.ask
  let vested ← HostM.lift (calculateVestedRewards now position state.vestingPeriod)
  return {
    rewardIndex := position.rewardIndex
    rewards := position.accruedRewards
    vestedRewards := vested }

def pendingUserAssetRewardsView (user asset : Address) : StoreM Int := do
  let snapshot ← previewUserAssetRewards user asset
  return snapshot.rewards

def vestedUserAssetRewardsView (user asset : Address) : StoreM Int := do
  let snapshot ← previewUserAssetRewards user asset
  return snapshot.vestedRewards

end Axionvera.Vault.Storage

import Axionvera.Vault.Storage

/-! # The contract's entry points

`lib.rs`. Every entry point takes the token contracts it talks to as a
`TokenClient`: they are not in the repository, and what is assumed of them is
said where it is used. `exec` runs one call with its arguments in the machine
types of the interface. -/
namespace Axionvera.Vault.Contract
open Axionvera.Lib.Host Axionvera.Lib.KeyValue Axionvera.Lib.MachineInt
open Axionvera.Vault.Errors Axionvera.Vault.Types Axionvera.Vault.Storage

/-- `soroban_sdk::token::Client`, for every token address at once. -/
structure TokenClient (τ : Type) where
  transfer : (token src dst : Address) → (amount : Int) → VaultM τ Unit
  balance : (token holder : Address) → VaultM τ Int

section Host
variable {τ : Type}

/-- Storage code, run on the vault's storage at the current ledger time. -/
def onStorage {α : Type} (m : StoreM α) : VaultM τ α :=
  HostM.zoom World.storage (fun s w => { w with storage := s }) (fun _ w => w.timestamp) m

/-- `address.require_auth()`: the host traps the call without it. -/
def requireAuth (address : Address) : VaultM τ Unit := do
  let env ← HostM.ask
  if env.auths address = true then return () else HostM.halt

def currentContractAddress : VaultM τ Address := do
  let env ← HostM.ask
  return env.currentContract

def emit (event : Nat → Event) : VaultM τ Unit :=
  HostM.modify fun w => { w with events := w.events ++ [event w.timestamp] }

/-- `update_current_contract_wasm` traps on a hash that was never uploaded. -/
def updateCurrentContractWasm (hash : WasmHash) : VaultM τ Unit := do
  let env ← HostM.ask
  if env.uploaded hash = true then HostM.modify fun w => { w with code := hash } else HostM.halt

end Host

/-! ## Checks -/

def validatePositiveAmount (amount : Int) : Except VaultError Unit :=
  if amount < 0 then throw (ValidationError.negativeAmount : VaultError)
  else if amount = 0 then throw (ValidationError.invalidAmount : VaultError)
  else return ()

def validateDistinctTokenAddresses (depositToken rewardToken : Address) : Except VaultError Unit :=
  if depositToken = rewardToken then throw (ValidationError.invalidTokenConfiguration : VaultError)
  else return ()

/-- The loop of `validate_utilization_multipliers`, from the last bound seen. -/
def validateMultiplierPoints (lastUtilBps : UInt32) : List MultiplierPoint → Except VaultError Unit
  | [] => return ()
  | point :: rest =>
    if point.utilizationBps < lastUtilBps then
      throw (ValidationError.invalidUtilizationParameters : VaultError)
    else validateMultiplierPoints point.utilizationBps rest

def validateUtilizationMultipliers (multipliers : List MultiplierPoint) : Except VaultError Unit :=
  validateMultiplierPoints 0 multipliers

def ensureContractBalance (balance requestedAmount : Int) : Except VaultError Unit :=
  if balance < requestedAmount then throw (BalanceError.insufficientContractBalance : VaultError)
  else return ()

def MIN_REWARD_DISTRIBUTION : Int := 100000

def MAX_UNLOCK_LIMIT : Nat := 50

section EntryPoints
variable {τ : Type}

/-- The guard is released whether `f` succeeds or returns an error. -/
def withNonReentrant {α : Type} (f : VaultM τ α) : VaultM τ α := do
  onStorage enterNonReentrant
  let result ← HostM.attempt f
  onStorage exitNonReentrant
  HostM.lift result

/-! ## Setup and administration -/

def initializeVault (admin depositToken rewardToken : Address) (vestingPeriod : Nat)
    (targetDeposits : Int) (utilizationMultipliers : List MultiplierPoint) : VaultM τ Unit := do
  onStorage requireNotPaused
  let initialized ← onStorage isInitialized
  HostM.failIf (initialized = true) StateError.alreadyInitialized
  HostM.lift (validateDistinctTokenAddresses depositToken rewardToken)
  HostM.lift (validateUtilizationMultipliers utilizationMultipliers)
  requireAuth admin
  onStorage (initializeState admin depositToken rewardToken vestingPeriod targetDeposits
    utilizationMultipliers)
  emit (.initialized admin depositToken rewardToken)

def proposeNewAdmin (newAdmin : Address) : VaultM τ Unit := do
  onStorage requireInitialized
  let admin ← onStorage getAdmin
  requireAuth admin
  onStorage (setPendingAdmin newAdmin)
  emit (.adminTransferProposed admin newAdmin)

def acceptAdmin (newAdmin : Address) : VaultM τ Unit := do
  onStorage requireInitialized
  requireAuth newAdmin
  let previousAdmin ← onStorage getAdmin
  let pending ← onStorage getPendingAdmin
  let pendingAdmin ← HostM.okOr pending StateError.noPendingAdmin
  HostM.failIf (pendingAdmin ≠ newAdmin) AuthorizationError.unauthorized
  onStorage (setAdmin newAdmin)
  onStorage clearPendingAdmin
  emit (.adminTransferAccepted previousAdmin newAdmin)

def setPausedByAdmin (paused : Bool) : VaultM τ Unit := do
  onStorage requireInitialized
  let admin ← onStorage getAdmin
  requireAuth admin
  onStorage (setPaused paused)

def pauseContract : VaultM τ Unit := setPausedByAdmin true

def unpauseContract : VaultM τ Unit := setPausedByAdmin false

def upgrade (newWasmHash : WasmHash) : VaultM τ Unit := do
  onStorage requireInitialized
  let admin ← onStorage getAdmin
  requireAuth admin
  updateCurrentContractWasm newWasmHash
  emit (.upgrade admin newWasmHash)

/-! ## The legacy pool -/

def deposit (T : TokenClient τ) (user : Address) (amount : Int) : VaultM τ Unit := do
  onStorage requireNotPaused
  onStorage requireInitialized
  HostM.lift (validatePositiveAmount amount)
  requireAuth user
  withNonReentrant do
    let state ← onStorage getState
    let contract ← currentContractAddress
    T.transfer state.depositToken user contract amount
    let _ ← onStorage (storeDeposit user amount)
    emit (.deposit user amount)

def withdraw (T : TokenClient τ) (user : Address) (amount : Int) : VaultM τ Unit := do
  onStorage requireNotPaused
  onStorage requireInitialized
  HostM.lift (validatePositiveAmount amount)
  requireAuth user
  withNonReentrant do
    let state ← onStorage getState
    let stored ← onStorage (storeWithdraw user amount)
    emit (.withdraw user amount stored.2.balance)
    let contract ← currentContractAddress
    T.transfer state.depositToken contract user amount

def distributeRewards (T : TokenClient τ) (amount : Int) : VaultM τ Int := do
  onStorage requireInitialized
  HostM.lift (validatePositiveAmount amount)
  HostM.failIf (amount < MIN_REWARD_DISTRIBUTION) ValidationError.insufficientRewardAmount
  let state ← onStorage getState
  requireAuth state.admin
  withNonReentrant do
    let contract ← currentContractAddress
    T.transfer state.rewardToken state.admin contract amount
    let nextState ← onStorage (storeRewardDistribution amount)
    emit (.distribute state.admin amount)
    return nextState.rewardIndex

def lock (user : Address) (amount : Int) (durationSeconds : Nat) : VaultM τ Unit := do
  onStorage requireNotPaused
  onStorage requireInitialized
  HostM.lift (validatePositiveAmount amount)
  HostM.failIf (durationSeconds = 0) ValidationError.invalidLockDuration
  requireAuth user
  withNonReentrant do
    let now ← HostM.gets World.timestamp
    let unlockTimestamp ← HostM.okOr (checkedAddU64 now durationSeconds) VaultError.mathOverflow
    onStorage (storeLock user amount durationSeconds)
    emit (.lock user amount unlockTimestamp)

def unlockExpired (user : Address) (limit : Nat) : VaultM τ Int := do
  onStorage requireNotPaused
  onStorage requireInitialized
  requireAuth user
  HostM.failIf (MAX_UNLOCK_LIMIT < limit) VaultError.operationLimitExceeded
  withNonReentrant do
    let unlockedAmount ← onStorage (unlockExpiredLocks user limit)
    if 0 < unlockedAmount then emit (.unlock user unlockedAmount) else pure ()
    return unlockedAmount

/-- What `claim_rewards` and `claim_rewards_for_asset` do with the claimed
amount: pay it out of the contract's reward tokens unless it is zero. -/
def payRewards (T : TokenClient τ) (user : Address) (amount : Int) (event : Nat → Event) :
    VaultM τ Int := do
  if amount ≤ 0 then
    return 0
  else
    let rewardToken ← onStorage getRewardToken
    let contract ← currentContractAddress
    let balance ← T.balance rewardToken contract
    HostM.lift (ensureContractBalance balance amount)
    T.transfer rewardToken contract user amount
    emit event
    return amount

def claimRewards (T : TokenClient τ) (user : Address) : VaultM τ Int := do
  onStorage requireNotPaused
  onStorage requireInitialized
  requireAuth user
  withNonReentrant do
    let amount ← onStorage (storeClaimableRewards user)
    payRewards T user amount (.claim user amount)

/-! ## Asset pools -/

def addAsset (admin asset : Address) : VaultM τ Unit := do
  onStorage requireInitialized
  let storedAdmin ← onStorage getAdmin
  HostM.failIf (admin ≠ storedAdmin) AuthorizationError.unauthorized
  requireAuth admin
  onStorage (addSupportedAsset asset)
  emit (.assetAdded asset)

def depositAsset (T : TokenClient τ) (user asset : Address) (amount : Int) : VaultM τ Unit := do
  onStorage requireNotPaused
  onStorage requireInitialized
  HostM.lift (validatePositiveAmount amount)
  requireAuth user
  onStorage (requireAssetSupported asset)
  withNonReentrant do
    let contract ← currentContractAddress
    T.transfer asset user contract amount
    let _ ← onStorage (storeAssetDeposit user asset amount)
    emit (.assetDeposit user asset amount)

def withdrawAsset (T : TokenClient τ) (user asset : Address) (amount : Int) : VaultM τ Unit := do
  onStorage requireNotPaused
  onStorage requireInitialized
  HostM.lift (validatePositiveAmount amount)
  requireAuth user
  onStorage (requireAssetSupported asset)
  withNonReentrant do
    let position ← onStorage (storeAssetWithdraw user asset amount)
    emit (.assetWithdraw user asset amount position.balance)
    let contract ← currentContractAddress
    T.transfer asset contract user amount

def distributeRewardsForAsset (T : TokenClient τ) (admin asset : Address) (amount : Int) :
    VaultM τ Int := do
  onStorage requireInitialized
  HostM.lift (validatePositiveAmount amount)
  HostM.failIf (amount < MIN_REWARD_DISTRIBUTION) ValidationError.insufficientRewardAmount
  onStorage (requireAssetSupported asset)
  let state ← onStorage getState
  HostM.failIf (admin ≠ state.admin) AuthorizationError.unauthorized
  requireAuth admin
  withNonReentrant do
    let contract ← currentContractAddress
    T.transfer state.rewardToken admin contract amount
    let nextRewardIndex ← onStorage (storeAssetRewardDistribution asset amount)
    emit (.assetDistribute admin asset amount)
    return nextRewardIndex

def claimRewardsForAsset (T : TokenClient τ) (user asset : Address) : VaultM τ Int := do
  onStorage requireNotPaused
  onStorage requireInitialized
  requireAuth user
  onStorage (requireAssetSupported asset)
  withNonReentrant do
    let amount ← onStorage (storeAssetClaimableRewards user asset)
    payRewards T user amount (.assetClaim user asset amount)

end EntryPoints

/-! ## Calls -/

/-- The read-only entry points. -/
inductive View where
  | version
  | balance (user : Address)
  | liquidBalance (user : Address)
  | lockedBalance (user : Address)
  | totalDeposits
  | rewardIndex
  | pendingRewards (user : Address)
  | vestedRewards (user : Address)
  | vestingPeriod
  | admin
  | pendingAdmin
  | depositToken
  | rewardToken
  | balanceOfAsset (user asset : Address)
  | totalDepositsOfAsset (asset : Address)
  | rewardIndexOfAsset (asset : Address)
  | pendingRewardsForAsset (user asset : Address)
  | vestedRewardsForAsset (user asset : Address)
  | isAssetSupported (asset : Address)

inductive Call where
  | initializeVault (admin depositToken rewardToken : Address) (vestingPeriod : UInt64)
      (targetDeposits : I128) (utilizationMultipliers : List MultiplierPoint)
  | proposeNewAdmin (newAdmin : Address)
  | acceptAdmin (newAdmin : Address)
  | deposit (user : Address) (amount : I128)
  | withdraw (user : Address) (amount : I128)
  | distributeRewards (amount : I128)
  | lock (user : Address) (amount : I128) (durationSeconds : UInt64)
  | unlockExpired (user : Address) (limit : UInt32)
  | claimRewards (user : Address)
  | pauseContract
  | unpauseContract
  | upgrade (newWasmHash : WasmHash)
  | addAsset (admin asset : Address)
  | depositAsset (user asset : Address) (amount : I128)
  | withdrawAsset (user asset : Address) (amount : I128)
  | distributeRewardsForAsset (admin asset : Address) (amount : I128)
  | claimRewardsForAsset (user asset : Address)
  | view (v : View)

inductive Value where
  | unit
  | int (x : Int)
  | nat (n : Nat)
  | bool (b : Bool)
  | address (a : Address)
  | optAddress (a : Option Address)
  deriving DecidableEq

/-- Storage code that backs a view. -/
def execView : View → StoreM Value
  | .version => return .nat 1
  | .balance user => return .int (← getUserBalance user)
  | .liquidBalance user => return .int (← getLiquidBalance user)
  | .lockedBalance user => return .int (← getLockedBalance user)
  | .totalDeposits => return .int (← getTotalDeposits)
  | .rewardIndex => return .int (← getRewardIndex)
  | .pendingRewards user => return .int (← pendingUserRewardsView user)
  | .vestedRewards user => return .int (← vestedUserRewardsView user)
  | .vestingPeriod => return .nat (← getVestingPeriod)
  | .admin => return .address (← getAdmin)
  | .pendingAdmin => return .optAddress (← getPendingAdmin)
  | .depositToken => return .address (← getDepositToken)
  | .rewardToken => return .address (← getRewardToken)
  | .balanceOfAsset user asset => return .int (← getUserAssetBalance user asset)
  | .totalDepositsOfAsset asset => return .int (← getAssetTotalDeposits asset)
  | .rewardIndexOfAsset asset => return .int (← getAssetRewardIndex asset)
  | .pendingRewardsForAsset user asset => return .int (← pendingUserAssetRewardsView user asset)
  | .vestedRewardsForAsset user asset => return .int (← vestedUserAssetRewardsView user asset)
  | .isAssetSupported asset => return .bool (← Storage.isAssetSupported asset)

/-- One call of the contract. -/
def exec {τ : Type} (T : TokenClient τ) : Call → VaultM τ Value
  | .initializeVault admin depositToken rewardToken vestingPeriod targetDeposits multipliers => do
    initializeVault admin depositToken rewardToken vestingPeriod.toNat targetDeposits.val multipliers
    return .unit
  | .proposeNewAdmin newAdmin => do proposeNewAdmin newAdmin; return .unit
  | .acceptAdmin newAdmin => do acceptAdmin newAdmin; return .unit
  | .deposit user amount => do deposit T user amount.val; return .unit
  | .withdraw user amount => do withdraw T user amount.val; return .unit
  | .distributeRewards amount => return .int (← distributeRewards T amount.val)
  | .lock user amount durationSeconds => do
    lock user amount.val durationSeconds.toNat; return .unit
  | .unlockExpired user limit => return .int (← unlockExpired user limit.toNat)
  | .claimRewards user => return .int (← claimRewards T user)
  | .pauseContract => do pauseContract; return .unit
  | .unpauseContract => do unpauseContract; return .unit
  | .upgrade newWasmHash => do upgrade newWasmHash; return .unit
  | .addAsset admin asset => do addAsset admin asset; return .unit
  | .depositAsset user asset amount => do depositAsset T user asset amount.val; return .unit
  | .withdrawAsset user asset amount => do withdrawAsset T user asset amount.val; return .unit
  | .distributeRewardsForAsset admin asset amount =>
    return .int (← distributeRewardsForAsset T admin asset amount.val)
  | .claimRewardsForAsset user asset => return .int (← claimRewardsForAsset T user asset)
  | .view v => onStorage (execView v)

end Axionvera.Vault.Contract

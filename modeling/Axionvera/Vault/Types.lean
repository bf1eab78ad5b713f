import Axionvera.Lib.Host
import Axionvera.Lib.KeyValue
import Axionvera.Lib.MachineInt
import Axionvera.Vault.Errors

/-! # Data of the vault contract

`storage.rs`: one field of `Storage` for each variant of `DataKey`, absent until
it is written. `Lock`, `MultiplierPoint` and the keys `UserLiquidBalance` and
`UserLocks` are used by the source without being declared there; their shape is
read off their uses. Time-to-live bumps are not modelled: every one of them is
on a key that is present, and they change no value. -/
namespace Axionvera.Vault.Types
open Axionvera.Lib.Host Axionvera.Lib.KeyValue Axionvera.Vault.Errors

structure Address where
  id : Nat
  deriving DecidableEq, Repr

structure WasmHash where
  bytes : Nat
  deriving DecidableEq, Repr

structure MultiplierPoint where
  utilizationBps : UInt32
  multiplierBps : UInt32
  deriving DecidableEq

structure Lock where
  amount : Int
  unlockTimestamp : Nat
  rewardMultiplier : Nat
  deriving DecidableEq, Repr

structure VaultState where
  admin : Address
  depositToken : Address
  rewardToken : Address
  totalDeposits : Int
  rewardIndex : Int
  vestingPeriod : Nat
  targetDeposits : Int
  utilizationMultipliers : List MultiplierPoint
  deriving DecidableEq

structure UserPosition where
  balance : Int
  rewardIndex : Int
  accruedRewards : Int
  lastRewardTimestamp : Nat
  deriving DecidableEq, Repr

structure UserRewardSnapshot where
  rewardIndex : Int
  rewards : Int
  vestedRewards : Int
  deriving DecidableEq, Repr

structure Storage where
  initialized : Option Bool
  admin : Option Address
  pendingAdmin : Option Address
  depositToken : Option Address
  rewardToken : Option Address
  totalDeposits : Option Int
  rewardIndex : Option Int
  vestingPeriod : Option Nat
  targetDeposits : Option Int
  utilizationMultipliers : Option (List MultiplierPoint)
  reentrancyGuard : Option Bool
  isPaused : Option Bool
  /-- Declared as a key and never touched by this version of the contract. -/
  userBalance : FinMap Address Int
  userLiquidBalance : FinMap Address Int
  userLocks : FinMap Address (List Lock)
  userRewardIndex : FinMap Address Int
  userAccruedRewards : FinMap Address Int
  userLastRewardTimestamp : FinMap Address Nat
  supportedAssets : Option (FinMap Address Bool)
  assetTotalDeposits : FinMap Address Int
  assetRewardIndex : FinMap Address Int
  userAssetBalance : FinMap (Address × Address) Int
  userAssetRewardIndex : FinMap (Address × Address) Int
  userAssetAccruedRewards : FinMap (Address × Address) Int
  userAssetLastRewardTimestamp : FinMap (Address × Address) Nat

/-- The storage of a contract that was just deployed. -/
def Storage.fresh : Storage where
  initialized := none
  admin := none
  pendingAdmin := none
  depositToken := none
  rewardToken := none
  totalDeposits := none
  rewardIndex := none
  vestingPeriod := none
  targetDeposits := none
  utilizationMultipliers := none
  reentrancyGuard := none
  isPaused := none
  userBalance := .empty
  userLiquidBalance := .empty
  userLocks := .empty
  userRewardIndex := .empty
  userAccruedRewards := .empty
  userLastRewardTimestamp := .empty
  supportedAssets := none
  assetTotalDeposits := .empty
  assetRewardIndex := .empty
  userAssetBalance := .empty
  userAssetRewardIndex := .empty
  userAssetAccruedRewards := .empty
  userAssetLastRewardTimestamp := .empty

/-- Storage code runs at the ledger timestamp of its call. -/
abbrev StoreM := HostM Nat VaultError Storage

/-- `events.rs`, without the topics: the constructor stands for them. -/
inductive Event where
  | initialized (admin depositToken rewardToken : Address) (timestamp : Nat)
  | deposit (user : Address) (amount : Int) (timestamp : Nat)
  | withdraw (user : Address) (amount remainingBalance : Int) (timestamp : Nat)
  | distribute (caller : Address) (amount : Int) (timestamp : Nat)
  | claim (user : Address) (amount : Int) (timestamp : Nat)
  | lock (user : Address) (amount : Int) (unlockTimestamp timestamp : Nat)
  | unlock (user : Address) (amount : Int) (timestamp : Nat)
  | adminTransferProposed (currentAdmin pendingAdmin : Address) (timestamp : Nat)
  | adminTransferAccepted (previousAdmin newAdmin : Address) (timestamp : Nat)
  | upgrade (admin : Address) (newWasmHash : WasmHash) (timestamp : Nat)
  | assetAdded (asset : Address) (timestamp : Nat)
  | assetDeposit (user asset : Address) (amount : Int) (timestamp : Nat)
  | assetWithdraw (user asset : Address) (amount remainingBalance : Int) (timestamp : Nat)
  | assetDistribute (caller asset : Address) (amount : Int) (timestamp : Nat)
  | assetClaim (user asset : Address) (amount : Int) (timestamp : Nat)
  deriving DecidableEq, Repr

/-- Everything a call can read or change. `tokens` is the state of the token
contracts, which are not part of this repository. -/
structure World (τ : Type) where
  storage : Storage
  tokens : τ
  timestamp : Nat
  code : WasmHash
  events : List Event

/-- What the host knows about one call. A contract authorises only the calls it
makes itself, and the vault makes none to the vault, so its own address is never
among the authorising ones. -/
structure Env where
  currentContract : Address
  auths : Address → Bool
  selfUnsigned : auths currentContract = false
  uploaded : WasmHash → Bool

abbrev VaultM (τ : Type) := HostM Env VaultError (World τ)

end Axionvera.Vault.Types

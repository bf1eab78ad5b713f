import Mathlib.Data.List.Basic

/-! # Errors of the vault contract

`errors.rs`: the grouped error types and the one `VaultError` each of them
converts into with `?`. The table of categories and messages (`info`) is read
by no contract code and is left out. -/
namespace Axionvera.Vault.Errors

inductive VaultError where
  | alreadyInitialized
  | notInitialized
  | unauthorized
  | invalidAmount
  | insufficientBalance
  | mathOverflow
  | noDeposits
  | invalidTokenConfiguration
  | insufficientContractBalance
  | negativeAmount
  | invalidAddress
  | rewardCalculationFailed
  | reentrancyDetected
  | invalidState
  | zeroRewardIncrement
  | noPendingAdmin
  | rewardsNotVested
  | insufficientRewardAmount
  | invalidLockDuration
  | upgradeFailed
  | operationLimitExceeded
  | invalidUtilizationParameters
  deriving DecidableEq, Repr

inductive StateError where
  | alreadyInitialized
  | notInitialized
  | invalidState
  | noPendingAdmin

inductive ValidationError where
  | invalidAmount
  | negativeAmount
  | invalidAddress
  | invalidTokenConfiguration
  | insufficientRewardAmount
  | invalidLockDuration
  | invalidUtilizationParameters

inductive BalanceError where
  | insufficientBalance
  | insufficientContractBalance
  | noDeposits

inductive ArithmeticError where
  | overflow
  | rewardCalculationFailed
  | zeroRewardIncrement

inductive AuthorizationError where
  | unauthorized
  | reentrancyDetected
  | upgradeFailed
  | operationLimitExceeded

instance : Coe StateError VaultError where
  coe
    | .alreadyInitialized => .alreadyInitialized
    | .notInitialized => .notInitialized
    | .invalidState => .invalidState
    | .noPendingAdmin => .noPendingAdmin

instance : Coe ValidationError VaultError where
  coe
    | .invalidAmount => .invalidAmount
    | .negativeAmount => .negativeAmount
    | .invalidAddress => .invalidAddress
    | .invalidTokenConfiguration => .invalidTokenConfiguration
    | .insufficientRewardAmount => .insufficientRewardAmount
    | .invalidLockDuration => .invalidLockDuration
    | .invalidUtilizationParameters => .invalidUtilizationParameters

instance : Coe BalanceError VaultError where
  coe
    | .insufficientBalance => .insufficientBalance
    | .insufficientContractBalance => .insufficientContractBalance
    | .noDeposits => .noDeposits

instance : Coe ArithmeticError VaultError where
  coe
    | .overflow => .mathOverflow
    | .rewardCalculationFailed => .rewardCalculationFailed
    | .zeroRewardIncrement => .zeroRewardIncrement

instance : Coe AuthorizationError VaultError where
  coe
    | .unauthorized => .unauthorized
    | .reentrancyDetected => .reentrancyDetected
    | .upgradeFailed => .upgradeFailed
    | .operationLimitExceeded => .operationLimitExceeded

end Axionvera.Vault.Errors

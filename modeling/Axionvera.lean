import Axionvera.Lib.Fallible
import Axionvera.Lib.Host
import Axionvera.Lib.KeyValue
import Axionvera.Lib.MachineInt
import Axionvera.Lib.WordMath
import Axionvera.Lib.Transition
import Axionvera.Lib.Mealy
import Axionvera.Lib.Replay
import Axionvera.Lib.Ownership
import Axionvera.Lib.Override
import Axionvera.Lib.OwnKey
import Axionvera.Lib.Tally
import Axionvera.Lib.Interleaving
import Axionvera.Lib.Guards
import Axionvera.Lib.ExclusiveOr
import Axionvera.Lib.Circle
import Axionvera.Lib.Trim
import Axionvera.Lib.LeadingZeros
import Axionvera.Lib.Nearest
import Axionvera.Lib.RewardPool
import Axionvera.Lib.RewardLedger
import Axionvera.Lib.Resettling
import Axionvera.Vault.Errors
import Axionvera.Vault.Types
import Axionvera.Vault.Storage
import Axionvera.Vault.Contract
import Axionvera.Vault.Chain
import Axionvera.Vault.Accounts
import Axionvera.Vault.StorageSpec
import Axionvera.Vault.Effects
import Axionvera.Vault.Refinement
import Axionvera.Vault.OneMachine
import Axionvera.Vault.Views
import Axionvera.Vault.Principal
import Axionvera.Vault.Rewards
import Axionvera.Vault.Authority
import Axionvera.Vault.Pause
import Axionvera.Vault.Exit
import Axionvera.Vault.Locks
import Axionvera.Vault.Vesting
import Axionvera.Vault.Solvency
import Axionvera.Vault.EventLog
import Axionvera.Vault.Isolation
import Axionvera.Vault.VestedViews
import Axionvera.Vault.Callbacks
import Axionvera.Vault.Plans
import Axionvera.Vault.Reentrancy
import Axionvera.Vault.Ordering
import Axionvera.Vault.Upgrade
import Axionvera.Vault.Curve
import Axionvera.Vault.Unlocking
import Axionvera.Vault.BankRun
import Axionvera.Vault.Wealth
import Axionvera.Vault.Payouts
import Axionvera.Vault.ExtraClaims
import Axionvera.Vault.Accruals
import Axionvera.Node.Consensus
import Axionvera.Node.Voting
import Axionvera.Node.Agreement
import Axionvera.Node.Quorum
import Axionvera.Node.Interleaved
import Axionvera.Node.Races
import Axionvera.Node.EngineLocks
import Axionvera.Node.LoneCalls
import Axionvera.Node.Gossip
import Axionvera.Node.ChainParams
import Axionvera.Node.Registry
import Axionvera.Node.Endorsements
import Axionvera.Node.Schedule
import Axionvera.Node.Governance
import Axionvera.Node.Service
import Axionvera.Node.TickOrder
import Axionvera.Node.Approvals
import Axionvera.Node.Mandate
import Axionvera.Node.ParameterAuthority
import Axionvera.Node.AdminToken
import Axionvera.Node.GrpcServer
import Axionvera.Node.VotingPeriod
import Axionvera.Node.Horizon
import Axionvera.Node.Rotation
import Axionvera.Node.CircuitBreaker
import Axionvera.Node.HorizonLocks
import Axionvera.Node.Fallback
import Axionvera.Node.FailureCounts
import Axionvera.Node.FailureSurges
import Axionvera.Node.Signing
import Axionvera.Node.KeyCache
import Axionvera.Node.BatchVerification
import Axionvera.Node.WorkerPool
import Axionvera.Node.SorobanRpc
import Axionvera.Node.Failover
import Axionvera.Node.Indexer
import Axionvera.Node.RateLimiter
import Axionvera.Node.RedisLimiter
import Axionvera.Node.StateRoot
import Axionvera.Node.Snapshots
import Axionvera.Node.ConnectionTracker
import Axionvera.Node.Shutdown
import Axionvera.Node.ErrorBreakers
import Axionvera.Node.ErrorStatistics
import Axionvera.Node.BreakerRecovery
import Axionvera.Node.Kademlia
import Axionvera.Node.RequestNumbers

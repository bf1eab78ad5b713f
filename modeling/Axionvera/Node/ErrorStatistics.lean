import Axionvera.Lib.Tally
import Axionvera.Node.ErrorBreakers
import Mathlib.Data.List.DropRight

/-! # The statistics of the error middleware

`error.rs` and the statistics of `error_middleware.rs`. A call of `handle_error`
makes its record before it has the statistics' lock, so the order of the events
is the order in which the lock was given, whatever times the records carry. What
`{:?}` prints of an error is a parameter.

However calls and resets come, the statistics are the summary of the errors since
the last reset (`stats_summarise`). -/
namespace Axionvera.Node.ErrorStatistics
open Axionvera.Lib.Tally
open Axionvera.Node.ErrorBreakers (Time)

/-! ## Errors -/

inductive DatabaseError where
  | connectionFailed (text : String)
  | queryFailed (text : String)
  | transactionFailed (text : String)
  | poolExhausted
  | invalidConnectionString
  | migrationFailed (text : String)
  deriving DecidableEq

def DatabaseError.toString : DatabaseError → String
  | .connectionFailed text => s!"Connection failed: {text}"
  | .queryFailed text => s!"Query failed: {text}"
  | .transactionFailed text => s!"Transaction failed: {text}"
  | .poolExhausted => "Pool exhausted"
  | .invalidConnectionString => "Invalid connection string"
  | .migrationFailed text => s!"Migration failed: {text}"

/-- Errors of input and output and of serialization come with their text. -/
inductive NetworkError where
  | config (text : String)
  | database (error : DatabaseError)
  | server (text : String)
  | connection (text : String)
  | validation (text : String)
  | io (text : String)
  | serialization (text : String)
  | shutdownTimeout
  | cancelled
  | internal (text : String)
  | crypto (text : String)
  | kms (text : String)
  | kmsTimeout (text : String)
  | kmsRateLimit (text : String)
  | signer (text : String)
  | notImplemented (text : String)
  | horizonClient (text : String)
  | sorobanRpc (text : String)
  | transactionExpired
  | insufficientFee
  deriving DecidableEq

namespace NetworkError

def toString : NetworkError → String
  | .config text => s!"Configuration error: {text}"
  | .database error => s!"Database error: {error.toString}"
  | .server text => s!"Server error: {text}"
  | .connection text => s!"Connection error: {text}"
  | .validation text => s!"Validation error: {text}"
  | .io text => s!"IO error: {text}"
  | .serialization text => s!"Serialization error: {text}"
  | .shutdownTimeout => "Shutdown timeout exceeded"
  | .cancelled => "Operation cancelled"
  | .internal text => s!"Internal error: {text}"
  | .crypto text => s!"Cryptographic error: {text}"
  | .kms text => s!"KMS error: {text}"
  | .kmsTimeout text => s!"KMS timeout: {text}"
  | .kmsRateLimit text => s!"KMS rate limit: {text}"
  | .signer text => s!"Signer error: {text}"
  | .notImplemented text => s!"Not implemented: {text}"
  | .horizonClient text => s!"Horizon client error: {text}"
  | .sorobanRpc text => s!"Soroban RPC error: {text}"
  | .transactionExpired => "Transaction expired"
  | .insufficientFee => "Insufficient fee"

def errorCode : NetworkError → String
  | .config _ => "CONFIG_ERROR"
  | .database _ => "DATABASE_ERROR"
  | .server _ => "SERVER_ERROR"
  | .connection _ => "CONNECTION_ERROR"
  | .validation _ => "VALIDATION_ERROR"
  | .io _ => "IO_ERROR"
  | .serialization _ => "SERIALIZATION_ERROR"
  | .shutdownTimeout => "SHUTDOWN_TIMEOUT"
  | .cancelled => "CANCELLED"
  | .internal _ => "INTERNAL_ERROR"
  | .crypto _ => "CRYPTO_ERROR"
  | .kms _ => "KMS_ERROR"
  | .kmsTimeout _ => "KMS_TIMEOUT"
  | .kmsRateLimit _ => "KMS_RATE_LIMIT"
  | .signer _ => "SIGNER_ERROR"
  | .notImplemented _ => "NOT_IMPLEMENTED"
  | .horizonClient _ => "HORIZON_CLIENT_ERROR"
  | .sorobanRpc _ => "SOROBAN_RPC_ERROR"
  | .transactionExpired => "TRANSACTION_EXPIRED"
  | .insufficientFee => "INSUFFICIENT_FEE"

end NetworkError

/-! ## Statistics -/

/-- What is read of an error's context. -/
structure ErrorContext where
  operation : String
  component : String
  requestId : Option String

structure ErrorRecord where
  id : String
  errorType : String
  component : String
  operation : String
  message : String
  timestamp : Time
  requestId : Option String
  stackTrace : Option String
  deriving DecidableEq

structure ErrorStats where
  totalErrors : UInt64
  errorsByType : AList fun _ : String => UInt64
  errorsByComponent : AList fun _ : String => UInt64
  recentErrors : List ErrorRecord
  lastUpdated : Time

/-- `ErrorStats::default()`, dated to the epoch. -/
def ErrorStats.default : ErrorStats where
  totalErrors := 0
  errorsByType := ∅
  errorsByComponent := ∅
  recentErrors := []
  lastUpdated := 0

/-- What a call draws: the record's id and time, and the time at which it has the
lock. -/
structure Draw where
  id : String
  createdAt : Time
  recordedAt : Time

section Middleware
variable (logInternalErrors : Bool) (debug : NetworkError → String)

def createErrorRecord (error : NetworkError) (context : ErrorContext) (draw : Draw) :
    ErrorRecord where
  id := draw.id
  errorType := error.errorCode
  component := context.component
  operation := context.operation
  message := error.toString
  timestamp := draw.createdAt
  requestId := context.requestId
  stackTrace := if logInternalErrors then some (debug error) else none

def recordErrorStats (stats : ErrorStats) (error : NetworkError) (errorRecord : ErrorRecord)
    (now : Time) : ErrorStats :=
  let recent := stats.recentErrors ++ [errorRecord]
  { totalErrors := stats.totalErrors + 1
    errorsByType := bump stats.errorsByType error.errorCode
    errorsByComponent := bump stats.errorsByComponent errorRecord.component
    recentErrors := if 100 < recent.length then recent.drop 1 else recent
    lastUpdated := now }

inductive Event where
  | handleError (error : NetworkError) (context : ErrorContext) (draw : Draw)
  | resetStats

def after (stats : ErrorStats) : Event → ErrorStats
  | .handleError error context draw =>
    recordErrorStats stats error (createErrorRecord logInternalErrors debug error context draw)
      draw.recordedAt
  | .resetStats => .default

/-- The statistics after some events, latest first. -/
def reached (events : List Event) : ErrorStats :=
  events.foldr (fun e stats => after logInternalErrors debug stats e) .default

/-! ## What they summarise -/

/-- The errors since the last reset and when each was recorded, oldest first. -/
def sinceReset : List Event → List (ErrorRecord × Time)
  | [] => []
  | .handleError error context draw :: events =>
    sinceReset events ++
      [(createErrorRecord logInternalErrors debug error context draw, draw.recordedAt)]
  | .resetStats :: _ => []

end Middleware

structure Summarises (log : List (ErrorRecord × Time)) (stats : ErrorStats) : Prop where
  total : stats.totalErrors = UInt64.ofNat log.length
  byType : Counts stats.errorsByType (log.map fun entry => entry.1.errorType)
  byComponent : Counts stats.errorsByComponent (log.map fun entry => entry.1.component)
  sum_byType : sum stats.errorsByType ≡ log.length [MOD 2 ^ 64]
  sum_byComponent : sum stats.errorsByComponent ≡ log.length [MOD 2 ^ 64]
  recent : stats.recentErrors = (log.map Prod.fst).rtake 100
  updated : stats.lastUpdated = (log.getLast?.map Prod.snd).getD 0

variable {logInternalErrors : Bool} {debug : NetworkError → String} {stats : ErrorStats}
variable {log : List (ErrorRecord × Time)}

theorem summarises_default : Summarises [] .default where
  total := rfl
  byType := .nil
  byComponent := .nil
  sum_byType := rfl
  sum_byComponent := rfl
  recent := rfl
  updated := rfl

/-- Pushing and dropping the first keeps the last hundred. -/
theorem rtake_concat {α : Type} (l : List α) (x : α) (bound : Nat) :
    (if bound < (l.rtake bound ++ [x]).length then (l.rtake bound ++ [x]).drop 1
      else l.rtake bound ++ [x]) = (l ++ [x]).rtake bound := by
  have hpush : l.rtake bound ++ [x] = (l ++ [x]).drop (l.length - bound) :=
    (List.drop_append_of_le_length (Nat.sub_le _ _)).symm
  rw [hpush, List.rtake, List.length_append, List.length_singleton, List.length_drop,
    List.length_append, List.length_singleton]
  split
  · rename_i hfull
    rw [List.drop_drop]
    congr 1
    omega
  · rename_i hroom
    congr 1
    omega

theorem Summarises.record (h : Summarises log stats) (error : NetworkError)
    (context : ErrorContext) (draw : Draw) :
    Summarises
      (log ++ [(createErrorRecord logInternalErrors debug error context draw, draw.recordedAt)])
      (after logInternalErrors debug stats (.handleError error context draw)) where
  total := by
    rw [List.length_append, UInt64.ofNat_add, ← h.total]
    rfl
  byType := by
    rw [List.map_append]
    exact h.byType.bump _
  byComponent := by
    rw [List.map_append]
    exact h.byComponent.bump _
  sum_byType := by
    rw [List.length_append]
    exact (sum_bump _ _).trans (h.sum_byType.add_right 1)
  sum_byComponent := by
    rw [List.length_append]
    exact (sum_bump _ _).trans (h.sum_byComponent.add_right 1)
  recent := by
    rw [List.map_append]
    simp only [after, recordErrorStats, h.recent]
    exact rtake_concat _ _ 100
  updated := by
    rw [List.getLast?_concat]
    rfl

theorem stats_summarise (logInternalErrors : Bool) (debug : NetworkError → String)
    (events : List Event) :
    Summarises (sinceReset logInternalErrors debug events)
      (reached logInternalErrors debug events) := by
  induction events with
  | nil => exact summarises_default
  | cons e events ih =>
    cases e with
    | handleError error context draw => exact ih.record error context draw
    | resetStats => exact summarises_default

end Axionvera.Node.ErrorStatistics

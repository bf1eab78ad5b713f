import Mathlib.Data.List.AList

/-! # The breakers of the error middleware

The circuit breakers of `error_middleware.rs`: one for each component, moved by
the errors and the successes that are recorded for it. An error finds the time in
its own call. The counters are 64-bit words and wrap around. -/
namespace Axionvera.Node.ErrorBreakers

/-- A point in time, in nanoseconds. -/
abbrev Time : Type := Int

structure ErrorMiddlewareConfig where
  enableCircuitBreaker : Bool
  circuitBreakerThreshold : UInt64
  /-- In nanoseconds. -/
  circuitBreakerTimeout : Nat

/-- `Closed`, `Open` and `HalfOpen`. -/
inductive CircuitBreakerState where
  | closed
  | opened
  | halfOpen
  deriving DecidableEq

structure CircuitBreaker where
  state : CircuitBreakerState
  failureCount : UInt64
  lastFailureTime : Option Time
  successCount : UInt64
  deriving DecidableEq

namespace CircuitBreaker

/-- The breaker that is inserted at the first error and by a reset. -/
def initial : CircuitBreaker where
  state := .closed
  failureCount := 0
  lastFailureTime := none
  successCount := 0

/-- The timeout has passed since the breaker opened. -/
def timeoutPassed (config : ErrorMiddlewareConfig) (now : Time) (b : CircuitBreaker) : Bool :=
  b.lastFailureTime.any fun lastFailure =>
    decide ((config.circuitBreakerTimeout : Int) < now - lastFailure)

/-- What `check_circuit_breaker` makes of the breaker of its component. -/
def recordError (config : ErrorMiddlewareConfig) (now : Time) (b : CircuitBreaker) :
    CircuitBreaker :=
  let b := { b with failureCount := b.failureCount + 1 }
  match b.state with
  | .closed =>
    if config.circuitBreakerThreshold ≤ b.failureCount then
      { b with state := .opened, lastFailureTime := some now }
    else b
  | .opened => if b.timeoutPassed config now then { b with state := .halfOpen } else b
  | .halfOpen => { b with state := .opened, lastFailureTime := some now }

/-- What `record_success` makes of it. -/
def recordSuccess (b : CircuitBreaker) : CircuitBreaker :=
  let b := { b with successCount := b.successCount + 1 }
  match b.state with
  | .halfOpen =>
    if 3 ≤ b.successCount then { b with state := .closed, failureCount := 0, successCount := 0 }
    else b
  | _ => b

end CircuitBreaker

structure ErrorMiddleware where
  config : ErrorMiddlewareConfig
  circuitBreakers : AList fun _ : String => CircuitBreaker

namespace ErrorMiddleware

def new (config : ErrorMiddlewareConfig) : ErrorMiddleware where
  config := config
  circuitBreakers := ∅

def checkCircuitBreaker (m : ErrorMiddleware) (component : String) (now : Time) :
    ErrorMiddleware :=
  let breaker := (m.circuitBreakers.lookup component).getD .initial
  { m with
    circuitBreakers := m.circuitBreakers.insert component (breaker.recordError m.config now) }

/-- The part of `handle_error` that concerns the breakers. -/
def handleError (m : ErrorMiddleware) (component : String) (now : Time) : ErrorMiddleware :=
  if m.config.enableCircuitBreaker then m.checkCircuitBreaker component now else m

def recordSuccess (m : ErrorMiddleware) (component : String) : ErrorMiddleware :=
  if !m.config.enableCircuitBreaker then m
  else
    match m.circuitBreakers.lookup component with
    | some breaker =>
      { m with circuitBreakers := m.circuitBreakers.insert component breaker.recordSuccess }
    | none => m

def isCircuitBreakerOpen (m : ErrorMiddleware) (component : String) : Bool :=
  if !m.config.enableCircuitBreaker then false
  else (m.circuitBreakers.lookup component).any fun breaker => decide (breaker.state = .opened)

def resetCircuitBreaker (m : ErrorMiddleware) (component : String) : ErrorMiddleware :=
  { m with circuitBreakers := m.circuitBreakers.insert component .initial }

end ErrorMiddleware

/-! ## Events -/

inductive Event where
  | handleError (component : String) (now : Time)
  | recordSuccess (component : String)
  | resetCircuitBreaker (component : String)
  deriving DecidableEq

def after (m : ErrorMiddleware) : Event → ErrorMiddleware
  | .handleError component now => m.handleError component now
  | .recordSuccess component => m.recordSuccess component
  | .resetCircuitBreaker component => m.resetCircuitBreaker component

/-- The middleware after some events, latest first. -/
def reached (config : ErrorMiddlewareConfig) (events : List Event) : ErrorMiddleware :=
  events.foldr (fun e m => after m e) (.new config)

/-- What an event makes of the breaker of one component. -/
def breakerAfter (config : ErrorMiddlewareConfig) (component : String) (e : Event)
    (b : Option CircuitBreaker) : Option CircuitBreaker :=
  match e with
  | .handleError c now =>
    if c = component ∧ config.enableCircuitBreaker = true then
      some ((b.getD .initial).recordError config now)
    else b
  | .recordSuccess c =>
    if c = component ∧ config.enableCircuitBreaker = true then b.map .recordSuccess else b
  | .resetCircuitBreaker c => if c = component then some .initial else b

variable {config : ErrorMiddlewareConfig} {events : List Event} {component : String} {e : Event}
  {m : ErrorMiddleware}

theorem after_config (m : ErrorMiddleware) (e : Event) : (after m e).config = m.config := by
  cases e with
  | handleError c now =>
    rw [after, ErrorMiddleware.handleError]
    split <;> rfl
  | recordSuccess c =>
    rw [after, ErrorMiddleware.recordSuccess]
    split
    · rfl
    · split <;> rfl
  | resetCircuitBreaker c => rfl

theorem reached_config (events : List Event) : (reached config events).config = config := by
  induction events with
  | nil => rfl
  | cons e events ih => exact (after_config _ e).trans ih

theorem lookup_insert {breakers : AList fun _ : String => CircuitBreaker} {c : String}
    {b : CircuitBreaker} : (breakers.insert c b).lookup component =
      if c = component then some b else breakers.lookup component := by
  split
  · rename_i heq
    rw [heq]
    exact AList.lookup_insert _
  · rename_i hne
    exact AList.lookup_insert_ne (Ne.symm hne)

/-- The breakers of the components do not depend on one another. -/
theorem lookup_after (m : ErrorMiddleware) (e : Event) (component : String) :
    (after m e).circuitBreakers.lookup component =
      breakerAfter m.config component e (m.circuitBreakers.lookup component) := by
  cases e with
  | handleError c now =>
    rw [after, ErrorMiddleware.handleError, breakerAfter]
    by_cases henabled : m.config.enableCircuitBreaker = true
    · simp only [henabled, if_true, and_true, ErrorMiddleware.checkCircuitBreaker, lookup_insert]
      split
      · rename_i heq
        rw [heq]
      · rfl
    · simp [henabled]
  | recordSuccess c =>
    rw [after, ErrorMiddleware.recordSuccess, breakerAfter]
    by_cases henabled : m.config.enableCircuitBreaker = true
    · simp only [henabled, Bool.not_true, Bool.false_eq_true, if_false, and_true]
      cases hfound : m.circuitBreakers.lookup c with
      | none =>
        dsimp only
        split
        · rename_i heq
          rw [← heq, hfound]
          rfl
        · rfl
      | some breaker =>
        dsimp only
        rw [lookup_insert]
        split
        · rename_i heq
          rw [← heq, hfound]
          rfl
        · rfl
    · simp [henabled]
  | resetCircuitBreaker c => exact lookup_insert

/-- The breaker of a component after some events. -/
def breaker (config : ErrorMiddlewareConfig) (component : String) (events : List Event) :
    Option CircuitBreaker :=
  (reached config events).circuitBreakers.lookup component

theorem breaker_cons (e : Event) (events : List Event) :
    breaker config component (e :: events) =
      breakerAfter config component e (breaker config component events) := by
  have hafter := lookup_after (reached config events) e component
  rw [reached_config] at hafter
  exact hafter

end Axionvera.Node.ErrorBreakers

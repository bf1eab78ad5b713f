import Mathlib.Data.List.Sort

/-! # The Horizon client

`horizon_client.rs`: a list of providers with a circuit breaker each, the
selection of the provider for a request, and the request loop with its fallback.
The outcome of an operation and the time at which it is recorded are what a
request finds around it. The functions here run one call at a time; `choose` and
`chooseNext` are the parts that the source runs under its two locks. -/
namespace Axionvera.Node.Horizon

/-- A point on the monotone clock, in nanoseconds. -/
abbrev Instant : Type := Nat

structure HorizonProvider where
  url : String
  name : String
  priority : UInt8
  deriving DecidableEq

structure HorizonConfig where
  providers : List HorizonProvider
  circuitBreakerFailureThreshold : UInt8
  circuitBreakerRecoveryTimeoutSeconds : UInt64

/-- `Duration::from_secs(circuit_breaker_recovery_timeout_seconds)`. -/
def HorizonConfig.recoveryTimeout (config : HorizonConfig) : Nat :=
  config.circuitBreakerRecoveryTimeoutSeconds.toNat * 1000000000

/-- The variant that the client returns. -/
inductive NetworkError where
  | horizonClient (text : String)
  deriving DecidableEq

/-! ## The circuit breaker of a provider -/

/-- `Closed`, `Open` and `HalfOpen`. -/
inductive CircuitBreakerState where
  | closed
  | opened
  | halfOpen
  deriving DecidableEq

structure ProviderStatus where
  provider : HorizonProvider
  failureCount : UInt8
  lastFailureTime : Option Instant
  circuitState : CircuitBreakerState
  isHealthy : Bool
  lastHealthCheck : Option Instant
  deriving DecidableEq

namespace ProviderStatus

def new (provider : HorizonProvider) : ProviderStatus where
  provider := provider
  failureCount := 0
  lastFailureTime := none
  circuitState := .closed
  isHealthy := true
  lastHealthCheck := none

def recordFailure (now : Instant) (threshold : UInt8) (st : ProviderStatus) : ProviderStatus :=
  let failureCount := st.failureCount + 1
  { st with
    failureCount := failureCount
    lastFailureTime := some now
    circuitState := if threshold ≤ failureCount then .opened else st.circuitState }

def recordSuccess (now : Instant) (st : ProviderStatus) : ProviderStatus :=
  { st with
    failureCount := 0
    lastFailureTime := none
    isHealthy := true
    lastHealthCheck := some now
    circuitState := if st.circuitState = .halfOpen then .closed else st.circuitState }

/-- The source calls this in its tests only. -/
def shouldAttemptReset (now recoveryTimeout : Nat) (st : ProviderStatus) : Bool :=
  if st.circuitState = .opened then
    match st.lastFailureTime with
    | some lastFailure => decide (recoveryTimeout < now - lastFailure)
    | none => true
  else false

def canExecuteRequest (st : ProviderStatus) : Bool :=
  match st.circuitState with
  | .closed => st.isHealthy
  | .opened => false
  | .halfOpen => true

/-- The update that a health check makes. -/
def recordHealth (now : Instant) (isHealthy : Bool) (st : ProviderStatus) : ProviderStatus :=
  { st with isHealthy := isHealthy, lastHealthCheck := some now }

end ProviderStatus

/-! ## Selection -/

/-- Where `find(|p| p.provider.url == url)` stops. -/
def position (providers : List ProviderStatus) (url : String) : Option Nat :=
  providers.findIdx? fun st => st.provider.url = url

/-- A change of the status with the given address, if there is one. -/
def update (providers : List ProviderStatus) (url : String) (f : ProviderStatus → ProviderStatus) :
    List ProviderStatus :=
  match position providers url with
  | some i => providers.modify i f
  | none => providers

/-- The current provider if it can serve, or else the first other one that can. -/
def choose (providers : List ProviderStatus) (currentIndex : Nat) :
    Except NetworkError HorizonProvider :=
  match (providers[currentIndex]?).filter ProviderStatus.canExecuteRequest with
  | some st => .ok st.provider
  | none =>
    match providers.zipIdx.find? fun x => decide (x.2 ≠ currentIndex) && x.1.canExecuteRequest with
    | some x => .ok x.1.provider
    | none => .error (.horizonClient "No healthy Horizon providers available")

/-- The first provider after the current one, in a circle, that can serve. -/
def chooseNext (providers : List ProviderStatus) (currentIndex : Nat) :
    Option (Nat × HorizonProvider) :=
  (List.range providers.length).findSome? fun i =>
    let nextIndex := (currentIndex + i + 1) % providers.length
    ((providers[nextIndex]?).filter ProviderStatus.canExecuteRequest).map fun st =>
      (nextIndex, st.provider)

/-! ## The client -/

structure HorizonClient where
  config : HorizonConfig
  providers : List ProviderStatus
  currentProviderIndex : Nat

namespace HorizonClient

def new (config : HorizonConfig) : HorizonClient where
  config := config
  providers := (config.providers.map ProviderStatus.new).insertionSort
    fun p q => p.provider.priority ≤ q.provider.priority
  currentProviderIndex := 0

def getCurrentProvider (c : HorizonClient) : Except NetworkError HorizonProvider :=
  choose c.providers c.currentProviderIndex

def switchProvider (c : HorizonClient) : Except NetworkError HorizonProvider × HorizonClient :=
  match chooseNext c.providers c.currentProviderIndex with
  | some (nextIndex, provider) => (.ok provider, { c with currentProviderIndex := nextIndex })
  | none => (.error (.horizonClient "No healthy fallback providers available"), c)

def recordProviderSuccess (c : HorizonClient) (provider : HorizonProvider) (now : Instant) :
    HorizonClient :=
  { c with providers := update c.providers provider.url (·.recordSuccess now) }

/-- With whether the circuit is open afterwards. -/
def recordProviderFailure (c : HorizonClient) (provider : HorizonProvider) (now : Instant) :
    Bool × HorizonClient :=
  let providers := update c.providers provider.url
    (·.recordFailure now c.config.circuitBreakerFailureThreshold)
  ((providers.find? fun st => st.provider.url = provider.url).any fun st =>
      decide (st.circuitState = .opened),
    { c with providers := providers })

/-- What `health_check_all` writes for one provider. -/
def recordHealthCheck (c : HorizonClient) (provider : HorizonProvider) (isHealthy : Bool)
    (now : Instant) : HorizonClient :=
  { c with providers := update c.providers provider.url (·.recordHealth now isHealthy) }

end HorizonClient

theorem switchProvider_providers (c : HorizonClient) : c.switchProvider.2.providers = c.providers := by
  unfold HorizonClient.switchProvider
  cases chooseNext c.providers c.currentProviderIndex with
  | none => rfl
  | some next => rfl

theorem switchProvider_config (c : HorizonClient) : c.switchProvider.2.config = c.config := by
  unfold HorizonClient.switchProvider
  cases chooseNext c.providers c.currentProviderIndex with
  | none => rfl
  | some next => rfl

/-! ## Requests -/

/-- How an operation ends and when that is recorded. -/
structure Response (α : Type) where
  result : Except String α
  recordedAt : Instant

/-- What a request did: the providers on which the operation was attempted, the
result and the client it leaves. -/
structure Execution (α : Type) where
  attempted : List HorizonProvider
  result : Except NetworkError α
  client : HorizonClient

/-- The loop of `execute_request`. A round is the last one when `remaining` is
zero, that is, when as many rounds as there are providers have been made. -/
def executeFrom {α : Type} (operation : Nat → HorizonProvider → Response α) :
    Nat → HorizonClient → Execution α
  | remaining, c =>
    match c.getCurrentProvider with
    | .error e =>
      match remaining with
      | 0 => ⟨[], .error e, c⟩
      | rest + 1 =>
        match c.switchProvider with
        | (.error e, c) => ⟨[], .error e, c⟩
        | (.ok _, c) => executeFrom operation rest c
    | .ok provider =>
      let response := operation remaining provider
      match response.result with
      | .ok value => ⟨[provider], .ok value, c.recordProviderSuccess provider response.recordedAt⟩
      | .error text =>
        match c.recordProviderFailure provider response.recordedAt, remaining with
        | (true, c), rest + 1 =>
          match c.switchProvider with
          | (.error (.horizonClient why), c) =>
            ⟨[provider], .error (.horizonClient
              s!"Failed to switch provider: Horizon client error: {why}"), c⟩
          | (.ok _, c) =>
            let later := executeFrom operation rest c
            { later with attempted := provider :: later.attempted }
        | (_, c), _ =>
          ⟨[provider], .error (.horizonClient s!"All Horizon providers failed: {text}"), c⟩

namespace HorizonClient

def executeRequest {α : Type} (c : HorizonClient) (operation : Nat → HorizonProvider → Response α) :
    Execution α :=
  executeFrom operation (c.config.providers.length - 1) c

end HorizonClient

end Axionvera.Node.Horizon

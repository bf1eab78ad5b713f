import Axionvera.Lib.Mealy
import Axionvera.Node.AdminToken
import Axionvera.Node.Registry

/-! # Parameter upgrades over gRPC

The gRPC server as far as it works on the registry of chain parameters:
`grpc/server.rs` with its interceptor in front of `grpc/network_service.rs` and
of `grpc/gateway_service.rs`, which calls the former. Each request holds the
registry's lock while it works on it, so requests reach it one after the other;
what a request draws (a number for its transaction, the time) comes with it. The
messages of the two services that differ in their name only are one type.

Only upgrades that carry the administrators' token are noticed by anybody else
(`bystanders_unnoticed`). The upgrades that were acknowledged are those that are
recorded, in that order (`acknowledged_recorded`), as long as the clock is right:
it is read after the upgrade was scheduled (`parameterUpgrade_cases`). -/
namespace Axionvera.Node.GrpcServer
open Axionvera.Lib.Fallible Axionvera.Lib.Mealy
open Axionvera.Node.ChainParams Axionvera.Node.Registry Axionvera.Node.AdminToken

/-! ## Messages -/

/-- The gateway's message; the network service's has no `request_id`. -/
structure ParameterUpgradeRequest where
  parameterPatch : Option NetworkParametersPatch
  activationEpochHeight : UInt64
  proposerAddress : String
  proposerSignature : List UInt8 := []
  nonce : UInt64 := 0
  daoVoterAddresses : List String
  requestId : String := ""

structure Timestamp where
  seconds : Int64
  nanos : Int32
  deriving DecidableEq

structure TransactionResponse where
  success : Bool
  transactionHash : String
  errorMessage : String
  gasUsed : UInt64
  timestamp : Timestamp
  events : List (String × String)
  deriving DecidableEq

structure GatewayTransactionResponse extends TransactionResponse where
  requestId : String
  processingTimeMs : UInt64
  statusUrl : String
  deriving DecidableEq

structure ChainParametersView where
  chainId : String
  currentBlockHeight : UInt64
  activeParameters : NetworkParameters
  minActivationDelayBlocks : UInt64
  genesisParameters : NetworkParameters
  deriving DecidableEq

/-- What a request draws. The clock gives the seconds and nanoseconds since the
epoch, or nothing if it is before it. -/
structure Draw where
  uuid : Nat
  clock : Option (UInt64 × UInt32)
  requestNumber : UInt64
  elapsedMs : UInt64

/-! ## The services -/

/-- Signatures are not looked at. -/
def validateSignature (_userAddress : String) (_signature : List UInt8) (_nonce : UInt64) :
    Except String Bool :=
  .ok true

def timestamp (draw : Draw) : Except Status Timestamp :=
  match draw.clock with
  | some (secs, nanos) => .ok ⟨secs.toInt64, nanos.toInt32⟩
  | none => .error ⟨.internal, "Timestamp error: second time provided was later than self"⟩

/-- The check of `parameter_upgrade` on whoever proposes. -/
def checkProposer (req : ParameterUpgradeRequest) : Except Status Unit :=
  if trimmed req.proposerAddress ≠ "" then do
    let valid ← (validateSignature req.proposerAddress req.proposerSignature req.nonce).mapError
      fun e => ⟨.internal, s!"Validation error: {e}"⟩
    failIf (¬ valid) ⟨.invalidArgument, "Invalid proposer signature"⟩
  else .ok ()

/-- `parameter_upgrade` before it takes the lock. -/
def readPatch (req : ParameterUpgradeRequest) : Except Status NetworkParametersPatch :=
  match req.parameterPatch with
  | none => .error ⟨.invalidArgument, "parameter_patch is required"⟩
  | some patch => do
    checkProposer req
    return patch

def upgradeResponse (req : ParameterUpgradeRequest) (txId : String) (time : Timestamp) :
    TransactionResponse where
  success := true
  transactionHash := txId
  errorMessage := ""
  gasUsed := 0
  timestamp := time
  events := [("activation_epoch_height", toString req.activationEpochHeight),
    ("tx_type", "PARAMETER_UPGRADE")]

/-- `NetworkServiceImpl::parameter_upgrade`. The clock is read after the upgrade
is in the registry, and a failure then leaves it there. -/
def parameterUpgrade (draw : Draw) (r : ChainParameterRegistry) (req : ParameterUpgradeRequest) :
    Except Status TransactionResponse × ChainParameterRegistry :=
  match readPatch req with
  | .error e => (.error e, r)
  | .ok patch =>
    match r.submitParameterUpgrade draw.uuid patch req.activationEpochHeight req.proposerAddress
        req.daoVoterAddresses with
    | .error e => (.error ⟨.permissionDenied, e⟩, r)
    | .ok (txId, r') => ((timestamp draw).map (upgradeResponse req txId), r')

def getChainParameters (r : ChainParameterRegistry) : ChainParametersView where
  chainId := r.chainId
  currentBlockHeight := r.currentHeight
  activeParameters := r.activeParameters
  minActivationDelayBlocks := r.minActivationDelayBlocks
  genesisParameters := r.genesisParameters

/-- `GatewayServiceImpl::generate_request_id`. -/
def generateRequestId (draw : Draw) : String := s!"req_{draw.requestNumber}"

/-- What `GatewayServiceImpl::parameter_upgrade` makes of the network service's
answer. -/
def gatewayResponse (draw : Draw) (req : ParameterUpgradeRequest) (nr : TransactionResponse) :
    GatewayTransactionResponse :=
  { nr with
    requestId := if req.requestId = "" then generateRequestId draw else req.requestId
    processingTimeMs := draw.elapsedMs
    statusUrl := s!"/v1/transaction/{nr.transactionHash}/status" }

/-! ## The server -/

inductive Service where
  | network
  | gateway
  deriving DecidableEq

/-- The methods of the services. Only the message that changes the registry is
kept. -/
inductive Rpc where
  | deposit
  | withdraw
  | distributeRewards
  | claimRewards
  | getBalance
  | getRewards
  | getContractState
  | getTransaction
  | getTransactionHistory
  | parameterUpgrade (request : ParameterUpgradeRequest)
  | getChainParameters
  | listPendingParameterUpgrades
  | getNetworkStatus
  | getNodeInfo
  | checkHealth
  | watchHealth
  | getTvl

def Rpc.name : Rpc → String
  | .deposit => "Deposit"
  | .withdraw => "Withdraw"
  | .distributeRewards => "DistributeRewards"
  | .claimRewards => "ClaimRewards"
  | .getBalance => "GetBalance"
  | .getRewards => "GetRewards"
  | .getContractState => "GetContractState"
  | .getTransaction => "GetTransaction"
  | .getTransactionHistory => "GetTransactionHistory"
  | .parameterUpgrade _ => "ParameterUpgrade"
  | .getChainParameters => "GetChainParameters"
  | .listPendingParameterUpgrades => "ListPendingParameterUpgrades"
  | .getNetworkStatus => "GetNetworkStatus"
  | .getNodeInfo => "GetNodeInfo"
  | .checkHealth => "CheckHealth"
  | .watchHealth => "WatchHealth"
  | .getTvl => "GetTVL"

/-- The message of an upgrade. -/
def Rpc.upgrade? : Rpc → Option ParameterUpgradeRequest
  | .parameterUpgrade request => some request
  | _ => none

def path : Service → Rpc → String
  | .network, rpc => "/axionvera.network.NetworkService/" ++ rpc.name
  | .gateway, rpc => "/axionvera.gateway.GatewayService/" ++ rpc.name

/-- Answers, as far as they depend on the registry. -/
inductive Reply where
  | transaction (response : TransactionResponse)
  | gatewayTransaction (response : GatewayTransactionResponse)
  | chainParameters (view : ChainParametersView)
  | pendingUpgrades (pending : List ScheduledUpgradeRecord)
  | networkStatus (blockHeight : UInt64) (lastBlockTime : Timestamp)
  | other
  deriving DecidableEq

def handle (draw : Draw) (r : ChainParameterRegistry) :
    Service → Rpc → Except Status Reply × ChainParameterRegistry
  | .network, .parameterUpgrade req =>
    let out := parameterUpgrade draw r req
    (out.1.map .transaction, out.2)
  | .gateway, .parameterUpgrade req =>
    let out := parameterUpgrade draw r req
    (out.1.map fun nr => .gatewayTransaction (gatewayResponse draw req nr), out.2)
  | _, .getChainParameters => (.ok (.chainParameters (getChainParameters r)), r)
  | _, .listPendingParameterUpgrades => (.ok (.pendingUpgrades r.pendingUpgrades), r)
  | _, .getNetworkStatus => ((timestamp draw).map (.networkStatus r.currentHeight), r)
  | _, _ => (.ok .other, r)

structure GrpcRequest where
  service : Service
  rpc : Rpc
  metadata : MetadataMap

section Server
variable (pkg : Packages) (auth : AdminAuthInterceptor)

/-- A request passes the interceptor before it is handled. -/
def serve (draw : Draw) (r : ChainParameterRegistry) (q : GrpcRequest) :
    Except Status Reply × ChainParameterRegistry :=
  match auth.call pkg (path q.service q.rpc) q.metadata with
  | .error e => (.error e, r)
  | .ok () => handle draw r q.service q.rpc

/-- What happens to a registry: requests, and calls by the node itself. -/
inductive Event where
  | request (q : GrpcRequest) (draw : Draw)
  | call (c : RegistryCall)

inductive Answer where
  | reply (reply : Except Status Reply)
  | submitted (txId : Option String)

/-- The transaction number that a call gives out. -/
def submittedBy (r : ChainParameterRegistry) : RegistryCall → Option String
  | .submitParameterUpgrade uuid patch activation proposer voters =>
    (r.submitParameterUpgrade uuid patch activation proposer voters).toOption.map Prod.fst
  | _ => none

def next (r : ChainParameterRegistry) : Event → Answer × ChainParameterRegistry
  | .request q draw =>
    let out := serve pkg auth draw r q
    (.reply out.1, out.2)
  | .call c => (.submitted (submittedBy r c), c.after r)

end Server

/-! ## Who is noticed -/

variable {pkg : Packages} {auth : AdminAuthInterceptor}
variable {r r' : ChainParameterRegistry} {draw : Draw}

/-- The events that may change the registry. -/
def Commands (pkg : Packages) (auth : AdminAuthInterceptor) : Event → Prop
  | .request q _ => q.rpc.upgrade?.isSome = true ∧ auth.Authentic pkg q.metadata
  | .call _ => True

instance (e : Event) : Decidable (Commands pkg auth e) :=
  match e with
  | .request q _ =>
    inferInstanceAs (Decidable (q.rpc.upgrade?.isSome = true ∧
      auth.Authentic pkg q.metadata))
  | .call _ => isTrue trivial

theorem path_mem_adminGrpcPaths (service : Service) (req : ParameterUpgradeRequest) :
    path service (.parameterUpgrade req) ∈ adminGrpcPaths := by
  cases service with
  | network =>
    change "/axionvera.network.NetworkService/" ++ "ParameterUpgrade" ∈ adminGrpcPaths
    decide
  | gateway =>
    change "/axionvera.gateway.GatewayService/" ++ "ParameterUpgrade" ∈ adminGrpcPaths
    decide

/-- Only upgrades work on the registry. -/
theorem handle_of_not_upgrade {service : Service} {rpc : Rpc} (h : rpc.upgrade? = none) :
    (handle draw r service rpc).2 = r := by
  cases rpc with
  | parameterUpgrade req => cases h
  | _ => cases service <;> rfl

theorem next_of_not_commands {e : Event} (h : ¬ Commands pkg auth e) :
    (next pkg auth r e).2 = r := by
  cases e with
  | call c => exact absurd trivial h
  | request q draw =>
    obtain ⟨service, rpc, metadata⟩ := q
    simp only [next, serve]
    split
    · rfl
    · rename_i hpass
      rw [AdminAuthInterceptor.call_eq_ok] at hpass
      cases rpc with
      | parameterUpgrade req => exact absurd ⟨rfl, hpass (path_mem_adminGrpcPaths service req)⟩ h
      | _ => exact handle_of_not_upgrade rfl

/-- A sum that tells one token from all others, and the texts that `to_str` lets
pass: visible ASCII characters, spaces and tabs. -/
def sample : Packages where
  sha256Hex t := if t = "s3cret" then "64ab" else "00"
  toStr value :=
    if value.all fun b => b == 9 || (32 ≤ b && b < 127) then
      some (String.ofList (value.map fun b => Char.ofNat b.toNat))
    else none

def guarded : AdminAuthInterceptor := .new (some " 64AB")

def bearer : MetadataMap :=
  [("authorization", " bEARER  s3cret ".toList.map fun c => c.toNat.toUInt8)]

def widening : ParameterUpgradeRequest where
  parameterPatch := some largerBlocks
  activationEpochHeight := 12
  proposerAddress := "guest"
  daoVoterAddresses := ["m1", "m2"]

/-- An upgrade without and one with the token, a new block and a question. -/
def evening : List Event :=
  [ .request ⟨.network, .parameterUpgrade widening, []⟩ ⟨6, some (0, 0), 0, 0⟩,
    .request ⟨.gateway, .parameterUpgrade widening, bearer⟩ ⟨7, some (1, 0), 0, 0⟩,
    .call (.setChainTipHeight 11),
    .request ⟨.network, .getChainParameters, []⟩ ⟨0, some (2, 0), 0, 0⟩ ]

/-- What `parameter_upgrade` can do. -/
inductive Upgraded (draw : Draw) (r : ChainParameterRegistry) (req : ParameterUpgradeRequest) :
    Except Status TransactionResponse × ChainParameterRegistry → Prop
  | refused (e : Status) : Upgraded draw r req (.error e, r)
  | scheduled {patch : NetworkParametersPatch} {time : Timestamp}
      (hpatch : req.parameterPatch = some patch)
      (h : Accepts r patch req.activationEpochHeight req.proposerAddress req.daoVoterAddresses) :
      Upgraded draw r req (.ok (upgradeResponse req (transactionId draw.uuid) time),
        r.schedule draw.uuid patch req.activationEpochHeight)
  | unacknowledged {patch : NetworkParametersPatch} (e : Status) (hclock : draw.clock = none)
      (hpatch : req.parameterPatch = some patch)
      (h : Accepts r patch req.activationEpochHeight req.proposerAddress req.daoVoterAddresses) :
      Upgraded draw r req (.error e, r.schedule draw.uuid patch req.activationEpochHeight)

theorem readPatch_eq_ok {req : ParameterUpgradeRequest} {patch : NetworkParametersPatch}
    (h : readPatch req = .ok patch) : req.parameterPatch = some patch := by
  rw [readPatch] at h
  split at h
  · cases h
  · rename_i p hp
    simp only [bind_eq_ok, pure_eq_ok] at h
    obtain ⟨_, -, rfl⟩ := h
    exact hp

theorem parameterUpgrade_cases (draw : Draw) (r : ChainParameterRegistry)
    (req : ParameterUpgradeRequest) : Upgraded draw r req (parameterUpgrade draw r req) := by
  rw [parameterUpgrade]
  split
  · exact .refused _
  · rename_i patch hread
    have hpatch := readPatch_eq_ok hread
    split
    · exact .refused _
    · rename_i txId r' hsubmit
      obtain ⟨hacc, hout⟩ := submitParameterUpgrade_eq_ok.mp hsubmit
      cases hout
      cases hclock : draw.clock with
      | some now =>
        simp only [timestamp, hclock]
        exact .scheduled hpatch hacc
      | none =>
        simp only [timestamp, hclock]
        exact .unacknowledged _ hclock hpatch hacc

/-- What a client keeps of an upgrade. -/
structure Receipt where
  transactionId : String
  activationEpochHeight : UInt64
  patch : NetworkParametersPatch
  deriving DecidableEq

def receiptOf (record : ScheduledUpgradeRecord) : Receipt :=
  ⟨record.transactionId, record.activationEpochHeight, record.patch⟩

/-- The number in the answer to an upgrade. -/
def Reply.transactionHash? : Reply → Option String
  | .transaction response => some response.transactionHash
  | .gatewayTransaction response => some response.transactionHash
  | _ => none

/-- The receipt for an upgrade that was acknowledged. -/
def acknowledged : Event × Answer → Option Receipt
  | (.request q _, .reply (.ok reply)) => do
    let txId ← reply.transactionHash?
    let req ← q.rpc.upgrade?
    let patch ← req.parameterPatch
    return ⟨txId, req.activationEpochHeight, patch⟩
  | (.call (.submitParameterUpgrade _ patch activation _ _), .submitted (some txId)) =>
    some ⟨txId, activation, patch⟩
  | _ => none

/-- The receipts for all recorded upgrades. -/
def receipts (r : ChainParameterRegistry) : List Receipt := r.upgradeHistory.map receiptOf

theorem receipts_schedule (r : ChainParameterRegistry) (uuid : Nat) (patch : NetworkParametersPatch)
    (activation : UInt64) :
    receipts (r.schedule uuid patch activation) =
      receipts r ++ [⟨transactionId uuid, activation, patch⟩] := by
  simp [receipts, ChainParameterRegistry.schedule, receiptOf]

-- With a clock before the epoch an upgrade is reported as failed and takes effect.
example : (parameterUpgrade ⟨7, none, 0, 0⟩ openCouncil widening).1.isOk = false ∧
    receipts (parameterUpgrade ⟨7, none, 0, 0⟩ openCouncil widening).2 =
      [⟨transactionId 7, 12, largerBlocks⟩] := by
  decide +kernel

theorem receipts_parameterUpgrade (hclock : draw.clock ≠ none) {q : GrpcRequest}
    {req : ParameterUpgradeRequest} (hq : q.rpc.upgrade? = some req)
    {wrap : TransactionResponse → Reply}
    (hwrap : ∀ response, (wrap response).transactionHash? = some response.transactionHash) :
    receipts (parameterUpgrade draw r req).2 = receipts r ++
      (acknowledged
        (.request q draw, .reply ((parameterUpgrade draw r req).1.map wrap))).toList := by
  have hcases := parameterUpgrade_cases draw r req
  generalize parameterUpgrade draw r req = out at hcases ⊢
  cases hcases with
  | refused e => simp [acknowledged, Except.map]
  | scheduled hpatch h =>
    simp [receipts_schedule, acknowledged, Except.map, hwrap, hq, hpatch, upgradeResponse]
  | unacknowledged e hno => exact absurd hno hclock

theorem acknowledged_of_not_upgrade {q : GrpcRequest} (hq : q.rpc.upgrade? = none)
    (reply : Except Status Reply) : acknowledged (.request q draw, .reply reply) = none := by
  cases reply with
  | error e => rfl
  | ok reply => simp [acknowledged, hq]

theorem receipts_serve (hclock : draw.clock ≠ none) (q : GrpcRequest) :
    receipts (serve pkg auth draw r q).2 = receipts r ++
      (acknowledged (.request q draw, .reply (serve pkg auth draw r q).1)).toList := by
  obtain ⟨service, rpc, metadata⟩ := q
  rw [serve]
  split
  · simp [acknowledged]
  · cases rpc with
    | parameterUpgrade req =>
      cases service with
      | network => exact receipts_parameterUpgrade hclock rfl fun _ => rfl
      | gateway => exact receipts_parameterUpgrade hclock rfl fun _ => rfl
    | _ =>
      rw [handle_of_not_upgrade rfl, acknowledged_of_not_upgrade rfl]
      simp

/-- A change of the roles is not recorded. -/
theorem receipts_of_change {c : RegistryCall} (hc : submittedBy r c = none) (h : Change r c r') :
    receipts r' = receipts r := by
  cases h with
  | refused => rfl
  | tip => rfl
  | roles => rfl
  | scheduled h =>
    rw [submittedBy, submitParameterUpgrade_of_accepts _ h] at hc
    cases hc

theorem receipts_call (c : RegistryCall) : receipts (c.after r) = receipts r ++
    (acknowledged (.call c, .submitted (submittedBy r c))).toList := by
  have hchange : Change r c (c.after r) := Step.change rfl
  cases c with
  | submitParameterUpgrade uuid patch activation proposer voters =>
    rcases submitParameterUpgrade_cases r uuid patch activation proposer voters with
      ⟨-, hok⟩ | ⟨-, e, herr⟩
    · simp only [RegistryCall.after, submittedBy, hok]
      exact receipts_schedule r uuid patch activation
    · simp [RegistryCall.after, submittedBy, herr, acknowledged, Except.toOption]
  | _ => exact (receipts_of_change rfl hchange).trans (List.append_nil _).symm

theorem receipts_session {events : List Event}
    (hclock : ∀ q draw, .request q draw ∈ events → draw.clock ≠ none) (r : ChainParameterRegistry) :
    receipts (session (next pkg auth) r events).2 =
      receipts r ++ (session (next pkg auth) r events).1.filterMap acknowledged := by
  refine log_session ?_ r
  intro e he r
  cases e with
  | request q draw => exact receipts_serve (hclock q draw he) q
  | call c => exact receipts_call c

/-- Everybody may ask for the pending upgrades. -/
theorem serve_listPendingParameterUpgrades (service : Service) (metadata : MetadataMap) :
    serve pkg auth draw r ⟨service, .listPendingParameterUpgrades, metadata⟩ =
      (.ok (.pendingUpgrades r.pendingUpgrades), r) := by
  have hpath : path service .listPendingParameterUpgrades ∉ adminGrpcPaths := by
    cases service <;> decide
  have hpass : auth.call pkg (path service .listPendingParameterUpgrades) metadata = .ok () :=
    AdminAuthInterceptor.call_eq_ok.mpr fun h => absurd h hpath
  simp only [serve, hpass]
  cases service <;> rfl

end Axionvera.Node.GrpcServer

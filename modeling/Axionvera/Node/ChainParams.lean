import Axionvera.Lib.Fallible
import Axionvera.Lib.Trim
import Mathlib.Data.List.AList

/-! # The chain parameter registry

`chain_params.rs`. An error is returned before anything is written, so a call is
a function from the registry to an error text or to its result. The identifier
drawn for a transaction is an argument. The map of activations is ordered by its
keys; of the roles only the lookups are used. -/
namespace Axionvera.Node.ChainParams
open Axionvera.Lib.Fallible Axionvera.Lib.Trim

structure NetworkParameters where
  maxBlockBodyBytes : UInt64
  minBaseFee : UInt64
  maxTransactionsPerBlock : UInt32
  deriving DecidableEq

structure NetworkParametersPatch where
  maxBlockBodyBytes : Option UInt64 := none
  minBaseFee : Option UInt64 := none
  maxTransactionsPerBlock : Option UInt32 := none
  deriving DecidableEq

def NetworkParameters.applyPatch (p : NetworkParameters) (patch : NetworkParametersPatch) :
    NetworkParameters where
  maxBlockBodyBytes := patch.maxBlockBodyBytes.getD p.maxBlockBodyBytes
  minBaseFee := patch.minBaseFee.getD p.minBaseFee
  maxTransactionsPerBlock := patch.maxTransactionsPerBlock.getD p.maxTransactionsPerBlock

def mergePatches (into add : NetworkParametersPatch) : NetworkParametersPatch where
  maxBlockBodyBytes :=
    if add.maxBlockBodyBytes.isSome then add.maxBlockBodyBytes else into.maxBlockBodyBytes
  minBaseFee := if add.minBaseFee.isSome then add.minBaseFee else into.minBaseFee
  maxTransactionsPerBlock :=
    if add.maxTransactionsPerBlock.isSome then add.maxTransactionsPerBlock
    else into.maxTransactionsPerBlock

def patchHasChanges (p : NetworkParametersPatch) : Bool :=
  p.maxBlockBodyBytes.isSome || p.minBaseFee.isSome || p.maxTransactionsPerBlock.isSome

inductive GovernanceConfig where
  | adminKeys (keys : List String)
  | dao (members : List String) (minApprovals : UInt32)
  deriving DecidableEq

structure ScheduledUpgradeRecord where
  transactionId : String
  announcedAtHeight : UInt64
  activationEpochHeight : UInt64
  patch : NetworkParametersPatch
  deriving DecidableEq

inductive Role where
  | admin
  | operator
  deriving DecidableEq

/-- What `from_genesis_document` reads of the document. -/
structure GenesisDocument where
  chainId : String
  networkParameters : NetworkParameters
  parameterUpgradeGovernance : GovernanceConfig
  minActivationDelayBlocks : UInt64

structure ChainParameterRegistry where
  chainId : String
  governance : GovernanceConfig
  minActivationDelayBlocks : UInt64
  currentHeight : UInt64
  genesisParameters : NetworkParameters
  activations : Std.ExtTreeMap UInt64 NetworkParametersPatch
  upgradeHistory : List ScheduledUpgradeRecord
  roles : AList fun _ : String => Role

/-- The characters that `str::trim` removes, Unicode's `White_Space`. -/
def isWhitespace (c : Char) : Bool :=
  let n := c.toNat
  (9 ≤ n && n ≤ 13) || n == 0x20 || n == 0x85 || n == 0xA0 || n == 0x1680 ||
    (0x2000 ≤ n && n ≤ 0x200A) || n == 0x2028 || n == 0x2029 || n == 0x202F || n == 0x205F ||
    n == 0x3000

/-- `s.trim().to_ascii_lowercase()`. -/
def normalizeId (s : String) : String :=
  String.ofList ((trim isWhitespace s.toList).map Char.toLower)

/-- `u64::saturating_add`. -/
def saturatingAdd (a b : UInt64) : UInt64 :=
  UInt64.ofNat (min (a.toNat + b.toNat) 18446744073709551615)

/-- `format!("0x{:064x}", uuid)`. -/
def transactionId (uuid : Nat) : String :=
  "0x" ++ String.ofList ((Nat.toDigits 16 uuid).leftpad 64 '0')

namespace ChainParameterRegistry

def fromGenesisDocument (doc : GenesisDocument) : ChainParameterRegistry where
  chainId := doc.chainId
  governance := doc.parameterUpgradeGovernance
  minActivationDelayBlocks := doc.minActivationDelayBlocks
  currentHeight := 0
  genesisParameters := doc.networkParameters
  activations := ∅
  upgradeHistory := []
  roles :=
    match doc.parameterUpgradeGovernance with
    | .adminKeys keys => keys.foldl (fun roles key => roles.insert (normalizeId key) Role.admin) ∅
    | .dao _ _ => ∅

/-! ## Parameters -/

def effectiveParametersAt (r : ChainParameterRegistry) (height : UInt64) : NetworkParameters :=
  r.activations.foldl (fun p h patch => if h ≤ height then p.applyPatch patch else p)
    r.genesisParameters

def activeParameters (r : ChainParameterRegistry) : NetworkParameters :=
  r.effectiveParametersAt r.currentHeight

def pendingUpgrades (r : ChainParameterRegistry) : List ScheduledUpgradeRecord :=
  r.upgradeHistory.filter fun record => r.currentHeight < record.activationEpochHeight

def setChainTipHeight (r : ChainParameterRegistry) (height : UInt64) : ChainParameterRegistry :=
  { r with currentHeight := height }

/-! ## Roles -/

def checkRole (r : ChainParameterRegistry) (address : String) (requiredRole : Role) :
    Except String Unit :=
  match r.roles.lookup (normalizeId address), requiredRole with
  | none, _ => .error s!"Address {address} has no permissioned roles"
  | some .admin, _ => .ok ()
  | some .operator, .operator => .ok ()
  | some .operator, .admin => .error "Operator role insufficient for admin action"

def grantRole (r : ChainParameterRegistry) (caller target : String) (role : Role) :
    Except String ChainParameterRegistry := do
  r.checkRole caller .admin
  return { r with roles := r.roles.insert (normalizeId target) role }

def revokeRole (r : ChainParameterRegistry) (caller target : String) :
    Except String ChainParameterRegistry := do
  r.checkRole caller .admin
  let targetId := normalizeId target
  match r.roles.lookup targetId with
  | some _ => return { r with roles := r.roles.erase targetId }
  | none => throw "Role not found for target"

/-! ## Upgrades -/

/-- The loop of `authorize_upgrade` over the voters, with the set of those seen
and the `u32` count of them. -/
def countApprovals (memberSet : List String) :
    List String → UInt32 → List String → Except String UInt32
  | _, valid, [] => .ok valid
  | seen, valid, v :: voters =>
    let n := normalizeId v
    if n = "" then countApprovals memberSet seen valid voters
    else if n ∉ memberSet then .error s!"unknown dao voter: {v}"
    else if n ∈ seen then countApprovals memberSet seen valid voters
    else countApprovals memberSet (n :: seen) (valid + 1) voters

def authorizeUpgrade (r : ChainParameterRegistry) (proposerAddress : String)
    (daoVoterAddresses : List String) : Except String Unit :=
  match r.governance with
  | .adminKeys keys => do
    failIf (daoVoterAddresses.any fun v => v ≠ "")
      "dao_voter_addresses must be empty for admin_keys governance"
    let p := normalizeId proposerAddress
    failIf (p = "") "proposer_address is required for admin_keys governance"
    failIf (¬ keys.any fun k => normalizeId k = p) "proposer is not an authorized admin key"
  | .dao members minApprovals => do
    failIf (minApprovals = 0) "dao min_approvals must be > 0"
    let valid ← countApprovals (members.map normalizeId) [] 0 daoVoterAddresses
    failIf (valid < minApprovals)
      s!"dao consensus requires {minApprovals} distinct member approvals, got {valid}"

/-- `entry(height).and_modify(merge).or_insert(patch)`, and the record of it. -/
def schedule (r : ChainParameterRegistry) (uuid : Nat) (patch : NetworkParametersPatch)
    (activationEpochHeight : UInt64) : ChainParameterRegistry :=
  { r with
    activations := r.activations.alter activationEpochHeight fun existing =>
      some ((existing.map fun into => mergePatches into patch).getD patch)
    upgradeHistory := r.upgradeHistory ++ [{
      transactionId := transactionId uuid
      announcedAtHeight := r.currentHeight
      activationEpochHeight := activationEpochHeight
      patch := patch }] }

def submitParameterUpgrade (r : ChainParameterRegistry) (uuid : Nat)
    (patch : NetworkParametersPatch) (activationEpochHeight : UInt64) (proposerAddress : String)
    (daoVoterAddresses : List String) : Except String (String × ChainParameterRegistry) := do
  failIf (¬ patchHasChanges patch) "parameter patch must set at least one field"
  (r.checkRole proposerAddress .operator).mapError fun e => s!"Permission denied: {e}"
  r.authorizeUpgrade proposerAddress daoVoterAddresses
  let tip := r.currentHeight
  let delay := r.minActivationDelayBlocks
  let minH := saturatingAdd tip delay
  failIf (activationEpochHeight < minH)
    (s!"activation_epoch_height {activationEpochHeight} must be >= {minH} " ++
      s!"(tip {tip} + min_delay {delay})")
  return (transactionId uuid, r.schedule uuid patch activationEpochHeight)

end ChainParameterRegistry
end Axionvera.Node.ChainParams

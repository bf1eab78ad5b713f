import Axionvera.Lib.OwnKey
import Axionvera.Node.ChainParams

/-! # The governance service

`governance.rs`. A vote is stored under its voter's normalized id and a proposal
under its own id; both hash maps are maps of that kind. The order in which `tick`
meets the proposals is an argument, as are the identifiers drawn by `propose` and,
for each proposal, by the registry. -/
namespace Axionvera.Node.Governance
open Axionvera.Lib.Fallible Axionvera.Lib.OwnKey
open Axionvera.Node.ChainParams

inductive ProposalStatus where
  | voting
  | passed
  | rejected
  | executed
  | expired
  deriving DecidableEq

/-- `format!("{:?}", status)`. -/
def ProposalStatus.debug : ProposalStatus → String
  | .voting => "Voting"
  | .passed => "Passed"
  | .rejected => "Rejected"
  | .executed => "Executed"
  | .expired => "Expired"

structure Vote where
  voter : String
  approve : Bool
  weight : UInt64
  deriving DecidableEq

/-- The key a vote is stored under. -/
def Vote.voterId (v : Vote) : String := normalizeId v.voter

structure Proposal where
  id : String
  proposer : String
  patch : NetworkParametersPatch
  activationHeight : UInt64
  status : ProposalStatus
  votes : KeyedMap Vote.voterId
  endHeight : UInt64

structure GovernanceService where
  proposals : KeyedMap Proposal.id
  votingDuration : UInt64

namespace GovernanceService

def new (votingDuration : UInt64) : GovernanceService := ⟨.empty, votingDuration⟩

/-- Write a proposal back under its id. -/
def store (g : GovernanceService) (proposal : Proposal) : GovernanceService :=
  { g with proposals := g.proposals.insert proposal }

def propose (g : GovernanceService) (id proposer : String) (patch : NetworkParametersPatch)
    (activationHeight currentHeight : UInt64) (registry : ChainParameterRegistry) :
    Except String (String × GovernanceService) := do
  (registry.checkRole proposer .operator).mapError fun e => s!"Proposer unauthorized: {e}"
  return (id, g.store {
    id := id
    proposer := proposer
    patch := patch
    activationHeight := activationHeight
    status := .voting
    votes := .empty
    endHeight := currentHeight + g.votingDuration })

def castVote (g : GovernanceService) (proposalId voter : String) (approve : Bool)
    (registry : ChainParameterRegistry) : Except String GovernanceService := do
  (registry.checkRole voter .operator).mapError fun e => s!"Voter unauthorized: {e}"
  match g.proposals.get proposalId with
  | none => throw "Proposal not found"
  | some proposal =>
    let state := proposal.status.debug
    failIf (proposal.status ≠ .voting) s!"Cannot vote on proposal in {state} state"
    return g.store { proposal with votes := proposal.votes.insert ⟨voter, approve, 1⟩ }

/-- The approving votes of members, counted in a `u32`. -/
def yesVotes (members : List String) (proposal : Proposal) : UInt32 :=
  UInt32.ofNat (proposal.votes.values.countP fun v =>
    v.approve && members.any fun m => normalizeId m = normalizeId v.voter)

/-- The first loop of `tick`, at one proposal. -/
def tally (config : GovernanceConfig) (currentHeight : UInt64)
    (acc : GovernanceService × List String) (id : String) : GovernanceService × List String :=
  match acc.1.proposals.get id with
  | none => acc
  | some proposal =>
    if proposal.status = .voting ∧ proposal.endHeight ≤ currentHeight then
      match config with
      | .dao members minApprovals =>
        if minApprovals ≤ yesVotes members proposal then
          (acc.1.store { proposal with status := .passed }, acc.2 ++ [proposal.id])
        else (acc.1.store { proposal with status := .rejected }, acc.2)
      | .adminKeys _ => (acc.1.store { proposal with status := .passed }, acc.2 ++ [proposal.id])
    else acc

/-- The second loop of `tick`, at one id. -/
def execute (uuid : String → Nat) (acc : GovernanceService × ChainParameterRegistry) (id : String) :
    GovernanceService × ChainParameterRegistry :=
  match acc.1.proposals.get id with
  | none => acc
  | some proposal =>
    let voters := proposal.votes.values.map Vote.voter
    match acc.2.submitParameterUpgrade (uuid id) proposal.patch proposal.activationHeight
        proposal.proposer voters with
    | .ok (_, registry) => (acc.1.store { proposal with status := .executed }, registry)
    | .error _ => acc

def tick (g : GovernanceService) (order : List String) (uuid : String → Nat)
    (currentHeight : UInt64) (registry : ChainParameterRegistry) :
    GovernanceService × ChainParameterRegistry :=
  let tallied := order.foldl (tally registry.governance currentHeight) (g, [])
  tallied.2.foldl (execute uuid) (tallied.1, registry)

end GovernanceService
end Axionvera.Node.Governance

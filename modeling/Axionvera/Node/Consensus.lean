import Axionvera.Lib.Host
import Mathlib.Data.List.AList

/-! # The consensus engine

`consensus.rs`. Each piece of code that the source runs under one lock is one
definition, and the public functions are these pieces one after the other. The
clock, the fresh identifier and whether the channels' receivers still exist are
what a call finds around it. The hash maps are association lists without
repeated keys: their order carries no meaning. The counts of votes are `usize`,
of 64 bits, and wrap as in a release build: a proposal from the wire may come
with any count. -/
namespace Axionvera.Node.Consensus
open Axionvera.Lib.Host

/-- A point in time, in nanoseconds. -/
abbrev Time : Type := Int

abbrev HashMap (ν : Type) : Type := AList fun _ : String => ν

inductive VoteType where
  | approve
  | reject
  | abstain
  deriving DecidableEq

inductive ProposalStatus where
  | active
  | approved
  | rejected
  | expired
  deriving DecidableEq

structure Proposal where
  id : String
  proposer : String
  content : List UInt8
  createdAt : Time
  expiresAt : Time
  requiredVotes : UInt64
  currentVotes : UInt64
  status : ProposalStatus
  deriving DecidableEq

structure Vote where
  proposalId : String
  voter : String
  voteType : VoteType
  timestamp : Time
  signature : List UInt8
  traceContext : Option String
  deriving DecidableEq

/-- The variants that the engine returns. -/
inductive NetworkError where
  | server (text : String)
  | validation (text : String)
  deriving DecidableEq

/-- `chrono::Duration::minutes(ttl_minutes as i64)`. -/
def minutes (ttlMinutes : UInt64) : Time := ttlMinutes.toInt64.toInt * 60 * 1000000000

namespace Proposal

def new (id : String) (now : Time) (proposer : String) (content : List UInt8)
    (requiredVotes ttlMinutes : UInt64) : Proposal where
  id := id
  proposer := proposer
  content := content
  createdAt := now
  expiresAt := now + minutes ttlMinutes
  requiredVotes := requiredVotes
  currentVotes := 0
  status := .active

def isExpired (p : Proposal) (now : Time) : Bool := decide (p.expiresAt < now)

def canVote (p : Proposal) (now : Time) : Bool := decide (p.status = .active) && !p.isExpired now

def hasQuorum (p : Proposal) : Bool := decide (p.requiredVotes ≤ p.currentVotes)

end Proposal

def Vote.new (now : Time) (proposalId voter : String) (voteType : VoteType)
    (signature : List UInt8) : Vote where
  proposalId := proposalId
  voter := voter
  voteType := voteType
  timestamp := now
  signature := signature
  traceContext := none

/-- The engine, with what it has put into its two channels. -/
structure ConsensusEngine where
  nodeId : String
  proposals : HashMap Proposal
  votes : HashMap (List Vote)
  sentVotes : List Vote
  sentProposals : List Proposal
  requiredVotes : UInt64
  proposalTtlMinutes : UInt64

def ConsensusEngine.new (nodeId : String) (requiredVotes proposalTtlMinutes : UInt64) :
    ConsensusEngine where
  nodeId := nodeId
  proposals := ∅
  votes := ∅
  sentVotes := []
  sentProposals := []
  requiredVotes := requiredVotes
  proposalTtlMinutes := proposalTtlMinutes

/-- What a call finds around it. -/
structure Surroundings where
  now : Time
  freshId : String
  voteReceiver : Bool
  proposalReceiver : Bool

abbrev EngineM : Type → Type := HostM Surroundings NetworkError ConsensusEngine

/-! ## Blocks under a lock -/

/-- `proposals.get(id).cloned()`. -/
def readProposal (proposalId : String) : EngineM (Option Proposal) :=
  HostM.gets fun e => e.proposals.lookup proposalId

/-- `votes.get(id).cloned().unwrap_or_default()`. -/
def ConsensusEngine.votesOf (e : ConsensusEngine) (proposalId : String) : List Vote :=
  (e.votes.lookup proposalId).getD []

/-- Whether a voter is among the recorded ones. -/
def hasVoted (proposalId voter : String) : EngineM Bool :=
  HostM.gets fun e => (e.votesOf proposalId).any fun v => v.voter = voter

def storeVote (vote : Vote) : EngineM Unit :=
  HostM.modify fun e => { e with
    votes := e.votes.insert vote.proposalId (e.votesOf vote.proposalId ++ [vote]) }

/-- `proposals.insert(proposal.id.clone(), proposal.clone())`. -/
def storeProposal (proposal : Proposal) : EngineM Unit :=
  HostM.modify fun e => { e with proposals := e.proposals.insert proposal.id proposal }

/-- `if let Some(proposal) = proposals.get_mut(id) { .. }`. -/
def ConsensusEngine.update (e : ConsensusEngine) (proposalId : String) (f : Proposal → Proposal) :
    ConsensusEngine :=
  match e.proposals.lookup proposalId with
  | some p => { e with proposals := e.proposals.insert proposalId (f p) }
  | none => e

/-! ## Finalization -/

/-- The counters of `finalize_proposal`, which are `i32` and wrap. -/
structure Tally where
  approve : Int32
  reject : Int32
  abstain : Int32
  deriving DecidableEq

def Tally.count (t : Tally) (vote : Vote) : Tally :=
  match vote.voteType with
  | .approve => { t with approve := t.approve + 1 }
  | .reject => { t with reject := t.reject + 1 }
  | .abstain => { t with abstain := t.abstain + 1 }

def tally (votes : List Vote) : Tally := votes.foldl Tally.count ⟨0, 0, 0⟩

/-- The outcome of the recorded votes. -/
def finalStatus (votes : List Vote) : ProposalStatus :=
  if (tally votes).reject < (tally votes).approve then .approved else .rejected

def finalizeProposal (proposalId : String) : EngineM Unit := do
  let found ← readProposal proposalId
  let _ ← HostM.okOr found (NetworkError.validation s!"Proposal {proposalId} not found")
  let votes ← HostM.gets fun e => e.votesOf proposalId
  HostM.modify fun e => e.update proposalId fun p => { p with status := finalStatus votes }

/-- The last block of a vote: count it, and finalize the proposal if that makes
the quorum. -/
def countVote (proposalId : String) : EngineM Unit := do
  let found ← readProposal proposalId
  match found with
  | none => return ()
  | some p =>
    let counted := { p with currentVotes := p.currentVotes + 1 }
    HostM.modify fun e => { e with proposals := e.proposals.insert proposalId counted }
    if counted.hasQuorum = true then finalizeProposal proposalId else return ()

/-! ## Public functions -/

def createProposal (content : List UInt8) : EngineM Proposal := do
  let around ← HostM.ask
  let e ← HostM.get
  let proposal := Proposal.new around.freshId around.now e.nodeId content e.requiredVotes
    e.proposalTtlMinutes
  storeProposal proposal
  HostM.failIf (around.proposalReceiver = false)
    (NetworkError.server "Failed to broadcast proposal: channel closed")
  HostM.modify fun e => { e with sentProposals := e.sentProposals ++ [proposal] }
  return proposal

/-- Both ways to vote start by looking the proposal up. -/
def requireVotable (proposalId unknown : String) : EngineM Unit := do
  let around ← HostM.ask
  let found ← readProposal proposalId
  let proposal ← HostM.okOr found (NetworkError.validation unknown)
  HostM.failIf (proposal.canVote around.now = false)
    (NetworkError.validation s!"Proposal {proposalId} is not active")

def vote (proposalId : String) (voteType : VoteType) (signature : List UInt8) : EngineM Unit := do
  let around ← HostM.ask
  let e ← HostM.get
  let nodeId := e.nodeId
  requireVotable proposalId s!"Proposal {proposalId} not found"
  let voted ← hasVoted proposalId nodeId
  HostM.failIf (voted = true) (NetworkError.validation s!"Already voted on proposal {proposalId}")
  let cast := Vote.new around.now proposalId nodeId voteType signature
  storeVote cast
  countVote proposalId
  HostM.failIf (around.voteReceiver = false)
    (NetworkError.server "Failed to broadcast vote: channel closed")
  HostM.modify fun e => { e with sentVotes := e.sentVotes ++ [cast] }

def processVote (vote : Vote) : EngineM Unit := do
  let proposalId := vote.proposalId
  let voter := vote.voter
  requireVotable proposalId s!"Unknown proposal: {proposalId}"
  let voted ← hasVoted proposalId voter
  HostM.failIf (voted = true) (NetworkError.validation s!"Duplicate vote from {voter}")
  storeVote vote
  countVote proposalId

def processProposal (proposal : Proposal) : EngineM Unit := do
  let found ← readProposal proposal.id
  match found with
  | some _ => return ()
  | none => storeProposal proposal

/-- The proposals that `cleanup_expired_proposals` collects. -/
def expired (now : Time) (e : ConsensusEngine) : List String :=
  (e.proposals.entries.filter fun x =>
    x.2.isExpired now && decide (x.2.status = .active)).map Sigma.fst

/-- The engine with one proposal marked. -/
def expire (e : ConsensusEngine) (id : String) : ConsensusEngine :=
  e.update id fun p => { p with status := .expired }

/-- First the expired proposals are collected, then each of them is marked. -/
def cleanupExpiredProposals : EngineM Nat := do
  let around ← HostM.ask
  let ids ← HostM.gets (expired around.now)
  HostM.modify fun e => ids.foldl expire e
  return ids.length

end Axionvera.Node.Consensus

import Axionvera.Lib.Interleaving
import Axionvera.Node.Quorum

/-! # Concurrent calls of the engine

The engine's functions are asynchronous and take a lock for each block of their
work, so calls in progress interleave block by block. A call is a task that
stands in front of its next block; a step runs one block of one task, under the
clock of that moment. A call that nothing interrupts does what the sequential
function does (`alone`). -/
namespace Axionvera.Node.Interleaved
open Axionvera.Lib.Host Axionvera.Lib.Interleaving Axionvera.Lib.Transition
open Axionvera.Node.Consensus Axionvera.Node.Voting
open Axionvera.Node.Quorum (EngineCall created announce)

variable {r : Surroundings} {e : ConsensusEngine} {p : Proposal} {v : Vote} {id : String}

/-! ## Calls in progress -/

/-- A call of `vote` or of `process_vote`. -/
inductive Ballot where
  | vote (proposalId : String) (voteType : VoteType) (signature : List UInt8)
  | processVote (vote : Vote)
  deriving DecidableEq

namespace Ballot

def proposalId : Ballot → String
  | .vote id _ _ => id
  | .processVote v => v.proposalId

def voter (nodeId : String) : Ballot → String
  | .vote _ _ _ => nodeId
  | .processVote v => v.voter

/-- The text for a proposal that is not there. -/
def unknown : Ballot → String
  | .vote id _ _ => s!"Proposal {id} not found"
  | .processVote v => s!"Unknown proposal: {v.proposalId}"

/-- The text for a second vote. -/
def duplicate : Ballot → String
  | .vote id _ _ => s!"Already voted on proposal {id}"
  | .processVote v => s!"Duplicate vote from {v.voter}"

/-- The vote that the call stores. -/
def made (r : Surroundings) (e : ConsensusEngine) : Ballot → Vote
  | .vote id voteType signature => cast r e id voteType signature
  | .processVote v => v

@[simp] theorem made_proposalId (q : Ballot) : (q.made r e).proposalId = q.proposalId := by
  cases q <;> rfl

@[simp] theorem made_voter (q : Ballot) : (q.made r e).voter = q.voter e.nodeId := by
  cases q <;> rfl

end Ballot

/-- What a call ends with. -/
inductive Reply where
  | done
  | proposal (p : Proposal)
  | cleaned (count : Nat)
  | failed (error : NetworkError)
  | panicked
  deriving DecidableEq

/-- A call in front of its next block. -/
inductive Task where
  /-- Looks the proposal up. -/
  | begun (q : Ballot)
  /-- Has seen the proposal open and looks for an earlier vote. -/
  | votable (q : Ballot)
  /-- Has seen no earlier vote and stores its own. -/
  | cleared (q : Ballot)
  /-- Has stored its vote and counts it. -/
  | stored (q : Ballot) (v : Vote)
  /-- Has counted its vote and broadcasts it. -/
  | sending (v : Vote)
  /-- Stores a proposal of this node. -/
  | creating (content : List UInt8)
  | announcing (p : Proposal)
  /-- Looks a peer's proposal up. -/
  | offered (p : Proposal)
  /-- Has not found the peer's proposal and stores it. -/
  | adopting (p : Proposal)
  /-- Collects the expired proposals. -/
  | collecting
  | marking (ids : List String)
  | ended (reply : Reply)
  deriving DecidableEq

/-- Where a call begins. -/
def entry : EngineCall → Task
  | .createProposal content => .creating content
  | .processProposal p => .offered p
  | .vote id voteType signature => .begun (.vote id voteType signature)
  | .processVote v => .begun (.processVote v)
  | .cleanupExpiredProposals => .collecting

/-- What follows the count: a vote of this node is broadcast. -/
def Ballot.after (v : Vote) : Ballot → Task
  | .vote _ _ _ => .sending v
  | .processVote _ => .ended .done

/-- The check for an earlier vote. -/
def Ballot.checkFirst (q : Ballot) : EngineM Unit := do
  let e ← HostM.get
  let voted ← hasVoted q.proposalId (q.voter e.nodeId)
  HostM.failIf (voted = true) (NetworkError.validation q.duplicate)

/-- A block of a call: an error ends the call, its writes stay. -/
def block {α : Type} (m : EngineM α) (follow : α → Task) (r : Surroundings)
    (e : ConsensusEngine) : Task × ConsensusEngine :=
  match m r e with
  | .ok a e' => (follow a, e')
  | .err x e' => (.ended (.failed x), e')
  | .trap => (.ended .panicked, e)

/-- The next block of a call. -/
def next (r : Surroundings) (t : Task) (e : ConsensusEngine) : Task × ConsensusEngine :=
  match t with
  | .begun q => block (requireVotable q.proposalId q.unknown) (fun _ => .votable q) r e
  | .votable q => block q.checkFirst (fun _ => .cleared q) r e
  | .cleared q => block (storeVote (q.made r e)) (fun _ => .stored q (q.made r e)) r e
  | .stored q v => block (countVote q.proposalId) (fun _ => q.after v) r e
  | .sending v => block (broadcast r.voteReceiver v) (fun _ => .ended .done) r e
  | .creating content =>
    block (storeProposal (created r e content)) (fun _ => .announcing (created r e content)) r e
  | .announcing p => block (announce r.proposalReceiver p) (fun p => .ended (.proposal p)) r e
  | .offered p => block (readProposal p.id)
    (fun found => if found.isSome then .ended .done else .adopting p) r e
  | .adopting p => block (storeProposal p) (fun _ => .ended .done) r e
  | .collecting => block (HostM.gets (expired r.now))
    -- The second lock is only taken if there is something to mark.
    (fun ids => if ids.isEmpty then .ended (.cleaned 0) else .marking ids) r e
  | .marking ids => block (HostM.modify fun e => ids.foldl expire e)
    (fun _ => .ended (.cleaned ids.length)) r e
  | .ended reply => (.ended reply, e)

/-! ## The system -/

abbrev Calls : Type := System Task ConsensusEngine

inductive Move where
  | start (call : EngineCall)
  | advance (i : Nat) (r : Surroundings)

/-- The system after a move: a call begins, or a call in progress runs its next
block. -/
def after (s : Calls) : Move → Option Calls
  | .start call => some (s.start (entry call))
  | .advance i r => (s.tasks[i]?).map fun t => s.put i (next r t s.shared)

def Step (s : Calls) (m : Move) (s' : Calls) : Prop := after s m = some s'

theorem Step.cases {s s' : Calls} {m : Move} (h : Step s m s') :
    (∃ call, m = .start call ∧ s' = s.start (entry call)) ∨
      ∃ i r t, m = .advance i r ∧ s.tasks[i]? = some t ∧ s' = s.put i (next r t s.shared) := by
  cases m with
  | start call => exact Or.inl ⟨call, rfl, (Option.some.inj h).symm⟩
  | advance i r =>
    obtain ⟨t, ht, hs⟩ := Option.map_eq_some_iff.mp h
    exact Or.inr ⟨i, r, t, rfl, ht, hs.symm⟩

theorem step_start {s : Calls} {call : EngineCall} :
    Step s (.start call) (s.start (entry call)) := rfl

theorem step_advance {s : Calls} {i : Nat} {t : Task} (h : s.tasks[i]? = some t) :
    Step s (.advance i r) (s.put i (next r t s.shared)) := by
  simp [Step, after, h]

/-- How many blocks a call has still to run, at most. -/
def left : Task → Nat
  | .begun _ => 5
  | .votable _ => 4
  | .cleared _ => 3
  | .stored _ _ => 2
  | .sending _ => 1
  | .creating _ => 2
  | .announcing _ => 1
  | .offered _ => 2
  | .adopting _ => 1
  | .collecting => 2
  | .marking _ => 1
  | .ended _ => 0

/-- No call is in progress. -/
def Quiescent (s : Calls) : Prop := ∀ t ∈ s.tasks, left t = 0

instance : DecidablePred Quiescent := fun s => inferInstanceAs (Decidable (∀ t ∈ s.tasks, left t = 0))

theorem ended_of_left {t : Task} (h : left t = 0) : ∃ reply, t = .ended reply := by
  cases t with
  | ended reply => exact ⟨reply, rfl⟩
  | _ => cases h

/-! ## What a block does -/

/-- A vote recorded, not yet counted. -/
def withVote (e : ConsensusEngine) (v : Vote) : ConsensusEngine :=
  { e with votes := e.votes.insert v.proposalId (e.votesOf v.proposalId ++ [v]) }

/-- A vote on `p` counted. -/
def withCount (e : ConsensusEngine) (id : String) (p : Proposal) : ConsensusEngine :=
  { e with proposals := e.proposals.insert id (counted p (e.votesOf id)) }

theorem withVote_votesOf : (withVote e v).votesOf id =
    if id = v.proposalId then e.votesOf id ++ [v] else e.votesOf id := by
  by_cases h : id = v.proposalId
  · subst h
    simp [withVote, ConsensusEngine.votesOf]
  · simp [withVote, ConsensusEngine.votesOf, h, AList.lookup_insert_ne h]

theorem withCount_lookup {pid : String} : (withCount e pid p).proposals.lookup id =
    if id = pid then some (counted p (e.votesOf pid)) else e.proposals.lookup id := by
  by_cases h : id = pid
  · subst h
    simp [withCount]
  · simp [withCount, h, AList.lookup_insert_ne h]

theorem stored_lookup : (Quorum.stored e p).proposals.lookup id =
    if id = p.id then some p else e.proposals.lookup id := by
  by_cases h : id = p.id
  · subst h
    simp [Quorum.stored]
  · simp [Quorum.stored, h, AList.lookup_insert_ne h]

theorem expire_lookup {pid : String} : (expire e pid).proposals.lookup id =
    (e.proposals.lookup id).map fun p => if id = pid then { p with status := .expired } else p := by
  unfold expire ConsensusEngine.update
  cases hp : e.proposals.lookup pid with
  | none =>
    by_cases h : id = pid
    · subst h
      simp [hp]
    · simp [h]
  | some p =>
    by_cases h : id = pid
    · subst h
      simp [hp]
    · simp [h, AList.lookup_insert_ne h]

/-- Marking proposals writes nothing else. -/
theorem expireAll_eq (ids : List String) :
    ∃ proposals, ids.foldl expire e = { e with proposals := proposals } := by
  induction ids generalizing e with
  | nil => exact ⟨e.proposals, rfl⟩
  | cons pid ids ih =>
    obtain ⟨proposals, hrest⟩ := ih (e := expire e pid)
    refine ⟨proposals, hrest.trans ?_⟩
    unfold expire ConsensusEngine.update
    cases e.proposals.lookup pid <;> rfl

/-- Marking proposals changes no record but their statuses. -/
theorem expireAll_lookup (ids : List String) : (ids.foldl expire e).proposals.lookup id =
    (e.proposals.lookup id).map fun p => if id ∈ ids then { p with status := .expired } else p := by
  induction ids generalizing e with
  | nil => simp
  | cons pid ids ih =>
    rw [List.foldl_cons, ih, expire_lookup, Option.map_map]
    congr 1
    funext p
    by_cases h : id = pid <;> by_cases h' : id ∈ ids <;> simp [h, h']

theorem expireAll_votesOf (ids : List String) : (ids.foldl expire e).votesOf id = e.votesOf id := by
  obtain ⟨proposals, hexpired⟩ := expireAll_eq (e := e) ids
  rw [hexpired]
  rfl

/-- What one block turns a call and the engine into. -/
inductive Block (r : Surroundings) (e : ConsensusEngine) : Task → Task → ConsensusEngine → Prop
  | closed {q : Ballot} {x : NetworkError} : Block r e (.begun q) (.ended (.failed x)) e
  | votable {q : Ballot} {p : Proposal} (found : e.proposals.lookup q.proposalId = some p)
      (votable : p.canVote r.now = true) : Block r e (.begun q) (.votable q) e
  | duplicate {q : Ballot} {x : NetworkError} {v : Vote} (recorded : v ∈ e.votesOf q.proposalId)
      (same : v.voter = q.voter e.nodeId) : Block r e (.votable q) (.ended (.failed x)) e
  | cleared {q : Ballot} (first : ∀ x ∈ e.votesOf q.proposalId, x.voter ≠ q.voter e.nodeId) :
      Block r e (.votable q) (.cleared q) e
  | stored {q : Ballot} : Block r e (.cleared q) (.stored q (q.made r e)) (withVote e (q.made r e))
  | counted {q : Ballot} {v : Vote} {p : Proposal}
      (found : e.proposals.lookup q.proposalId = some p) :
      Block r e (.stored q v) (q.after v) (withCount e q.proposalId p)
  | uncounted {q : Ballot} {v : Vote} (missing : e.proposals.lookup q.proposalId = none) :
      Block r e (.stored q v) (q.after v) e
  | sent {v : Vote} {reply : Reply} {votes : List Vote} (regular : reply ≠ .panicked) :
      Block r e (.sending v) (.ended reply) { e with sentVotes := votes }
  | created {content : List UInt8} :
      Block r e (.creating content) (.announcing (created r e content))
        (Quorum.stored e (Quorum.created r e content))
  | announced {p : Proposal} {reply : Reply} {proposals : List Proposal}
      (regular : reply ≠ .panicked) :
      Block r e (.announcing p) (.ended reply) { e with sentProposals := proposals }
  | known {p : Proposal} : Block r e (.offered p) (.ended .done) e
  | offered {p : Proposal} : Block r e (.offered p) (.adopting p) e
  | adopted {p : Proposal} : Block r e (.adopting p) (.ended .done) (Quorum.stored e p)
  | clean : Block r e .collecting (.ended (.cleaned 0)) e
  | collected : Block r e .collecting (.marking (expired r.now e)) e
  | marked {ids : List String} :
      Block r e (.marking ids) (.ended (.cleaned ids.length)) (ids.foldl expire e)
  | rested {reply : Reply} : Block r e (.ended reply) (.ended reply) e

theorem block_begun (q : Ballot) :
    Block r e (.begun q) (next r (.begun q) e).1 (next r (.begun q) e).2 := by
  cases hfound : e.proposals.lookup q.proposalId with
  | none =>
    have hread : requireVotable q.proposalId q.unknown r e = .err (.validation q.unknown) e := by
      simp [requireVotable, readProposal, bind, HostM.ask, HostM.gets, hfound, HostM.okOr, okOr,
        HostM.lift, HostM.throw]
    simp only [next, block, hread]
    exact .closed
  | some p =>
    have hread : requireVotable q.proposalId q.unknown r e =
        (HostM.failIf (p.canVote r.now = false)
          (NetworkError.validation s!"Proposal {q.proposalId} is not active") : EngineM Unit) r e := by
      simp only [requireVotable, readProposal, bind, HostM.ask, HostM.gets, hfound]
      rfl
    simp only [next, block, hread]
    cases hcan : p.canVote r.now with
    | false => exact .closed
    | true => exact .votable hfound hcan

theorem block_votable (q : Ballot) :
    Block r e (.votable q) (next r (.votable q) e).1 (next r (.votable q) e).2 := by
  have hcheck : q.checkFirst r e = (HostM.failIf
      (((e.votesOf q.proposalId).any fun v => decide (v.voter = q.voter e.nodeId)) = true)
      (NetworkError.validation q.duplicate) : EngineM Unit) r e := rfl
  simp only [next, block, hcheck]
  cases hany : (e.votesOf q.proposalId).any fun v => decide (v.voter = q.voter e.nodeId) with
  | true =>
    obtain ⟨v, hv, hvoter⟩ := List.any_eq_true.mp hany
    exact .duplicate hv (of_decide_eq_true hvoter)
  | false => exact .cleared (by simpa using hany)

theorem next_stored_of_missing {q : Ballot} (h : e.proposals.lookup q.proposalId = none) :
    next r (.stored q v) e = (q.after v, e) := by
  have hcount : countVote q.proposalId r e = .ok () e := by
    simp only [countVote, readProposal, bind, HostM.gets, h]
    rfl
  simp only [next, block, hcount]

theorem next_stored_of_found {q : Ballot} (h : e.proposals.lookup q.proposalId = some p) :
    next r (.stored q v) e = (q.after v, withCount e q.proposalId p) := by
  have hcount : countVote q.proposalId r e = .ok () (withCount e q.proposalId p) :=
    countVote_returns h
  simp only [next, block, hcount]

theorem block_stored (q : Ballot) (v : Vote) :
    Block r e (.stored q v) (next r (.stored q v) e).1 (next r (.stored q v) e).2 := by
  cases hfound : e.proposals.lookup q.proposalId with
  | none =>
    rw [next_stored_of_missing hfound]
    exact .uncounted hfound
  | some p =>
    rw [next_stored_of_found hfound]
    exact .counted hfound

theorem block_next (t : Task) : Block r e t (next r t e).1 (next r t e).2 := by
  cases t with
  | begun q => exact block_begun q
  | votable q => exact block_votable q
  | cleared q => exact .stored
  | stored q v => exact block_stored q v
  | sending v =>
    simp only [next, block, broadcast]
    cases r.voteReceiver with
    | false => exact @Block.sent r e v _ e.sentVotes (by simp)
    | true => exact .sent (by simp)
  | creating content => exact .created
  | announcing p =>
    simp only [next, block, announce]
    cases r.proposalReceiver with
    | false => exact @Block.announced r e p _ e.sentProposals (by simp)
    | true => exact .announced (by simp)
  | offered p =>
    simp only [next, block, readProposal, HostM.gets]
    cases e.proposals.lookup p.id with
    | none => exact .offered
    | some p' => exact .known
  | adopting p => exact .adopted
  | collecting =>
    simp only [next, block, HostM.gets]
    by_cases hnil : (expired r.now e).isEmpty = true
    · rw [if_pos hnil]
      exact .clean
    · rw [if_neg hnil]
      exact .collected
  | marking ids => exact .marked
  | ended reply => exact .rested

/-- No block of the engine panics. -/
theorem Block.regular {t t' : Task} {e' : ConsensusEngine} (h : Block r e t t' e')
    (ht : t ≠ .ended .panicked) : t' ≠ .ended .panicked := by
  cases h with
  | @counted q v p found => cases q <;> simp [Ballot.after]
  | @uncounted q v missing => cases q <;> simp [Ballot.after]
  | sent regular => simpa using regular
  | announced regular => simpa using regular
  | rested => exact ht
  | _ => simp

/-! ## A call that nothing interrupts -/

def Reply.code : Reply → EngineM Reply
  | .failed x => HostM.throw x
  | .panicked => HostM.halt
  | reply => return reply

namespace Ballot

/-- The rest of a call whose vote is counted. -/
def finish (v : Vote) : Ballot → EngineM Reply
  | .vote _ _ _ => do
    let r ← HostM.ask
    broadcast r.voteReceiver v
    return .done
  | .processVote _ => return .done

def count (q : Ballot) (v : Vote) : EngineM Reply := do
  countVote q.proposalId
  q.finish v

def store (q : Ballot) : EngineM Reply := do
  let r ← HostM.ask
  let e ← HostM.get
  storeVote (q.made r e)
  q.count (q.made r e)

def check (q : Ballot) : EngineM Reply := do
  q.checkFirst
  q.store

end Ballot

/-- The code that a call has still to run. -/
def rest : Task → EngineM Reply
  | .begun q => do
    requireVotable q.proposalId q.unknown
    q.check
  | .votable q => q.check
  | .cleared q => q.store
  | .stored q v => q.count v
  | .sending v => do
    let r ← HostM.ask
    broadcast r.voteReceiver v
    return .done
  | .creating content => do
    let p ← createProposal content
    return .proposal p
  | .announcing p => do
    let r ← HostM.ask
    let p ← announce r.proposalReceiver p
    return .proposal p
  | .offered p => do
    processProposal p
    return .done
  | .adopting p => do
    storeProposal p
    return .done
  | .collecting => do
    let n ← cleanupExpiredProposals
    return .cleaned n
  | .marking ids => do
    HostM.modify fun e => ids.foldl expire e
    return .cleaned ids.length
  | .ended reply => reply.code

theorem rest_block {α : Type} (m : EngineM α) (follow : α → Task) :
    rest (block m follow r e).1 r (block m follow r e).2 =
      (m >>= fun a => rest (follow a)) r e := by
  unfold block
  cases h : m r e with
  | ok a e' => simp [bind, h]
  | err x e' =>
    simp only [bind, h]
    rfl
  | trap =>
    simp only [bind, h]
    rfl

theorem rest_after (q : Ballot) (v : Vote) : rest (q.after v) = q.finish v := by
  cases q <;> rfl

/-- A block is the beginning of what the call has still to run. -/
theorem rest_next (t : Task) : rest (next r t e).1 r (next r t e).2 = rest t r e := by
  cases t with
  | begun q => exact rest_block _ _
  | votable q => exact rest_block _ _
  | cleared q => exact rest_block _ _
  | stored q v =>
    refine (rest_block _ _).trans ?_
    simp only [rest_after]
    rfl
  | sending v => exact rest_block _ _
  | creating content => exact rest_block _ _
  | announcing p => exact rest_block _ _
  | offered p =>
    refine (rest_block _ _).trans ?_
    cases h : e.proposals.lookup p.id with
    | none => simp [rest, processProposal, readProposal, bind, HostM.gets, h, storeProposal]
    | some p' =>
      simp only [rest, processProposal, readProposal, bind, HostM.gets, h]
      rfl
  | adopting p => exact rest_block _ _
  | collecting =>
    refine (rest_block _ _).trans ?_
    show rest (if (expired r.now e).isEmpty then .ended (.cleaned 0) else .marking (expired r.now e))
      r e = .ok (.cleaned (expired r.now e).length) ((expired r.now e).foldl expire e)
    cases expired r.now e with
    | nil => rfl
    | cons id ids => rfl
  | marking ids => exact rest_block _ _
  | ended reply => rfl

theorem left_block {α : Type} (m : EngineM α) {follow : α → Task} {n : Nat}
    (h : ∀ a, left (follow a) ≤ n) : left (block m follow r e).1 ≤ n := by
  unfold block
  cases m r e with
  | ok a e' => exact h a
  | err x e' => exact Nat.zero_le n
  | trap => exact Nat.zero_le n

theorem left_next (t : Task) : left (next r t e).1 ≤ left t - 1 := by
  cases t with
  | stored q v => exact left_block _ fun _ => by cases q <;> simp [Ballot.after, left]
  | offered p => exact left_block _ fun found => by cases found <;> simp [left]
  | collecting => exact left_block _ fun ids => by cases ids <;> simp [left]
  | ended reply => exact Nat.le_refl 0
  | _ => exact left_block _ fun _ => Nat.le_refl _

/-- A number of blocks of one call, one after the other. -/
def blocks (r : Surroundings) : Nat → Task × ConsensusEngine → Task × ConsensusEngine
  | 0, x => x
  | n + 1, x => blocks r n (next r x.1 x.2)

theorem blocks_ends (n : Nat) (x : Task × ConsensusEngine) (h : left x.1 ≤ n)
    (hx : x.1 ≠ .ended .panicked) :
    ∃ reply e', blocks r n x = (.ended reply, e') ∧ rest x.1 r x.2 = reply.code r e' ∧
      reply ≠ .panicked := by
  induction n generalizing x with
  | zero =>
    obtain ⟨reply, hend⟩ := ended_of_left (Nat.le_zero.mp h)
    refine ⟨reply, x.2, Prod.ext hend rfl, by rw [hend]; rfl, ?_⟩
    intro heq
    exact hx (heq ▸ hend)
  | succ n ih =>
    have hleft := @left_next r x.2 x.1
    obtain ⟨reply, e', hblocks, hrest, hregular⟩ :=
      ih (next r x.1 x.2) (by omega) ((block_next x.1).regular hx)
    exact ⟨reply, e', hblocks, (rest_next x.1).symm.trans hrest, hregular⟩

theorem leave_bind_pure {α β : Type} (m : EngineM α) (f : α → β) :
    leave (m >>= fun a => pure (f a)) r e = leave m r e := by
  cases h : m r e with
  | ok a e' =>
    simp only [leave, bind, h]
    rfl
  | err x e' => simp only [leave, bind, h]
  | trap => simp only [leave, bind, h]

/-- The blocks of a vote read the node's identifier as they find it. It is the
one that the call began with. -/
theorem check_eq (q : Ballot) : q.check r e =
    (do
      let voted ← hasVoted q.proposalId (q.voter e.nodeId)
      HostM.failIf (voted = true) (NetworkError.validation q.duplicate)
      storeVote (q.made r e)
      q.count (q.made r e) : EngineM Reply) r e := by
  unfold Ballot.check Ballot.checkFirst Ballot.store
  simp only [bind, HostM.get, HostM.ask, hasVoted, HostM.gets]
  cases (e.votesOf q.proposalId).any fun v => decide (v.voter = q.voter e.nodeId) with
  | false => rfl
  | true => rfl

theorem rest_begun (q : Ballot) : rest (.begun q) r e =
    (do
      requireVotable q.proposalId q.unknown
      let voted ← hasVoted q.proposalId (q.voter e.nodeId)
      HostM.failIf (voted = true) (NetworkError.validation q.duplicate)
      storeVote (q.made r e)
      q.count (q.made r e) : EngineM Reply) r e := by
  have hread := requireVotable_readOnly q.proposalId q.unknown r e
  have hcheck := @check_eq r e q
  simp only [rest, bind] at hcheck ⊢
  cases h : requireVotable q.proposalId q.unknown r e with
  | ok a e' =>
    obtain rfl := hread a e' h
    exact hcheck
  | err x e' => rfl
  | trap => rfl

/-- The code of a call, from its beginning, is the sequential function. -/
theorem leave_rest_entry (call : EngineCall) : leave (rest (entry call)) r e = call.after r e := by
  cases call with
  | createProposal content => exact leave_bind_pure _ _
  | processProposal p => exact leave_bind_pure _ _
  | vote id voteType signature =>
    have hrest := @rest_begun r e (.vote id voteType signature)
    refine Eq.trans ?_ (leave_bind_pure _ fun _ => Reply.done)
    unfold leave
    rw [entry, hrest]
    simp only [vote, Ballot.count, Ballot.finish, broadcast, bind_bind]
    rfl
  | processVote v =>
    have hrest := @rest_begun r e (.processVote v)
    refine Eq.trans ?_ (leave_bind_pure _ fun _ => Reply.done)
    unfold leave
    rw [entry, hrest]
    simp only [processVote, bind_bind]
    rfl
  | cleanupExpiredProposals => exact leave_bind_pure _ _

theorem run_blocks {s : Calls} {i : Nat} {t : Task} (n : Nat) (h : s.tasks[i]? = some t) :
    ∃ moves, Run Step s moves (s.put i (blocks r n (t, s.shared))) := by
  induction n generalizing s t with
  | zero =>
    refine ⟨[], ?_⟩
    rw [blocks, put_self h]
    exact .nil
  | succ n ih =>
    obtain ⟨moves, hrun⟩ := ih (get_put_self (x := next r t s.shared) h)
    rw [put_put] at hrun
    exact ⟨_, Run.trans (.snoc .nil (step_advance h)) hrun⟩

/-- A call that nothing interrupts ends, and leaves what the sequential function
leaves. -/
theorem alone (s : Calls) (call : EngineCall) (r : Surroundings) :
    ∃ moves reply, Run Step s moves ⟨call.after r s.shared, s.tasks ++ [.ended reply]⟩ := by
  have hget : (s.start (entry call)).tasks[s.tasks.length]? = some (entry call) := by
    simp [System.start]
  have hleft : left (entry call) ≤ 5 := by
    cases call <;> simp [entry, left]
  have hentry : entry call ≠ .ended .panicked := by
    cases call <;> simp [entry]
  obtain ⟨reply, e', hblocks, hrest, hregular⟩ :=
    blocks_ends (r := r) 5 (entry call, s.shared) hleft hentry
  have he' : e' = call.after r s.shared := by
    rw [← leave_rest_entry, leave, hrest]
    cases reply with
    | panicked => exact False.elim (hregular rfl)
    | _ => rfl
  obtain ⟨moves, hrun⟩ := run_blocks (r := r) 5 hget
  have hstart : Run Step s [.start call] (s.start (entry call)) := .snoc .nil step_start
  rw [start_shared, hblocks, he'] at hrun
  have hput : (s.start (entry call)).put s.tasks.length (.ended reply, call.after r s.shared) =
      ⟨call.after r s.shared, s.tasks ++ [.ended reply]⟩ := by
    simp [System.put, System.start]
  rw [hput] at hrun
  exact ⟨_, reply, hstart.trans hrun⟩

end Axionvera.Node.Interleaved

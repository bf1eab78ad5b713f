import Axionvera.Node.Consensus

/-! # What a vote does

A vote, cast or received, is refused and leaves the engine as it was, or is
recorded and counted. Both ways to vote record alike (`recorded`). -/
namespace Axionvera.Node.Voting
open Axionvera.Lib.Host Axionvera.Node.Consensus

variable {r : Surroundings} {e : ConsensusEngine} {p : Proposal} {v : Vote} {id : String}

/-- A proposal with one more vote counted, the recorded votes now being `votes`. -/
def counted (p : Proposal) (votes : List Vote) : Proposal :=
  { p with
    currentVotes := p.currentVotes + 1
    status := if p.requiredVotes ≤ p.currentVotes + 1 then finalStatus votes else p.status }

/-- The engine with a vote on `p` recorded and counted. -/
def recorded (e : ConsensusEngine) (v : Vote) (p : Proposal) : ConsensusEngine :=
  { e with
    votes := e.votes.insert v.proposalId (e.votesOf v.proposalId ++ [v])
    proposals := e.proposals.insert v.proposalId (counted p (e.votesOf v.proposalId ++ [v])) }

@[simp] theorem recorded_lookup_self :
    (recorded e v p).proposals.lookup v.proposalId =
      some (counted p (e.votesOf v.proposalId ++ [v])) :=
  AList.lookup_insert _

@[simp] theorem recorded_votesOf_self :
    (recorded e v p).votesOf v.proposalId = e.votesOf v.proposalId ++ [v] := by
  simp [recorded, ConsensusEngine.votesOf]

theorem recorded_lookup_ne (h : id ≠ v.proposalId) :
    (recorded e v p).proposals.lookup id = e.proposals.lookup id :=
  AList.lookup_insert_ne h

theorem recorded_votesOf_ne (h : id ≠ v.proposalId) :
    (recorded e v p).votesOf id = e.votesOf id := by
  simp [recorded, ConsensusEngine.votesOf, AList.lookup_insert_ne h]

/-- When a vote on `p` is taken. -/
structure Accepts (r : Surroundings) (e : ConsensusEngine) (v : Vote) (p : Proposal) : Prop where
  found : e.proposals.lookup v.proposalId = some p
  votable : p.canVote r.now = true
  first : ∀ x ∈ e.votesOf v.proposalId, x.voter ≠ v.voter

theorem countVote_returns (h : e.proposals.lookup id = some p) :
    Returns (countVote id) r e () { e with
      proposals := e.proposals.insert id (counted p (e.votesOf id)) } := by
  by_cases hq : p.requiredVotes ≤ p.currentVotes + 1
  · simp [countVote, finalizeProposal, readProposal, h, Proposal.hasQuorum, hq, counted,
      ConsensusEngine.update, ConsensusEngine.votesOf]
  · simp [countVote, readProposal, h, Proposal.hasQuorum, hq, counted]

theorem store_count_returns (h : Accepts r e v p) :
    Returns (do storeVote v; countVote v.proposalId) r e () (recorded e v p) := by
  refine returns_bind.mpr ⟨(), _, returns_modify.mpr rfl, ?_⟩
  have hcount := @countVote_returns r
    { e with votes := e.votes.insert v.proposalId (e.votesOf v.proposalId ++ [v]) } p v.proposalId
    h.found
  simpa [recorded, ConsensusEngine.votesOf] using hcount

theorem requireVotable_returns {unknown : String} {x : Unit} {e' : ConsensusEngine} :
    Returns (requireVotable id unknown) r e x e' ↔
      (∃ p, e.proposals.lookup id = some p ∧ p.canVote r.now = true) ∧ e' = e := by
  simp only [requireVotable, readProposal, returns_bind, returns_ask, returns_gets, returns_okOr,
    returns_failIf]
  refine ⟨?_, ?_⟩
  · intro h
    obtain ⟨_, _, ⟨rfl, rfl⟩, _, _, ⟨rfl, rfl⟩, p, _, ⟨hp, rfl⟩, hcan, rfl⟩ := h
    exact ⟨⟨p, hp, by simpa using hcan⟩, rfl⟩
  · intro h
    obtain ⟨⟨p, hp, hcan⟩, rfl⟩ := h
    exact ⟨r, _, ⟨rfl, rfl⟩, _, _, ⟨rfl, rfl⟩, p, _, ⟨hp, rfl⟩, by simp [hcan], rfl⟩

theorem requireVotable_readOnly (id unknown : String) : ReadOnly (requireVotable id unknown) :=
  fun _ _ _ _ h => (requireVotable_returns.mp h).2

theorem requireVotable_clean (id unknown : String) : Clean (requireVotable id unknown) := by
  unfold requireVotable
  refine Clean.bind Clean.ask ReadOnly.ask fun _ => ?_
  refine Clean.bind (Clean.gets _) (ReadOnly.gets _) fun _ => ?_
  exact Clean.bind (Clean.lift _) (ReadOnly.lift _) fun _ => Clean.failIf _ _

theorem hasVoted_returns {voter : String} {voted : Bool} {e' : ConsensusEngine} :
    Returns (hasVoted id voter) r e voted e' ↔
      (voted = true ↔ ∃ x ∈ e.votesOf id, x.voter = voter) ∧ e' = e := by
  rw [hasVoted, returns_gets, Bool.eq_iff_iff]
  simp

/-- The checks in front of a vote, and what follows them. -/
def checked (v : Vote) (unknown : String) (error : NetworkError) (rest : EngineM Unit) :
    EngineM Unit := do
  requireVotable v.proposalId unknown
  let voted ← hasVoted v.proposalId v.voter
  HostM.failIf (voted = true) error
  rest

/-- A vote that does not pass the checks leaves the engine alone. -/
theorem leave_checked_of_not_accepts (unknown : String) (error : NetworkError)
    (rest : EngineM Unit) (h : ∀ p, ¬ Accepts r e v p) :
    leave (checked v unknown error rest) r e = e := by
  unfold checked
  rcases leave_bind (f := fun _ => hasVoted v.proposalId v.voter >>= fun voted =>
      HostM.failIf (voted = true) error >>= fun _ => rest)
    (requireVotable_clean v.proposalId unknown) (requireVotable_readOnly v.proposalId unknown)
    with h₁ | ⟨_, hvotable, h₁⟩
  · exact h₁
  rcases leave_bind (f := fun voted => HostM.failIf (voted = true) error >>= fun _ => rest)
    (Clean.gets fun e : ConsensusEngine => (e.votesOf v.proposalId).any fun x => x.voter = v.voter)
    (ReadOnly.gets _) with h₂ | ⟨voted, hvoted, h₂⟩
  · exact h₁.trans h₂
  rcases leave_bind (f := fun _ => rest) (Clean.failIf (voted = true) error)
    (ReadOnly.failIf _ _) with h₃ | ⟨_, hfirst, _⟩
  · exact h₁.trans (h₂.trans h₃)
  -- All three checks passed: then the vote was one to accept.
  obtain ⟨⟨p, hfound, hcan⟩, -⟩ := requireVotable_returns.mp hvotable
  refine False.elim (h p ⟨hfound, hcan, ?_⟩)
  intro x hx heq
  exact (returns_failIf.mp hfirst).1 ((hasVoted_returns.mp hvoted).1.mpr ⟨x, hx, heq⟩)

theorem checked_of_accepts (unknown : String) (error : NetworkError) (rest : EngineM Unit)
    (h : Accepts r e v p) : checked v unknown error rest r e = rest r e := by
  have hvotable : Returns (requireVotable v.proposalId unknown) r e () e :=
    requireVotable_returns.mpr ⟨⟨p, h.found, h.votable⟩, rfl⟩
  have hvoted : Returns (hasVoted v.proposalId v.voter) r e false e := by
    refine hasVoted_returns.mpr ⟨?_, rfl⟩
    simpa using h.first
  have hfirst : Returns (HostM.failIf (false = true) error : EngineM Unit) r e () e := by simp
  rw [checked, bind_of_returns hvotable, bind_of_returns hvoted, bind_of_returns hfirst]

theorem leave_processVote_of_not_accepts (h : ∀ p, ¬ Accepts r e v p) :
    leave (processVote v) r e = e :=
  leave_checked_of_not_accepts _ _ _ h

theorem leave_processVote_of_accepts (h : Accepts r e v p) :
    leave (processVote v) r e = recorded e v p := by
  refine leave_of_returns (a := ()) ?_
  exact (checked_of_accepts _ _ _ h).trans (store_count_returns h)

section Cast
variable {voteType : VoteType} {signature : List UInt8}

/-- The vote that a node casts. -/
def cast (r : Surroundings) (e : ConsensusEngine) (id : String) (voteType : VoteType)
    (signature : List UInt8) : Vote :=
  Vote.new r.now id e.nodeId voteType signature

theorem leave_vote_of_not_accepts (h : ∀ p, ¬ Accepts r e (cast r e id voteType signature) p) :
    leave (vote id voteType signature) r e = e :=
  leave_checked_of_not_accepts _ _ _ h

/-- The last block of `vote`. -/
def broadcast (receiver : Bool) (v : Vote) : EngineM Unit := do
  HostM.failIf (receiver = false) (NetworkError.server "Failed to broadcast vote: channel closed")
  HostM.modify fun e => { e with sentVotes := e.sentVotes ++ [v] }

theorem vote_of_accepts (h : Accepts r e (cast r e id voteType signature) p) :
    vote id voteType signature r e =
      broadcast r.voteReceiver (cast r e id voteType signature) r
        (recorded e (cast r e id voteType signature) p) := by
  have hrest := checked_of_accepts s!"Proposal {id} not found"
    (.validation s!"Already voted on proposal {id}")
    (do
      storeVote (cast r e id voteType signature)
      countVote id
      broadcast r.voteReceiver (cast r e id voteType signature)) h
  obtain ⟨_, _, hstore, hcount⟩ := returns_bind.mp (store_count_returns h)
  refine hrest.trans ?_
  rw [bind_of_returns hstore]
  exact bind_of_returns hcount

/-- A vote that cannot be broadcast is an error and is recorded all the same. -/
theorem leave_vote_of_accepts (h : Accepts r e (cast r e id voteType signature) p) :
    ∃ sent, leave (vote id voteType signature) r e =
      { recorded e (cast r e id voteType signature) p with sentVotes := sent } := by
  unfold leave
  rw [vote_of_accepts h]
  cases r.voteReceiver with
  | false => exact ⟨_, rfl⟩
  | true => exact ⟨_, rfl⟩

end Cast

end Axionvera.Node.Voting

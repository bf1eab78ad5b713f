import Axionvera.Lib.Transition
import Axionvera.Node.Agreement
import Mathlib.Data.Finset.Card

/-! # What the engine's records say about votes

An engine counts votes in the record of the proposal and keeps the votes in a
second map. The two agree in every run in which the proposals that are taken
over from peers are ones this engine could have made: not voted on, not decided
and not asking for fewer votes. -/
namespace Axionvera.Node.Quorum
open Axionvera.Lib.Host Axionvera.Lib.Transition Axionvera.Node.Consensus Axionvera.Node.Voting
open Axionvera.Node.Agreement

variable {r : Surroundings} {e e' : ConsensusEngine} {p : Proposal} {v : Vote} {id : String}
  {votes : List Vote} {required : Nat}

/-! ## Records in order -/

/-- The distinct voters among votes. -/
def voters (votes : List Vote) : Finset String := (votes.map Vote.voter).toFinset

/-- The record of a proposal, against the votes recorded for it and the number
that the engine requires. -/
structure InOrder (required : Nat) (votes : List Vote) (p : Proposal) : Prop where
  count : p.currentVotes.toNat = votes.length
  distinct : (votes.map Vote.voter).Nodup
  decided : Finalized p → required ≤ (voters votes).card

def Integrity (e : ConsensusEngine) : Prop :=
  ∀ id p, e.proposals.lookup id = some p → InOrder e.requiredVotes.toNat (e.votesOf id) p

/-- What carries the order of a record from call to call: the proposal can only
be decided by as many votes as the engine requires, and is when it has them. -/
structure Kept (required : Nat) (votes : List Vote) (p : Proposal) : Prop
    extends InOrder required votes p where
  open_quorum : p.status = .active → required ≤ quorum p
  room : p.status = .active → votes.length < quorum p

/-- The invariant. Votes are recorded for stored proposals only. -/
structure Sound (e : ConsensusEngine) : Prop where
  kept : ∀ id p, e.proposals.lookup id = some p → Kept e.requiredVotes.toNat (e.votesOf id) p
  known : ∀ id, e.proposals.lookup id = none → e.votesOf id = []

theorem Sound.integrity (h : Sound e) : Integrity e :=
  fun id p hp => (h.kept id p hp).toInOrder

/-- A call that writes the records of one proposal. -/
theorem Sound.write (h : Sound e) (hreq : e'.requiredVotes = e.requiredVotes)
    (hp : e'.proposals.lookup id = some p) (hkept : Kept e.requiredVotes.toNat (e'.votesOf id) p)
    (hother : ∀ x, x ≠ id →
      e'.proposals.lookup x = e.proposals.lookup x ∧ e'.votesOf x = e.votesOf x) : Sound e' := by
  refine ⟨?_, ?_⟩
  · intro x q hq
    rw [hreq]
    by_cases hx : x = id
    · rw [hx, hp] at hq
      cases hq
      rw [hx]
      exact hkept
    · rw [(hother x hx).1] at hq
      rw [(hother x hx).2]
      exact h.kept x q hq
  · intro x hx
    have hne : x ≠ id := by
      intro heq
      rw [heq, hp] at hx
      cases hx
    rw [(hother x hne).1] at hx
    rw [(hother x hne).2]
    exact h.known x hx

/-! ## A proposal is stored -/

/-- A proposal that an engine which requires this many votes could have made. -/
structure Admissible (required : Nat) (p : Proposal) : Prop where
  uncounted : p.currentVotes = 0
  undecided : Finalized p → required = 0
  open_quorum : p.status = .active → required ≤ quorum p

theorem Admissible.kept (h : Admissible required p) : Kept required [] p where
  count := by
    rw [h.uncounted]
    rfl
  distinct := List.nodup_nil
  decided := by
    intro hfin
    rw [h.undecided hfin]
    exact Nat.zero_le _
  open_quorum := h.open_quorum
  room := fun _ => quorum_pos p

theorem admissible_new (id : String) (now : Time) (proposer : String) (content : List UInt8)
    (required ttlMinutes : UInt64) :
    Admissible required.toNat (Proposal.new id now proposer content required ttlMinutes) where
  uncounted := rfl
  undecided := by
    intro h
    rcases h with h | h <;> cases h
  open_quorum := fun _ => Nat.le_max_right 1 required.toNat

/-- The engine with a proposal stored under its identifier. -/
def stored (e : ConsensusEngine) (p : Proposal) : ConsensusEngine :=
  { e with proposals := e.proposals.insert p.id p }

theorem Sound.stored (h : Sound e) (hnew : e.proposals.lookup p.id = none)
    (hp : Admissible e.requiredVotes.toNat p) : Sound (stored e p) := by
  refine h.write rfl (AList.lookup_insert _) ?_ fun x hx => ⟨AList.lookup_insert_ne hx, rfl⟩
  have hnone : (Quorum.stored e p).votesOf p.id = [] := h.known p.id hnew
  rw [hnone]
  exact hp.kept

theorem leave_processProposal_of_known {q : Proposal} (h : e.proposals.lookup p.id = some q) :
    leave (processProposal p) r e = e := by
  refine leave_of_returns (a := ()) ?_
  simp [processProposal, readProposal, h]

theorem leave_processProposal_of_new (h : e.proposals.lookup p.id = none) :
    leave (processProposal p) r e = stored e p := by
  refine leave_of_returns (a := ()) ?_
  simp [processProposal, readProposal, storeProposal, h, stored]

/-- The proposal that an engine makes. -/
def created (r : Surroundings) (e : ConsensusEngine) (content : List UInt8) : Proposal :=
  Proposal.new r.freshId r.now e.nodeId content e.requiredVotes e.proposalTtlMinutes

/-- The last block of `createProposal`. -/
def announce (receiver : Bool) (p : Proposal) : EngineM Proposal := do
  HostM.failIf (receiver = false)
    (NetworkError.server "Failed to broadcast proposal: channel closed")
  HostM.modify fun e => { e with sentProposals := e.sentProposals ++ [p] }
  return p

/-- A proposal that cannot be broadcast is an error and is stored all the same. -/
theorem leave_createProposal (r : Surroundings) (e : ConsensusEngine) (content : List UInt8) :
    ∃ sent, leave (createProposal content) r e =
      { stored e (created r e content) with sentProposals := sent } := by
  have hrun : createProposal content r e =
      announce r.proposalReceiver (created r e content) r (stored e (created r e content)) := rfl
  unfold leave
  rw [hrun]
  cases r.proposalReceiver with
  | false => exact ⟨_, rfl⟩
  | true => exact ⟨_, rfl⟩

/-! ## A vote is recorded -/

theorem Kept.counted (h : Kept required votes p) (hactive : p.status = .active)
    (hfirst : ∀ x ∈ votes, x.voter ≠ v.voter) :
    Kept required (votes ++ [v]) (counted p (votes ++ [v])) := by
  have hdistinct : ((votes ++ [v]).map Vote.voter).Nodup := by
    rw [List.map_append, List.nodup_append]
    refine ⟨h.distinct, List.nodup_singleton _, ?_⟩
    intro a ha b hb
    obtain ⟨x, hx, rfl⟩ := List.mem_map.mp ha
    rw [List.mem_singleton.mp hb]
    exact hfirst x hx
  have hcard : (voters (votes ++ [v])).card = votes.length + 1 := by
    rw [voters, List.toFinset_card_of_nodup hdistinct]
    simp
  have hroom : p.currentVotes.toNat < quorum p := by
    rw [h.count]
    exact h.room hactive
  have hcount : (Voting.counted p (votes ++ [v])).currentVotes.toNat = (votes ++ [v]).length := by
    rw [List.length_append, ← h.count]
    exact toNat_count_succ hroom
  have hiff := hasQuorum_succ_iff hroom
  rw [h.count] at hiff
  by_cases hq : p.requiredVotes ≤ p.currentVotes + 1
  · have hstatus : (Voting.counted p (votes ++ [v])).status = finalStatus (votes ++ [v]) :=
      if_pos hq
    have hclosed : (Voting.counted p (votes ++ [v])).status ≠ .active :=
      hstatus ▸ finalStatus_ne_active _
    refine ⟨⟨hcount, hdistinct, fun _ => ?_⟩, fun hact => absurd hact hclosed,
      fun hact => absurd hact hclosed⟩
    rw [hcard]
    exact (h.open_quorum hactive).trans (hiff.mp hq)
  · have hstatus : (Voting.counted p (votes ++ [v])).status = .active := (if_neg hq).trans hactive
    refine ⟨⟨hcount, hdistinct, ?_⟩, fun _ => h.open_quorum hactive, fun _ => ?_⟩
    · intro hfin
      rw [Finalized, hstatus] at hfin
      rcases hfin with hfin | hfin <;> cases hfin
    · rw [List.length_append]
      exact Nat.lt_of_not_le fun hle => hq (hiff.mpr hle)

theorem Sound.recorded (h : Sound e) (ha : Accepts r e v p) : Sound (recorded e v p) := by
  have hactive : p.status = .active := by
    have hcan := ha.votable
    simp only [Proposal.canVote, Bool.and_eq_true, decide_eq_true_eq] at hcan
    exact hcan.1
  refine h.write rfl recorded_lookup_self ?_ fun x hx =>
    ⟨recorded_lookup_ne hx, recorded_votesOf_ne hx⟩
  rw [recorded_votesOf_self]
  exact (h.kept v.proposalId p ha.found).counted hactive ha.first

/-! ## Expired proposals are marked -/

theorem Kept.expired (h : Kept required votes p) :
    Kept required votes { p with status := .expired } where
  count := h.count
  distinct := h.distinct
  decided := by
    intro hfin
    rcases hfin with hfin | hfin <;> cases hfin
  open_quorum := by
    intro hact
    cases hact
  room := by
    intro hact
    cases hact

theorem Sound.expire (h : Sound e) (id : String) : Sound (expire e id) := by
  unfold Consensus.expire ConsensusEngine.update
  cases hp : e.proposals.lookup id with
  | none => exact h
  | some p =>
    exact h.write rfl (AList.lookup_insert _) (h.kept id p hp).expired
      fun x hx => ⟨AList.lookup_insert_ne hx, rfl⟩

theorem Sound.expireAll (h : Sound e) (ids : List String) :
    Sound (ids.foldl Consensus.expire e) := by
  induction ids generalizing e with
  | nil => exact h
  | cons id ids ih => exact ih (h.expire id)

theorem leave_cleanupExpiredProposals (r : Surroundings) (e : ConsensusEngine) :
    ∃ ids : List String, leave cleanupExpiredProposals r e = ids.foldl expire e :=
  ⟨_, rfl⟩

/-! ## Runs -/

inductive EngineCall where
  | createProposal (content : List UInt8)
  | processProposal (proposal : Proposal)
  | vote (proposalId : String) (voteType : VoteType) (signature : List UInt8)
  | processVote (vote : Vote)
  | cleanupExpiredProposals

/-- The engine after a call, whether it returned an error or not. -/
def EngineCall.after (r : Surroundings) (e : ConsensusEngine) : EngineCall → ConsensusEngine
  | .createProposal content => leave (Consensus.createProposal content) r e
  | .processProposal proposal => leave (Consensus.processProposal proposal) r e
  | .vote id voteType signature => leave (Consensus.vote id voteType signature) r e
  | .processVote v => leave (Consensus.processVote v) r e
  | .cleanupExpiredProposals => leave Consensus.cleanupExpiredProposals r e

/-- `Uuid::new_v4` gives an identifier that is not in use. -/
def FreshId (r : Surroundings) (e : ConsensusEngine) : EngineCall → Prop
  | .createProposal _ => e.proposals.lookup r.freshId = none
  | _ => True

/-- A proposal that the call takes over from a peer is admissible. -/
def TakesOver (e : ConsensusEngine) : EngineCall → Prop
  | .processProposal p => e.proposals.lookup p.id = none → Admissible e.requiredVotes.toNat p
  | _ => True

/-- One call. -/
def Step (e : ConsensusEngine) (c : Surroundings × EngineCall) (e' : ConsensusEngine) : Prop :=
  FreshId c.1 e c.2 ∧ e' = c.2.after c.1 e

theorem Sound.after (h : Sound e) {c : EngineCall} (hfresh : FreshId r e c)
    (hover : TakesOver e c) : Sound (c.after r e) := by
  cases c with
  | createProposal content =>
    obtain ⟨sent, hleave⟩ := leave_createProposal r e content
    have hs := h.stored (p := created r e content) hfresh (admissible_new _ _ _ _ _ _)
    show Sound (leave (Consensus.createProposal content) r e)
    rw [hleave]
    exact ⟨hs.kept, hs.known⟩
  | processProposal p =>
    show Sound (leave (Consensus.processProposal p) r e)
    cases hp : e.proposals.lookup p.id with
    | none =>
      rw [leave_processProposal_of_new hp]
      exact h.stored hp (hover hp)
    | some q =>
      rw [leave_processProposal_of_known hp]
      exact h
  | vote id voteType signature =>
    show Sound (leave (Consensus.vote id voteType signature) r e)
    by_cases ha : ∃ p, Accepts r e (cast r e id voteType signature) p
    · obtain ⟨p, ha⟩ := ha
      obtain ⟨sent, hleave⟩ := leave_vote_of_accepts ha
      have hs := h.recorded ha
      rw [hleave]
      exact ⟨hs.kept, hs.known⟩
    · rw [leave_vote_of_not_accepts (not_exists.mp ha)]
      exact h
  | processVote v =>
    show Sound (leave (Consensus.processVote v) r e)
    by_cases ha : ∃ p, Accepts r e v p
    · obtain ⟨p, ha⟩ := ha
      rw [leave_processVote_of_accepts ha]
      exact h.recorded ha
    · rw [leave_processVote_of_not_accepts (not_exists.mp ha)]
      exact h
  | cleanupExpiredProposals =>
    obtain ⟨ids, hleave⟩ := leave_cleanupExpiredProposals r e
    show Sound (leave Consensus.cleanupExpiredProposals r e)
    rw [hleave]
    exact h.expireAll ids

theorem sound_new (nodeId : String) (required ttlMinutes : UInt64) :
    Sound (ConsensusEngine.new nodeId required ttlMinutes) := by
  refine ⟨?_, ?_⟩
  · intro id p hp
    rw [show (ConsensusEngine.new nodeId required ttlMinutes).proposals = ∅ from rfl,
      AList.lookup_empty] at hp
    cases hp
  · intro id _
    rfl

/-! ## The condition on received proposals is needed -/

theorem Sound.deliver (h : Sound e) (ds : List Delivery) : Sound (deliver e ds) := by
  induction ds generalizing e with
  | nil => exact h
  | cons d ds ih => exact ih (h.after (c := .processVote d.2) (r := d.1) trivial trivial)

theorem deliver_requiredVotes (e : ConsensusEngine) (ds : List Delivery) :
    (deliver e ds).requiredVotes = e.requiredVotes := by
  induction ds generalizing e with
  | nil => rfl
  | cons d ds ih =>
    refine (ih _).trans ?_
    show (leave (processVote d.2) d.1 e).requiredVotes = e.requiredVotes
    by_cases ha : ∃ p, Accepts d.1 e d.2 p
    · obtain ⟨p, ha⟩ := ha
      rw [leave_processVote_of_accepts ha]
      rfl
    · rw [leave_processVote_of_not_accepts (not_exists.mp ha)]

/-- Votes on `p` by `n` different voters, just before it expires. -/
def crowd (p : Proposal) (n : Nat) : List Delivery :=
  (List.range n).map fun i =>
    (⟨p.expiresAt, "", true, true⟩,
      Vote.new p.expiresAt p.id (String.ofList (List.replicate i 'v')) .approve [])

theorem election_crowd (p : Proposal) (n : Nat) : Election p (crowd p n) := by
  refine ⟨?_, ?_, ?_⟩
  · intro d hd
    obtain ⟨i, _, rfl⟩ := List.mem_map.mp hd
    rfl
  · rw [crowd, List.map_map]
    refine List.Nodup.map ?_ List.nodup_range
    intro i j hij
    have hlen := congrArg (fun s : String => s.toList.length) hij
    simpa [Vote.new] using hlen
  · intro d hd
    obtain ⟨i, _, rfl⟩ := List.mem_map.mp hd
    simp [Proposal.isExpired]

/-- A proposal that asks for fewer votes than the engine is decided by as many. -/
theorem not_integrity_of_low_quorum (h : Opened e p) (hlow : quorum p < e.requiredVotes.toNat) :
    ¬ Integrity (deliver e (crowd p (quorum p))) := by
  intro hint
  have hholds := h.deliver (election_crowd p (quorum p))
  have hlen : (firstVotes p (crowd p (quorum p))).length = quorum p := by
    simp [firstVotes, crowd]
  have horder := hint p.id _ hholds.proposal
  have hcard := horder.decided (finalized_held hlen.ge)
  rw [deliver_requiredVotes, hholds.recorded] at hcard
  have hle : (voters (firstVotes p (crowd p (quorum p)))).card ≤ quorum p := by
    refine (List.toFinset_card_le _).trans ?_
    rw [List.length_map, hlen]
  omega

theorem admissible_of_integrity (h : Sound e) (hnew : e.proposals.lookup p.id = none)
    (hint : ∀ ds, Integrity (deliver (stored e p) ds)) : Admissible e.requiredVotes.toNat p := by
  have hlookup : (stored e p).proposals.lookup p.id = some p := AList.lookup_insert _
  have hnone : (stored e p).votesOf p.id = [] := h.known p.id hnew
  have horder : InOrder e.requiredVotes.toNat [] p := by
    have hnow := hint [] p.id p hlookup
    rwa [show (deliver (stored e p) []).votesOf p.id = [] from hnone] at hnow
  have huncounted : p.currentVotes = 0 := UInt64.toNat_inj.mp horder.count
  refine ⟨huncounted, ?_, ?_⟩
  · intro hfin
    exact Nat.le_zero.mp (horder.decided hfin)
  · intro hact
    refine Nat.le_of_not_lt fun hlow => ?_
    exact not_integrity_of_low_quorum ⟨hact, huncounted, hlookup, hnone⟩ hlow (hint _)

/-! ## Integrity -/

/-- In every run in which each proposal taken over from a peer is admissible,
the records are in order. And nothing less will do: if a proposal that is not
admissible is taken over, votes can bring the records out of order. -/
theorem integrity_of_run {nodeId : String} {required ttlMinutes : UInt64}
    {calls : List (Surroundings × EngineCall)}
    (hrun : Run (fun e c e' => Step e c e' ∧ TakesOver e c.2)
      (ConsensusEngine.new nodeId required ttlMinutes) calls e) :
    Integrity e ∧
    ∀ r p, e.proposals.lookup p.id = none →
      ((∀ ds, Integrity (deliver (leave (processProposal p) r e) ds)) ↔
        Admissible e.requiredVotes.toNat p) := by
  have hsound : Sound e := by
    refine hrun.invariant (sound_new _ _ _) ?_
    intro s c t hs hstep
    obtain ⟨⟨hfresh, rfl⟩, hover⟩ := hstep
    exact hs.after hfresh hover
  refine ⟨hsound.integrity, ?_⟩
  intro r p hnew
  rw [leave_processProposal_of_new hnew]
  refine ⟨admissible_of_integrity hsound hnew, ?_⟩
  intro hp ds
  exact ((hsound.stored hnew hp).deliver ds).integrity

/-- A peer's proposal, decided here by the two votes this engine requires. -/
theorem integrity_of_run_two :
    outcome (peer 2) [ballot "x" .approve, ballot "y" .approve] = some .approved ∧
    Integrity (deliver (peer 2) [ballot "x" .approve, ballot "y" .approve]) := by
  have hmotion : Admissible (2 : UInt64).toNat (motion 2) := admissible_new _ _ _ _ _ _
  refine ⟨by decide, ?_⟩
  refine (@integrity_of_run _ "b" 2 60
    [((desk, .processVote (ballot "y" .approve).2)), (desk, .processVote (ballot "x" .approve).2),
      (desk, .processProposal (motion 2))] ?_).1
  refine .snoc (.snoc (.snoc .nil ⟨⟨trivial, rfl⟩, ?_⟩) ⟨⟨trivial, rfl⟩, trivial⟩)
    ⟨⟨trivial, rfl⟩, trivial⟩
  intro _
  exact hmotion

/-- An engine that requires two votes takes over a proposal that its sender
calls approved, without any. -/
theorem approved_without_votes :
    ∃ calls e, Run Step (ConsensusEngine.new "b" 2 60) calls e ∧
      (e.proposals.lookup "p").map Proposal.status = some .approved ∧ e.votesOf "p" = [] ∧
      ¬ Integrity e := by
  refine ⟨[(desk, .processProposal { motion 2 with status := .approved })], _,
    .snoc .nil ⟨trivial, rfl⟩, rfl, rfl, ?_⟩
  intro h
  have hdecided := (h "p" _ rfl).decided (Or.inl rfl)
  exact absurd hdecided (by decide)

end Axionvera.Node.Quorum

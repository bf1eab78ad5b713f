import Axionvera.Node.Voting
import Mathlib.Data.List.Induction
import Mathlib.Data.List.Perm.Basic

/-! # Two engines that receive the same votes

An engine finalizes a proposal on the votes that make its quorum and refuses
those that come later. So what two engines decide depends on which votes reach
each of them first, and on nothing else of the order. -/
namespace Axionvera.Node.Agreement
open Axionvera.Lib.Host Axionvera.Node.Consensus Axionvera.Node.Voting

variable {r : Surroundings} {e e' : ConsensusEngine} {p q q' : Proposal} {v : Vote}
  {votes : List Vote}

/-! ## The verdict on a list of votes -/

instance : RightCommutative Tally.count where
  right_comm t v w := by
    unfold Tally.count
    cases v.voteType <;> cases w.voteType <;> rfl

/-- The order in which votes were recorded does not matter. -/
theorem finalStatus_perm {votes votes' : List Vote} (h : votes.Perm votes') :
    finalStatus votes = finalStatus votes' := by
  unfold finalStatus tally
  rw [h.foldl_eq]

theorem finalStatus_ne_active (votes : List Vote) : finalStatus votes ≠ .active := by
  unfold finalStatus
  split
  · intro h; cases h
  · intro h; cases h

/-! ## The quorum -/

/-- How many votes finalize a proposal: a first one is always needed. -/
def quorum (p : Proposal) : Nat := max 1 p.requiredVotes.toNat

theorem quorum_pos (p : Proposal) : 0 < quorum p :=
  Nat.lt_of_lt_of_le Nat.zero_lt_one (Nat.le_max_left _ _)

theorem quorum_lt_size (p : Proposal) : quorum p < UInt64.size :=
  Nat.max_lt.mpr ⟨by decide, p.requiredVotes.toNat_lt⟩

/-- Short of the quorum the count does not wrap. -/
theorem toNat_count_succ (h : p.currentVotes.toNat < quorum p) :
    (p.currentVotes + 1).toNat = p.currentVotes.toNat + 1 := by
  have hlt := quorum_lt_size p
  rw [UInt64.toNat_add, UInt64.toNat_one]
  exact Nat.mod_eq_of_lt (by unfold UInt64.size at hlt; omega)

theorem hasQuorum_succ_iff (h : p.currentVotes.toNat < quorum p) :
    p.requiredVotes ≤ p.currentVotes + 1 ↔ quorum p ≤ p.currentVotes.toNat + 1 := by
  rw [UInt64.le_iff_toNat_le, toNat_count_succ h]
  unfold quorum
  omega

/-- The proposal once `votes` were counted. -/
def held (p : Proposal) (votes : List Vote) : Proposal :=
  { p with
    currentVotes := .ofNat votes.length
    status := if quorum p ≤ votes.length then finalStatus votes else .active }

theorem toNat_held (h : votes.length < quorum p) :
    (held p votes).currentVotes.toNat = votes.length :=
  UInt64.toNat_ofNat_of_lt (Nat.lt_trans h (quorum_lt_size p))

theorem counted_held (h : votes.length < quorum p) :
    counted (held p votes) (votes ++ [v]) = held p (votes ++ [v]) := by
  have hopen : ¬ quorum p ≤ votes.length := by omega
  have hcount := toNat_held h
  have hreq : (held p votes).requiredVotes ≤ (held p votes).currentVotes + 1 ↔
      quorum p ≤ votes.length + 1 := by
    have hiff := hasQuorum_succ_iff (p := held p votes) (by rw [hcount]; exact h)
    rwa [hcount] at hiff
  simp only [held] at hreq
  simp only [counted, held, hopen, hreq, if_false, List.length_append, List.length_singleton,
    UInt64.ofNat_add, UInt64.ofNat_one]

/-! ## One vote -/

/-- The engine has recorded and counted exactly these votes on `p`. -/
structure Holds (e : ConsensusEngine) (p : Proposal) (votes : List Vote) : Prop where
  proposal : e.proposals.lookup p.id = some (held p votes)
  recorded : e.votesOf p.id = votes

theorem Holds.accepts (h : Holds e p votes) (hopen : votes.length < quorum p)
    (hid : v.proposalId = p.id) (htime : p.isExpired r.now = false)
    (hfirst : ∀ x ∈ votes, x.voter ≠ v.voter) : Accepts r e v (held p votes) := by
  refine ⟨by rw [hid]; exact h.proposal, ?_, ?_⟩
  · have hstatus : (held p votes).status = .active := if_neg (by omega)
    have hexp : (held p votes).isExpired r.now = false := htime
    simp [Proposal.canVote, hstatus, hexp]
  · rw [hid, h.recorded]
    exact hfirst

theorem Holds.refuses (h : Holds e p votes) (hfull : quorum p ≤ votes.length)
    (hid : v.proposalId = p.id) : ∀ q, ¬ Accepts r e v q := by
  intro q hq
  have hheld := hq.found
  rw [hid, h.proposal] at hheld
  cases hheld
  have hstatus : (held p votes).status = finalStatus votes := if_pos hfull
  have hcan := hq.votable
  simp [Proposal.canVote, hstatus, finalStatus_ne_active] at hcan

theorem Holds.processVote (h : Holds e p votes) (hid : v.proposalId = p.id)
    (htime : p.isExpired r.now = false) (hfirst : ∀ x ∈ votes, x.voter ≠ v.voter)
    (hlen : votes.length ≤ quorum p) :
    Holds (leave (processVote v) r e) p ((votes ++ [v]).take (quorum p)) := by
  by_cases hopen : votes.length < quorum p
  · rw [leave_processVote_of_accepts (h.accepts hopen hid htime hfirst),
      List.take_of_length_le (by simpa using Nat.succ_le_of_lt hopen)]
    refine ⟨?_, ?_⟩
    · rw [← hid, recorded_lookup_self, hid, h.recorded, counted_held hopen]
    · rw [← hid, recorded_votesOf_self, hid, h.recorded]
  · have hfull : quorum p ≤ votes.length := Nat.le_of_not_lt hopen
    rw [leave_processVote_of_not_accepts (h.refuses hfull hid), List.take_append_of_le_length hfull,
      List.take_of_length_le hlen]
    exact h

/-! ## A sequence of votes -/

/-- A vote, with what the engine finds around it when the vote arrives. -/
abbrev Delivery : Type := Surroundings × Vote

/-- Votes delivered one after the other. An answer, error or not, goes to the
sender. -/
def deliver (e : ConsensusEngine) (ds : List Delivery) : ConsensusEngine :=
  ds.foldl (fun e d => leave (processVote d.2) d.1 e) e

/-- The votes that an engine sees in time to decide `p`. -/
def firstVotes (p : Proposal) (ds : List Delivery) : List Vote :=
  (ds.map Prod.snd).take (quorum p)

/-- Votes on `p` by different voters, delivered before it expires. -/
structure Election (p : Proposal) (ds : List Delivery) : Prop where
  topic : ∀ d ∈ ds, d.2.proposalId = p.id
  distinct : (ds.map fun d => d.2.voter).Nodup
  inTime : ∀ d ∈ ds, p.isExpired d.1.now = false

/-- The engine holds `p` as it was created. -/
structure Opened (e : ConsensusEngine) (p : Proposal) : Prop where
  active : p.status = .active
  uncounted : p.currentVotes = 0
  stored : e.proposals.lookup p.id = some p
  unvoted : e.votesOf p.id = []

theorem Opened.holds (h : Opened e p) : Holds e p [] := by
  have hclosed : ¬ quorum p ≤ 0 := Nat.not_le.mpr (quorum_pos p)
  have hp : held p [] = p := by
    obtain ⟨_, _, _, _, _, _, _, _⟩ := p
    obtain ⟨rfl, rfl, _, _⟩ := h
    simp [held, hclosed]
  exact ⟨by rw [h.stored, hp], h.unvoted⟩

theorem firstVotes_concat (p : Proposal) (ds : List Delivery) (d : Delivery) :
    firstVotes p (ds ++ [d]) = (firstVotes p ds ++ [d.2]).take (quorum p) := by
  have hroom : quorum p - min (quorum p) ds.length = quorum p - ds.length := by omega
  simp [firstVotes, List.take_append, List.take_take, hroom]

theorem Election.of_concat {ds : List Delivery} {d : Delivery} (h : Election p (ds ++ [d])) :
    Election p ds := by
  refine ⟨fun x hx => h.topic x (by simp [hx]), ?_, fun x hx => h.inTime x (by simp [hx])⟩
  have hnodup := h.distinct
  rw [List.map_append] at hnodup
  exact hnodup.of_append_left

theorem Election.first {ds : List Delivery} {d : Delivery} (h : Election p (ds ++ [d])) :
    ∀ x ∈ firstVotes p ds, x.voter ≠ d.2.voter := by
  intro x hx
  obtain ⟨y, hy, rfl⟩ := List.mem_map.mp (List.mem_of_mem_take hx)
  have hnodup := h.distinct
  rw [List.map_append, List.nodup_append] at hnodup
  exact hnodup.2.2 _ (List.mem_map_of_mem hy) _ (by simp)

/-- After any sequence of votes the engine holds the first of them. -/
theorem Opened.deliver {ds : List Delivery} (h : Opened e p) (hds : Election p ds) :
    Holds (deliver e ds) p (firstVotes p ds) := by
  induction ds using List.reverseRecOn with
  | nil =>
    have hnone : firstVotes p [] = [] := List.take_nil
    rw [hnone]
    exact h.holds
  | append_singleton ds d ih =>
    rw [Agreement.deliver, List.foldl_append, firstVotes_concat]
    refine (ih hds.of_concat).processVote (hds.topic d (by simp)) (hds.inTime d (by simp))
      hds.first ?_
    exact List.length_take_le _ _

/-! ## Agreement -/

def Finalized (p : Proposal) : Prop := p.status = .approved ∨ p.status = .rejected

theorem finalized_held (h : quorum p ≤ votes.length) : Finalized (held p votes) := by
  have hstatus : (held p votes).status = finalStatus votes := if_pos h
  unfold Finalized
  rw [hstatus, finalStatus]
  split
  · exact Or.inl rfl
  · exact Or.inr rfl

theorem Opened.finalized {ds : List Delivery} (h : Opened e p) (hds : Election p ds)
    (hq : (Agreement.deliver e ds).proposals.lookup p.id = some q) (hfin : Finalized q) :
    q.status = finalStatus (firstVotes p ds) := by
  rw [(h.deliver hds).proposal] at hq
  cases hq
  unfold held
  split
  · rfl
  · rename_i hopen
    simp [Finalized, held, hopen] at hfin

theorem Election.votes_nodup {ds : List Delivery} (h : Election p ds) :
    (ds.map Prod.snd).Nodup := by
  have hnodup := h.distinct
  rw [show ds.map (fun d => d.2.voter) = (ds.map Prod.snd).map Vote.voter by
    rw [List.map_map]; rfl] at hnodup
  exact List.Nodup.of_map _ hnodup

/-- Two engines that open one proposal and receive the same votes in any two
orders finalize it alike exactly if the votes that reached each of them first
give one verdict: in particular if these are the same votes, and if no vote
comes after the quorum. -/
theorem finalized_alike_iff {ds ds' : List Delivery} (h : Opened e p) (h' : Opened e' p)
    (hds : Election p ds) (hds' : Election p ds')
    (hvotes : (ds.map Prod.snd).Perm (ds'.map Prod.snd))
    (hq : (deliver e ds).proposals.lookup p.id = some q) (hfin : Finalized q)
    (hq' : (deliver e' ds').proposals.lookup p.id = some q') (hfin' : Finalized q') :
    (q.status = q'.status ↔
      finalStatus (firstVotes p ds) = finalStatus (firstVotes p ds')) ∧
    ((∀ v, v ∈ firstVotes p ds ↔ v ∈ firstVotes p ds') → q.status = q'.status) ∧
    (ds.length ≤ quorum p → q.status = q'.status) := by
  rw [h.finalized hds hq hfin, h'.finalized hds' hq' hfin']
  refine ⟨Iff.rfl, ?_, ?_⟩
  · intro hsame
    have hnodup := hds.votes_nodup.sublist (List.take_sublist (quorum p) _)
    have hnodup' := hds'.votes_nodup.sublist (List.take_sublist (quorum p) _)
    exact finalStatus_perm ((List.perm_ext_iff_of_nodup hnodup hnodup').mpr hsame)
  · intro hlen
    have hlen' : (ds'.map Prod.snd).length ≤ quorum p := by
      rw [← hvotes.length_eq, List.length_map]
      exact hlen
    unfold firstVotes
    rw [List.take_of_length_le (by rwa [List.length_map]), List.take_of_length_le hlen']
    exact finalStatus_perm hvotes

section Ballots

/-- A clock and an identifier, with both channels open. -/
def desk : Surroundings := ⟨0, "p", true, true⟩

/-- The proposal of a node `a` that asks for `required` votes. -/
def motion (required : UInt64) : Proposal := Proposal.new "p" 0 "a" [] required 60

def proposer (required : UInt64) : ConsensusEngine :=
  leave (createProposal []) desk (ConsensusEngine.new "a" required 60)

def peer (required : UInt64) : ConsensusEngine :=
  leave (processProposal (motion required)) desk (ConsensusEngine.new "b" required 60)

def ballot (voter : String) (voteType : VoteType) : Delivery :=
  (desk, Vote.new 0 "p" voter voteType [])

theorem opened_proposer (required : UInt64) : Opened (proposer required) (motion required) :=
  ⟨rfl, rfl, rfl, rfl⟩

theorem opened_peer (required : UInt64) : Opened (peer required) (motion required) :=
  ⟨rfl, rfl, rfl, rfl⟩

/-- An election of ballots needs only different voters. -/
theorem election_ballots {required : UInt64} {ballots : List (String × VoteType)}
    (h : (ballots.map Prod.fst).Nodup) :
    Election (motion required) (ballots.map fun b => ballot b.1 b.2) := by
  refine ⟨?_, ?_, ?_⟩
  · intro d hd
    obtain ⟨b, _, rfl⟩ := List.mem_map.mp hd
    rfl
  · rw [List.map_map]
    exact h
  · intro d hd
    obtain ⟨b, _, rfl⟩ := List.mem_map.mp hd
    rfl

/-- The status of the proposal once the ballots are in. -/
def outcome (e : ConsensusEngine) (ds : List Delivery) : Option ProposalStatus :=
  ((deliver e ds).proposals.lookup "p").map Proposal.status

end Ballots

theorem finalized_alike_iff_three :
    outcome (proposer 2) [ballot "x" .approve, ballot "y" .approve, ballot "z" .reject] =
      outcome (peer 2) [ballot "y" .approve, ballot "x" .approve, ballot "z" .reject] := by
  have h := (finalized_alike_iff (opened_proposer 2) (opened_peer 2)
    (@election_ballots 2 [("x", .approve), ("y", .approve), ("z", .reject)] (by decide))
    (@election_ballots 2 [("y", .approve), ("x", .approve), ("z", .reject)] (by decide))
    (List.Perm.swap _ _ _) rfl (Or.inl rfl) rfl (Or.inl rfl)).1.mpr (by decide)
  exact congrArg some h

/-- One approval is enough for one engine and one rejection for the other. -/
theorem order_decides :
    Opened (proposer 1) (motion 1) ∧ Opened (peer 1) (motion 1) ∧
    (proposer 1).requiredVotes = (peer 1).requiredVotes ∧
    Election (motion 1) [ballot "x" .approve, ballot "y" .reject] ∧
    Election (motion 1) [ballot "y" .reject, ballot "x" .approve] ∧
    outcome (proposer 1) [ballot "x" .approve, ballot "y" .reject] = some .approved ∧
    outcome (peer 1) [ballot "y" .reject, ballot "x" .approve] = some .rejected := by
  refine ⟨opened_proposer 1, opened_peer 1, rfl, ?_, ?_, by decide, by decide⟩
  · exact @election_ballots 1 [("x", .approve), ("y", .reject)] (by decide)
  · exact @election_ballots 1 [("y", .reject), ("x", .approve)] (by decide)

end Axionvera.Node.Agreement

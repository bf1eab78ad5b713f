import Axionvera.Node.LoneCalls
import Mathlib.Logic.Function.Basic
import Mathlib.Data.Fintype.Basic

/-! # A network of engines

Every node runs its calls concurrently, under the locks of its own engine. What
an engine puts into its channels is carried to the others, in any order, late,
more than once or not at all; nothing else is. Identifiers of new proposals are
new to the network.

Such a network keeps its records straight: a recorded vote was cast by its
voter, and two nodes that know a proposal know the same one. It also never
decides: the node that counts the last vote of a quorum waits for itself, with
the proposals locked. -/
namespace Axionvera.Node.Gossip
open Axionvera.Lib.Guards Axionvera.Lib.Interleaving Axionvera.Lib.Transition
open Axionvera.Node.Consensus Axionvera.Node.Voting Axionvera.Node.Agreement
open Axionvera.Node.Interleaved Axionvera.Node.EngineLocks
open Axionvera.Node.LoneCalls (next_sending next_announcing)
open Axionvera.Node.Quorum (EngineCall created)

variable {r : Surroundings} {e e' : ConsensusEngine} {t t' : Task} {x x' : Point} {m : Move}
  {s s' : Locked} {p q : Proposal} {v : Vote} {id : String}

/-! ## What a call has in hand -/

/-- The received vote that a call is about. -/
def received : Ballot → List Vote
  | .vote _ _ _ => []
  | .processVote v => [v]

def taskVotes : Task → List Vote
  | .begun q => received q
  | .votable q => received q
  | .cleared q => received q
  | .stored q v => v :: received q
  | .sending v => [v]
  | _ => []

def taskProposals : Task → List Proposal
  | .announcing p => [p]
  | .offered p => [p]
  | .adopting p => [p]
  | _ => []

/-- The task of a call that has not come past the first request of
`finalize_proposal`. -/
def taskOf : Point → Option Task
  | .outside t => some t
  | .inside t => some t
  | .finalizing q v => some (.stored q v)
  | _ => none

/-- A proposal as it was created. -/
def blank (p : Proposal) : Proposal := { p with currentVotes := 0, status := .active }

/-- What a step of a call does to the engine. -/
inductive Deed (r : Surroundings) (e : ConsensusEngine) : Task → Point → ConsensusEngine → Prop
  | quiet {t t' : Task} {x : Point} (task : taskOf x = some t') (votes : taskVotes t' ⊆ taskVotes t)
      (proposals : taskProposals t' ⊆ taskProposals t) : Deed r e t x e
  | records {q : Ballot} :
      Deed r e (.cleared q) (.outside (.stored q (q.made r e))) (withVote e (q.made r e))
  | counts {q : Ballot} {v : Vote} {p : Proposal}
      (found : e.proposals.lookup q.proposalId = some p) :
      Deed r e (.stored q v)
        (if p.requiredVotes ≤ p.currentVotes + 1 then .finalizing q v else .outside (q.after v))
        { e with proposals :=
            e.proposals.insert q.proposalId { p with currentVotes := p.currentVotes + 1 } }
  | sends {v : Vote} {reply : Reply} :
      Deed r e (.sending v) (.outside (.ended reply)) { e with sentVotes := e.sentVotes ++ [v] }
  | creates {content : List UInt8} :
      Deed r e (.creating content) (.outside (.announcing (created r e content)))
        (Quorum.stored e (created r e content))
  | announces {p : Proposal} {reply : Reply} :
      Deed r e (.announcing p) (.outside (.ended reply))
        { e with sentProposals := e.sentProposals ++ [p] }
  | adopts {p : Proposal} : Deed r e (.adopting p) (.outside (.ended .done)) (Quorum.stored e p)
  | marks {ids : List String} {reply : Reply} :
      Deed r e (.marking ids) (.outside (.ended reply)) (ids.foldl expire e)

theorem taskVotes_after (q : Ballot) (v : Vote) : taskVotes (q.after v) ⊆ taskVotes (.stored q v) := by
  cases q with
  | vote => exact List.cons_subset_cons v (List.nil_subset _)
  | processVote => exact List.nil_subset _

theorem taskProposals_after (q : Ballot) (v : Vote) : taskProposals (q.after v) = [] := by
  cases q <;> rfl

/-- The blocks of which `Block` says everything. -/
theorem deed_of_block (h : Block r e t t' e') (hcount : ∀ q v, t ≠ .stored q v)
    (hsend : ∀ v, t ≠ .sending v) (hannounce : ∀ p, t ≠ .announcing p) :
    Deed r e t (.outside t') e' := by
  cases h with
  | votable => exact .quiet rfl (List.Subset.refl _) (List.Subset.refl _)
  | cleared => exact .quiet rfl (List.Subset.refl _) (List.Subset.refl _)
  | stored => exact .records
  | counted => exact absurd rfl (hcount _ _)
  | uncounted => exact absurd rfl (hcount _ _)
  | sent => exact absurd rfl (hsend _)
  | created => exact .creates
  | announced => exact absurd rfl (hannounce _)
  | offered => exact .quiet rfl (List.Subset.refl _) (List.Subset.refl _)
  | adopted => exact .adopts
  | marked => exact .marks
  | _ => exact .quiet rfl (List.nil_subset _) (List.nil_subset _)

theorem deed_body (r : Surroundings) (t : Task) (e : ConsensusEngine) :
    Deed r e t (body r t e).1 (body r t e).2 := by
  cases t with
  | stored q v =>
    show Deed r e _ (count q v e).1 (count q v e).2
    unfold count
    cases hfound : e.proposals.lookup q.proposalId with
    | none =>
      exact .quiet rfl (taskVotes_after q v) (by rw [taskProposals_after]; exact List.nil_subset _)
    | some p =>
      have hdeed := @Deed.counts r e q v p hfound
      simpa [Proposal.hasQuorum] using hdeed
  | sending v =>
    show Deed r e _ (.outside (next r (.sending v) e).1) (next r (.sending v) e).2
    rw [next_sending]
    split
    · exact .sends
    · exact .quiet rfl (List.nil_subset _) (List.nil_subset _)
  | announcing p =>
    show Deed r e _ (.outside (next r (.announcing p) e).1) (next r (.announcing p) e).2
    rw [next_announcing]
    split
    · exact .announces
    · exact .quiet rfl (List.nil_subset _) (List.nil_subset _)
  | _ => exact deed_of_block (block_next _) (by simp) (by simp) (by simp)

/-- A call whose request is granted does one of these, since nobody grants
`finalize_proposal` its first request. -/
theorem deed_of_granted (ht : taskOf x = some t) (hx : x ∈ s.tasks)
    (hgranted : Granted locking s.tasks x) :
    Deed r s.shared t (step r x s.shared).1 (step r x s.shared).2 := by
  cases x with
  | outside t' =>
    obtain rfl : t' = t := Option.some.inj ht
    by_cases hfree : guardOf t' = none
    · have hbody : step r (.outside t') s.shared = body r t' s.shared := if_neg (by simp [hfree])
      rw [hbody]
      exact deed_body r t' s.shared
    · rw [step_acquire hfree]
      exact .quiet rfl (List.Subset.refl _) (List.Subset.refl _)
  | inside t' =>
    obtain rfl : t' = t := Option.some.inj ht
    exact deed_body r t' s.shared
  | finalizing q v => exact absurd hgranted (stuck_finalizing.not_granted hx)
  | _ => cases ht

/-! ## What stays of the records -/

theorem Deed.nodeId (h : Deed r e t x e') : e'.nodeId = e.nodeId := by
  cases h with
  | @marks ids reply =>
    obtain ⟨proposals, hexpired⟩ := expireAll_eq (e := e) ids
    rw [hexpired]
  | _ => rfl

theorem Deed.votes_mono (h : Deed r e t x e') (hv : v ∈ e.votesOf id) : v ∈ e'.votesOf id := by
  cases h with
  | records =>
    rw [withVote_votesOf]
    split
    · exact List.mem_append_left _ hv
    · exact hv
  | marks =>
    rw [expireAll_votesOf]
    exact hv
  | _ => exact hv

/-- A recorded vote was recorded before, or it is the one that is recorded now. -/
theorem Deed.vote_origin (h : Deed r e t x e') (hv : v ∈ e'.votesOf id) : v ∈ e.votesOf id ∨
    ∃ q, t = .cleared q ∧ v = q.made r e ∧ id = v.proposalId := by
  cases h with
  | @records q =>
    rw [withVote_votesOf] at hv
    split at hv
    · rename_i hid
      rcases List.mem_append.mp hv with hv | hv
      · exact Or.inl hv
      · obtain rfl := List.mem_singleton.mp hv
        exact Or.inr ⟨q, rfl, rfl, hid⟩
    · exact Or.inl hv
  | marks =>
    rw [expireAll_votesOf] at hv
    exact Or.inl hv
  | _ => exact Or.inl hv

/-- A stored proposal was there before, with other counts perhaps, or it is the
one that is stored now. -/
theorem Deed.proposal_origin (h : Deed r e t x e') (hp : e'.proposals.lookup id = some p) :
    (∃ q, e.proposals.lookup id = some q ∧ blank q = blank p) ∨
    (∃ content, t = .creating content ∧ p = created r e content ∧ id = r.freshId) ∨
    (t = .adopting p ∧ id = p.id) := by
  cases h with
  | @counts q v p₀ found =>
    simp only at hp
    by_cases hid : id = q.proposalId
    · subst hid
      rw [AList.lookup_insert] at hp
      obtain rfl := Option.some.inj hp
      exact Or.inl ⟨p₀, found, rfl⟩
    · rw [AList.lookup_insert_ne hid] at hp
      exact Or.inl ⟨p, hp, rfl⟩
  | @creates content =>
    rw [stored_lookup] at hp
    split at hp
    · rename_i hid
      exact Or.inr (Or.inl ⟨content, rfl, (Option.some.inj hp).symm, hid⟩)
    · exact Or.inl ⟨p, hp, rfl⟩
  | @adopts p₀ =>
    rw [stored_lookup] at hp
    split at hp
    · rename_i hid
      obtain rfl := Option.some.inj hp
      exact Or.inr (Or.inr ⟨rfl, hid⟩)
    · exact Or.inl ⟨p, hp, rfl⟩
  | @marks ids =>
    rw [expireAll_lookup] at hp
    obtain ⟨q, hq, rfl⟩ := Option.map_eq_some_iff.mp hp
    refine Or.inl ⟨q, hq, ?_⟩
    split <;> rfl
  | _ => exact Or.inl ⟨p, hp, rfl⟩

/-- No proposal is ever removed. -/
theorem Deed.known (h : Deed r e t x e') (hp : e.proposals.lookup id = some p) :
    ∃ q, e'.proposals.lookup id = some q := by
  cases h with
  | @counts q v p₀ found =>
    by_cases hid : id = q.proposalId
    · subst hid
      exact ⟨_, AList.lookup_insert _⟩
    · exact ⟨p, (AList.lookup_insert_ne hid).trans hp⟩
  | creates =>
    rw [stored_lookup]
    split
    · exact ⟨_, rfl⟩
    · exact ⟨p, hp⟩
  | adopts =>
    rw [stored_lookup]
    split
    · exact ⟨_, rfl⟩
    · exact ⟨p, hp⟩
  | marks =>
    rw [expireAll_lookup, hp]
    exact ⟨_, rfl⟩
  | _ => exact ⟨p, hp⟩

/-- What a call has in hand after a step it had before, or has just made. -/
theorem Deed.cargo (h : Deed r e t x e') : ∃ t', taskOf x = some t' ∧
    (∀ v ∈ taskVotes t', v ∈ taskVotes t ∨
      ∃ q, t = .cleared q ∧ v = q.made r e ∧ e' = withVote e v) ∧
    ∀ p ∈ taskProposals t', p ∈ taskProposals t ∨
      ∃ content, t = .creating content ∧ p = created r e content ∧ e' = Quorum.stored e p := by
  cases h with
  | quiet task votes proposals =>
    exact ⟨_, task, fun v hv => Or.inl (votes hv), fun p hp => Or.inl (proposals hp)⟩
  | @records q =>
    refine ⟨_, rfl, fun v hv => ?_, fun p hp => absurd hp List.not_mem_nil⟩
    rcases List.mem_cons.mp hv with rfl | hv
    · exact Or.inr ⟨q, rfl, rfl, rfl⟩
    · exact Or.inl hv
  | @counts q v p found =>
    split
    · exact ⟨_, rfl, fun v hv => Or.inl hv, fun p hp => absurd hp List.not_mem_nil⟩
    · refine ⟨_, rfl, fun v hv => Or.inl (taskVotes_after q _ hv), fun p hp => ?_⟩
      rw [taskProposals_after] at hp
      exact absurd hp List.not_mem_nil
  | @creates content =>
    refine ⟨_, rfl, fun v hv => absurd hv List.not_mem_nil, fun p hp => Or.inr ?_⟩
    obtain rfl := List.mem_singleton.mp hp
    exact ⟨content, rfl, rfl, rfl⟩
  | sends =>
    exact ⟨_, rfl, fun v hv => absurd hv List.not_mem_nil, fun p hp => absurd hp List.not_mem_nil⟩
  | announces =>
    exact ⟨_, rfl, fun v hv => absurd hv List.not_mem_nil, fun p hp => absurd hp List.not_mem_nil⟩
  | adopts =>
    exact ⟨_, rfl, fun v hv => absurd hv List.not_mem_nil, fun p hp => absurd hp List.not_mem_nil⟩
  | marks =>
    exact ⟨_, rfl, fun v hv => absurd hv List.not_mem_nil, fun p hp => absurd hp List.not_mem_nil⟩

/-- What is sent was in hand. -/
theorem Deed.sent (h : Deed r e t x e') :
    (∀ v ∈ e'.sentVotes, v ∈ e.sentVotes ∨ v ∈ taskVotes t) ∧
    ∀ p ∈ e'.sentProposals, p ∈ e.sentProposals ∨ p ∈ taskProposals t := by
  cases h with
  | sends => exact ⟨fun v hv => List.mem_append.mp hv, fun p hp => Or.inl hp⟩
  | announces => exact ⟨fun v hv => Or.inl hv, fun p hp => List.mem_append.mp hp⟩
  | @marks ids =>
    obtain ⟨proposals, hexpired⟩ := expireAll_eq (e := e) ids
    rw [hexpired]
    exact ⟨fun v hv => Or.inl hv, fun p hp => Or.inl hp⟩
  | _ => exact ⟨fun v hv => Or.inl hv, fun p hp => Or.inl hp⟩

/-! ## One node among others -/

section Nodes
variable {V V' : Vote → Prop} {P P' : Proposal → Prop}

/-- A node that has seen nothing but votes in `V` and proposals in `P`. -/
structure Fair (V : Vote → Prop) (P : Proposal → Prop) (s : Locked) : Prop where
  votes : ∀ id, ∀ v ∈ s.shared.votesOf id, v.proposalId = id ∧ V v
  proposals : ∀ id p, s.shared.proposals.lookup id = some p → p.id = id ∧ P (blank p)
  sentVotes : ∀ v ∈ s.shared.sentVotes, V v
  sentProposals : ∀ p ∈ s.shared.sentProposals, P p
  tasks : ∀ x ∈ s.tasks, ∃ t, taskOf x = some t ∧ (∀ v ∈ taskVotes t, V v) ∧
    ∀ p ∈ taskProposals t, P p

theorem Fair.mono (h : Fair V P s) (hV : ∀ v, V v → V' v) (hP : ∀ p, P p → P' p) :
    Fair V' P' s where
  votes id v hv := (h.votes id v hv).imp_right (hV v)
  proposals id p hp := (h.proposals id p hp).imp_right (hP _)
  sentVotes v hv := hV v (h.sentVotes v hv)
  sentProposals p hp := hP p (h.sentProposals p hp)
  tasks x hx := by
    obtain ⟨t, ht, hv, hp⟩ := h.tasks x hx
    exact ⟨t, ht, fun v hmem => hV v (hv v hmem), fun p hmem => hP p (hp p hmem)⟩

theorem Fair.start (h : Fair V P s) {call : EngineCall} (hv : ∀ v ∈ taskVotes (entry call), V v)
    (hp : ∀ p ∈ taskProposals (entry call), P p) : Fair V P (s.start (.outside (entry call))) where
  votes := h.votes
  proposals := h.proposals
  sentVotes := h.sentVotes
  sentProposals := h.sentProposals
  tasks x hx := by
    rcases mem_start.mp hx with hx | rfl
    · exact h.tasks x hx
    · exact ⟨_, rfl, hv, hp⟩

/-- A step keeps a node fair, if what the node itself makes is fair. -/
theorem Fair.advance {i : Nat} (h : Fair V P s) (hx : s.tasks[i]? = some x)
    (hgranted : Granted locking s.tasks x) (hblank : ∀ p, P p → blank p = p)
    (hown : ∀ v : Vote, v.voter = s.shared.nodeId →
      v ∈ (step r x s.shared).2.votesOf v.proposalId → V v)
    (hmade : ∀ p : Proposal, p.proposer = s.shared.nodeId → blank p = p →
      (step r x s.shared).2.proposals.lookup p.id = some p → P p) :
    Fair V P (s.put i (step r x s.shared)) := by
  have hmem := List.mem_of_getElem? hx
  obtain ⟨t, ht, hvotes, hproposals⟩ := h.tasks x hmem
  have hdeed : Deed r s.shared t (step r x s.shared).1 (step r x s.shared).2 :=
    deed_of_granted ht hmem hgranted
  generalize step r x s.shared = y at hdeed hown hmade ⊢
  -- a vote of this node's own is fair because it is recorded here
  have hballot : ∀ q : Ballot, t = .cleared q → q.made r s.shared ∈
      y.2.votesOf (q.made r s.shared).proposalId → V (q.made r s.shared) := by
    intro q hq hrecorded
    cases q with
    | vote id voteType signature => exact hown _ rfl hrecorded
    | processVote v =>
      subst hq
      exact hvotes v List.mem_cons_self
  refine ⟨?_, ?_, ?_, ?_, ?_⟩
  · intro id v hv
    rcases hdeed.vote_origin hv with hold | ⟨q, hq, rfl, hid⟩
    · exact h.votes id v hold
    · exact ⟨hid.symm, hballot q hq (hid ▸ hv)⟩
  · intro id p hp
    rcases hdeed.proposal_origin hp with ⟨q, hq, hsame⟩ | ⟨content, hc, rfl, hid⟩ | ⟨ha, hid⟩
    · obtain ⟨hqid, hgenuine⟩ := h.proposals id q hq
      have hpid : (blank p).id = (blank q).id := by rw [hsame]
      exact ⟨hpid.trans hqid, hsame ▸ hgenuine⟩
    · subst hid
      exact ⟨rfl, hmade _ rfl rfl hp⟩
    · subst ha
      have hgenuine := hproposals p List.mem_cons_self
      rw [hblank p hgenuine]
      exact ⟨hid.symm, hgenuine⟩
  · intro v hv
    rcases hdeed.sent.1 v hv with hold | hhand
    · exact h.sentVotes v hold
    · exact hvotes v hhand
  · intro p hp
    rcases hdeed.sent.2 p hp with hold | hhand
    · exact h.sentProposals p hold
    · exact hproposals p hhand
  · intro z hz
    rcases mem_or_eq_of_mem_put hz with hz | rfl
    · exact h.tasks z hz
    · obtain ⟨t', ht', hv', hp'⟩ := hdeed.cargo
      refine ⟨t', ht', fun v hv => ?_, fun p hp => ?_⟩
      · rcases hv' v hv with hhand | ⟨q, hq, rfl, hy⟩
        · exact hvotes v hhand
        · refine hballot q hq ?_
          rw [hy, withVote_votesOf, if_pos rfl]
          exact List.mem_append_right _ List.mem_cons_self
      · rcases hp' p hp with hhand | ⟨content, _, rfl, hy⟩
        · exact hproposals p hhand
        · refine hmade _ rfl rfl ?_
          rw [hy, stored_lookup, if_pos rfl]

end Nodes

/-! ## The network -/

abbrev Net (n : Nat) : Type := Fin n → Locked

/-- What a node is set up with. -/
structure Setup where
  nodeId : String
  requiredVotes : UInt64
  ttlMinutes : UInt64

/-- Every node at its start. -/
def opened {n : Nat} (c : Fin n → Setup) : Net n := fun i =>
  ⟨.new (c i).nodeId (c i).requiredVotes (c i).ttlMinutes, []⟩

section Networks
variable {n : Nat} {net net' : Net n} {i j : Fin n} {c : Fin n → Setup}

/-- What a node receives some node has sent. -/
def Carried (net : Net n) : Move → Prop
  | .start (.processVote v) => ∃ j, v ∈ (net j).shared.sentVotes
  | .start (.processProposal p) => ∃ j, p ∈ (net j).shared.sentProposals
  | _ => True

instance : DecidablePred (Carried net)
  | .start (.processVote v) => inferInstanceAs (Decidable (∃ j, v ∈ (net j).shared.sentVotes))
  | .start (.processProposal p) =>
    inferInstanceAs (Decidable (∃ j, p ∈ (net j).shared.sentProposals))
  | .start (.createProposal _) => .isTrue trivial
  | .start (.vote _ _ _) => .isTrue trivial
  | .start .cleanupExpiredProposals => .isTrue trivial
  | .advance _ _ => .isTrue trivial

/-- The call is one of `create_proposal`, in front of its write. -/
def creating (x : Point) : Bool :=
  match taskOf x with
  | some (.creating _) => true
  | _ => false

/-- The identifier that a new proposal gets is new to the network. -/
def Fresh (net : Net n) (i : Fin n) : Move → Prop
  | .start _ => True
  | .advance k r => ∀ x ∈ (net i).tasks[k]?, creating x = true →
    ∀ j, (net j).shared.proposals.lookup r.freshId = none

instance : DecidablePred (Fresh net i)
  | .start _ => .isTrue trivial
  | .advance k _ => inferInstanceAs (Decidable (∀ x ∈ (net i).tasks[k]?, creating x = true → _))

/-- A step of one node. -/
def netAfter (net : Net n) (l : Fin n × Move) : Option (Net n) :=
  (EngineLocks.after (net l.1) l.2).map (Function.update net l.1)

def allowed (net : Net n) (l : Fin n × Move) : Bool :=
  decide (Carried net l.2 ∧ Fresh net l.1 l.2)

def NetStep (net : Net n) (l : Fin n × Move) (net' : Net n) : Prop :=
  allowed net l = true ∧ netAfter net l = some net'

theorem NetStep.cases {l : Fin n × Move} (h : NetStep net l net') : Carried net l.2 ∧
    Fresh net l.1 l.2 ∧ ∃ s', EngineLocks.Step (net l.1) l.2 s' ∧
      net' = Function.update net l.1 s' := by
  obtain ⟨hallowed, hafter⟩ := h
  obtain ⟨hcarried, hfresh⟩ := of_decide_eq_true hallowed
  obtain ⟨s', hs', rfl⟩ := Option.map_eq_some_iff.mp hafter
  exact ⟨hcarried, hfresh, s', hs', rfl⟩

/-- A vote that its voter has recorded. -/
def Cast (net : Net n) (v : Vote) : Prop :=
  ∃ j, (net j).shared.nodeId = v.voter ∧ v ∈ (net j).shared.votesOf v.proposalId

/-- A proposal as its proposer has created it. -/
def Genuine (net : Net n) (p : Proposal) : Prop :=
  blank p = p ∧ ∃ j q, (net j).shared.nodeId = p.proposer ∧
    (net j).shared.proposals.lookup p.id = some q ∧ blank q = p

structure Honest (net : Net n) : Prop where
  fair : ∀ i, Fair (Cast net) (Genuine net) (net i)
  same : ∀ i j id p q, (net i).shared.proposals.lookup id = some p →
    (net j).shared.proposals.lookup id = some q → blank p = blank q

theorem honest_opened (c : Fin n → Setup) : Honest (opened c) where
  fair i := {
    votes := fun id v hv => absurd hv List.not_mem_nil
    proposals := fun id p hp => by cases hp
    sentVotes := fun v hv => absurd hv List.not_mem_nil
    sentProposals := fun p hp => absurd hp List.not_mem_nil
    tasks := fun x hx => absurd hx List.not_mem_nil }
  same i j id p q hp := by cases hp

/-- A call that starts has in hand what was carried to the node. -/
theorem Honest.start {call : EngineCall} (h : Honest net) (hcarried : Carried net (.start call)) :
    Honest (Function.update net i ((net i).start (.outside (entry call)))) := by
  have hshared : ∀ j, (Function.update net i ((net i).start (.outside (entry call))) j).shared =
      (net j).shared := by
    intro j
    by_cases hj : j = i
    · subst hj
      rw [Function.update_self]
      rfl
    · rw [Function.update_of_ne hj]
  have hcast : Cast (Function.update net i ((net i).start (.outside (entry call)))) = Cast net := by
    unfold Cast
    simp only [hshared]
  have hgenuine : Genuine (Function.update net i ((net i).start (.outside (entry call)))) =
      Genuine net := by
    unfold Genuine
    simp only [hshared]
  refine ⟨fun j => ?_, by simpa only [hshared] using h.same⟩
  rw [hcast, hgenuine]
  by_cases hj : j = i
  · subst hj
    rw [Function.update_self]
    refine (h.fair j).start ?_ ?_
    · intro v hv
      cases call with
      | processVote w =>
        obtain rfl := List.mem_singleton.mp hv
        obtain ⟨k, hk⟩ := hcarried
        exact (h.fair k).sentVotes v hk
      | _ => exact absurd hv List.not_mem_nil
    · intro p hp
      cases call with
      | processProposal q =>
        obtain rfl := List.mem_singleton.mp hp
        obtain ⟨k, hk⟩ := hcarried
        exact (h.fair k).sentProposals p hk
      | _ => exact absurd hp List.not_mem_nil
  · rw [Function.update_of_ne hj]
    exact h.fair j

section Advance
variable {k : Nat}

/-- What a node has stored after a step some node had stored before it, or it is
new to all of them. -/
theorem Honest.lookup_new (h : Honest net) (hfresh : Fresh net i (.advance k r))
    (hx : (net i).tasks[k]? = some x) (hgranted : Granted locking (net i).tasks x)
    (hp : (step r x (net i).shared).2.proposals.lookup id = some p) :
    (∃ j q, (net j).shared.proposals.lookup id = some q ∧ blank q = blank p) ∨
      ∀ j, (net j).shared.proposals.lookup id = none := by
  have hmem := List.mem_of_getElem? hx
  obtain ⟨t, ht, _, hproposals⟩ := (h.fair i).tasks x hmem
  rcases (deed_of_granted ht hmem hgranted).proposal_origin hp with
    ⟨q, hq, hblank⟩ | ⟨content, rfl, _, rfl⟩ | ⟨rfl, rfl⟩
  · exact Or.inl ⟨i, q, hq, hblank⟩
  · refine Or.inr (hfresh x hx ?_)
    unfold creating
    rw [ht]
  · obtain ⟨hb, j, q, _, hq, hqp⟩ := hproposals p List.mem_cons_self
    exact Or.inl ⟨j, q, hq, hqp.trans hb.symm⟩

theorem Honest.advance (h : Honest net) (hfresh : Fresh net i (.advance k r))
    (hx : (net i).tasks[k]? = some x) (hgranted : Granted locking (net i).tasks x) :
    Honest (Function.update net i ((net i).put k (step r x (net i).shared))) := by
  have hmem := List.mem_of_getElem? hx
  obtain ⟨t, ht, _, _⟩ := (h.fair i).tasks x hmem
  have hdeed : Deed r (net i).shared t _ _ := deed_of_granted ht hmem hgranted
  have hnew := fun id p => @Honest.lookup_new r x p id n net i k h hfresh hx hgranted
  generalize hnet : Function.update net i ((net i).put k (step r x (net i).shared)) = net'
  have hself : (net' i).shared = (step r x (net i).shared).2 := by
    rw [← hnet, Function.update_self]
    rfl
  have hother : ∀ {j}, j ≠ i → net' j = net j := by
    intro j hj
    rw [← hnet, Function.update_of_ne hj]
  have hcast : ∀ v, Cast net v → Cast net' v := by
    intro v hv
    obtain ⟨j, hid, hv⟩ := hv
    by_cases hj : j = i
    · subst hj
      refine ⟨j, ?_, ?_⟩
      · rw [hself, hdeed.nodeId, hid]
      · rw [hself]
        exact hdeed.votes_mono hv
    · exact ⟨j, by rwa [hother hj], by rwa [hother hj]⟩
  have hgenuine : ∀ p, Genuine net p → Genuine net' p := by
    intro p hp
    obtain ⟨hb, j, q, hid, hq, hqp⟩ := hp
    by_cases hj : j = i
    · subst hj
      obtain ⟨q', hq'⟩ := hdeed.known hq
      refine ⟨hb, j, q', by rw [hself, hdeed.nodeId, hid], by rw [hself]; exact hq', ?_⟩
      rcases hnew _ _ hq' with ⟨j₀, q₀, hq₀, hblank⟩ | hnone
      · rw [← hblank, h.same j₀ j _ q₀ q hq₀ hq, hqp]
      · rw [hnone j] at hq
        cases hq
    · exact ⟨hb, j, q, by rwa [hother hj], by rwa [hother hj], hqp⟩
  refine ⟨fun j => ?_, ?_⟩
  · by_cases hj : j = i
    · subst hj
      have hfair := ((h.fair j).mono hcast hgenuine).advance (r := r) hx hgranted
        (fun p hp => hp.1)
        (fun v hvoter hv => ⟨j, by rw [hself, hdeed.nodeId, hvoter], by rw [hself]; exact hv⟩)
        (fun p hproposer hb hp =>
          ⟨hb, j, p, by rw [hself, hdeed.nodeId, hproposer], by rw [hself]; exact hp, hb⟩)
      rw [← hnet, Function.update_self, hnet]
      exact hfair
    · rw [hother hj]
      exact (h.fair j).mono hcast hgenuine
  · -- a proposal that the node has just stored, against one of another node
    have hagainst : ∀ j, j ≠ i → ∀ id p q, (net' i).shared.proposals.lookup id = some p →
        (net j).shared.proposals.lookup id = some q → blank p = blank q := by
      intro j hj id p q hp hq
      rw [hself] at hp
      rcases hnew _ _ hp with ⟨j₀, q₀, hq₀, hblank⟩ | hnone
      · rw [← hblank, h.same j₀ j _ q₀ q hq₀ hq]
      · rw [hnone j] at hq
        cases hq
    intro a b id p q hp hq
    by_cases ha : a = i
    · subst ha
      by_cases hb : b = a
      · subst hb
        rw [Option.some.inj (hp.symm.trans hq)]
      · rw [hother hb] at hq
        exact hagainst b hb id p q hp hq
    · rw [hother ha] at hp
      by_cases hb : b = i
      · subst hb
        exact (hagainst a ha id q p hq hp).symm
      · rw [hother hb] at hq
        exact h.same a b id p q hp hq

end Advance

theorem Honest.step {l : Fin n × Move} (h : Honest net) (hstep : NetStep net l net') :
    Honest net' := by
  obtain ⟨i, m⟩ := l
  obtain ⟨hcarried, hfresh, s', hs, rfl⟩ := hstep.cases
  rcases hs.cases with ⟨call, rfl, rfl⟩ | ⟨k, r, x, rfl, hx, hgranted, rfl⟩
  · exact h.start hcarried
  · exact h.advance hfresh hx hgranted

theorem honest_of_run {h : List (Fin n × Move)} (hr : Run NetStep (opened c) h net) : Honest net :=
  hr.invariant (honest_opened c) fun _ _ _ hh hs => hh.step hs

/-- **The records of a network are genuine.** Whatever the calls of the nodes
do to each other and whatever becomes of the messages, a vote that a node has
recorded is recorded by its voter too, a proposal that a node knows is known to
its proposer, and any two nodes that know a proposal know it with the same
content, deadline and quorum. -/
theorem records_genuine {h : List (Fin n × Move)} (hr : Run NetStep (opened c) h net) :
    (∀ i id, ∀ v ∈ (net i).shared.votesOf id, v.proposalId = id ∧
      ∃ j, (net j).shared.nodeId = v.voter ∧ v ∈ (net j).shared.votesOf id) ∧
    (∀ i id p, (net i).shared.proposals.lookup id = some p → p.id = id ∧
      ∃ j q, (net j).shared.nodeId = p.proposer ∧ (net j).shared.proposals.lookup id = some q) ∧
    ∀ i j id p q, (net i).shared.proposals.lookup id = some p →
      (net j).shared.proposals.lookup id = some q → blank p = blank q := by
  have hhonest := honest_of_run hr
  refine ⟨?_, ?_, hhonest.same⟩
  · intro i id v hv
    obtain ⟨hid, j, hvoter, hcast⟩ := (hhonest.fair i).votes id v hv
    exact ⟨hid, j, hvoter, hid ▸ hcast⟩
  · intro i id p hp
    obtain ⟨hid, _, j, q, hproposer, hq, _⟩ := (hhonest.fair i).proposals id p hp
    exact ⟨hid, j, q, hproposer, hid ▸ hq⟩

end Networks

/-! ## No decision -/

/-- No proposal of the node is decided, and one that has its votes has a call
that waits for itself. -/
structure Undecided (s : Locked) : Prop where
  exclusive : Exclusive locking s.tasks
  status : ∀ id p, s.shared.proposals.lookup id = some p → p.status = .active ∨ p.status = .expired
  room : ∀ id p, s.shared.proposals.lookup id = some p → p.currentVotes.toNat < quorum p ∨
    p.currentVotes.toNat = quorum p ∧ ∃ q v, Point.finalizing q v ∈ s.tasks

theorem Undecided.start (h : Undecided s) (call : EngineCall) :
    Undecided (s.start (.outside (entry call))) where
  exclusive := h.exclusive.start rfl
  status := h.status
  room id p hp := by
    refine (h.room id p hp).imp_right fun hfull => hfull.imp_right fun hwaits => ?_
    obtain ⟨q, v, hmem⟩ := hwaits
    exact ⟨q, v, mem_start.mpr (Or.inl hmem)⟩

/-- One deed while all proposals lack votes. -/
theorem Deed.undecided (h : Deed r e t x e')
    (hstatus : ∀ id p, e.proposals.lookup id = some p → p.status = .active ∨ p.status = .expired)
    (hroom : ∀ id p, e.proposals.lookup id = some p → p.currentVotes.toNat < quorum p)
    (hblank : ∀ p ∈ taskProposals t, blank p = p) (hp : e'.proposals.lookup id = some p) :
    (p.status = .active ∨ p.status = .expired) ∧
      (p.currentVotes.toNat < quorum p ∨
        p.currentVotes.toNat = quorum p ∧ ∃ q v, x = .finalizing q v) := by
  cases h with
  | @counts q v p₀ found =>
    simp only at hp
    by_cases hid : id = q.proposalId
    · subst hid
      rw [AList.lookup_insert] at hp
      obtain rfl := Option.some.inj hp
      refine ⟨hstatus _ p₀ found, ?_⟩
      have hlt := hroom _ p₀ found
      show (p₀.currentVotes + 1).toNat < quorum p₀ ∨ (p₀.currentVotes + 1).toNat = quorum p₀ ∧ _
      rw [toNat_count_succ hlt]
      split
      · rename_i hfull
        have hge := (hasQuorum_succ_iff hlt).mp hfull
        exact Or.inr ⟨by omega, q, v, rfl⟩
      · rename_i hshort
        exact Or.inl (Nat.lt_of_not_le fun hge => hshort ((hasQuorum_succ_iff hlt).mpr hge))
    · rw [AList.lookup_insert_ne hid] at hp
      exact ⟨hstatus _ p hp, Or.inl (hroom _ p hp)⟩
  | creates =>
    rw [stored_lookup] at hp
    split at hp
    · obtain rfl := Option.some.inj hp
      exact ⟨Or.inl rfl, Or.inl (quorum_pos _)⟩
    · exact ⟨hstatus _ p hp, Or.inl (hroom _ p hp)⟩
  | @adopts p₀ =>
    rw [stored_lookup] at hp
    split at hp
    · obtain rfl := Option.some.inj hp
      rw [← hblank p₀ List.mem_cons_self]
      exact ⟨Or.inl rfl, Or.inl (quorum_pos _)⟩
    · exact ⟨hstatus _ p hp, Or.inl (hroom _ p hp)⟩
  | marks =>
    rw [expireAll_lookup] at hp
    obtain ⟨q, hq, rfl⟩ := Option.map_eq_some_iff.mp hp
    split
    · exact ⟨Or.inr rfl, Or.inl (hroom _ q hq)⟩
    · exact ⟨hstatus _ q hq, Or.inl (hroom _ q hq)⟩
  | _ => exact ⟨hstatus _ p hp, Or.inl (hroom _ p hp)⟩

theorem Undecided.advance {V : Vote → Prop} {P : Proposal → Prop} {k : Nat} (h : Undecided s)
    (hfair : Fair V P s) (hblank : ∀ p, P p → blank p = p) (hx : s.tasks[k]? = some x)
    (hgranted : Granted locking s.tasks x) : Undecided (s.put k (step r x s.shared)) := by
  have hstep : EngineLocks.Step s (.advance k r) (s.put k (step r x s.shared)) := by
    simp [EngineLocks.Step, EngineLocks.after, hx, hgranted]
  by_cases hwaits : ∃ q v, Point.finalizing q v ∈ s.tasks
  · -- nobody writes the proposals any more
    obtain ⟨q, v, hmem⟩ := hwaits
    obtain ⟨i, hi⟩ := List.getElem?_of_mem hmem
    have hjam : Jammed i (.finalizing q v) s.shared.proposals (s.put k (step r x s.shared)) :=
      hstep.jammed ⟨_, rfl, _, List.mem_singleton.mpr rfl, rfl⟩ ⟨h.exclusive, hi, rfl⟩
    refine ⟨hjam.exclusive, ?_, ?_⟩
    · rw [hjam.kept]
      exact h.status
    · rw [hjam.kept]
      intro id p hp
      exact (h.room id p hp).imp_right fun hfull =>
        ⟨hfull.1, q, v, List.mem_of_getElem? hjam.stays⟩
  · have hroom : ∀ id p, s.shared.proposals.lookup id = some p →
        p.currentVotes.toNat < quorum p := by
      intro id p hp
      exact (h.room id p hp).resolve_right fun hfull => hwaits hfull.2
    have hmem := List.mem_of_getElem? hx
    obtain ⟨t, ht, _, hproposals⟩ := hfair.tasks x hmem
    have hdeed : Deed r s.shared t (step r x s.shared).1 (step r x s.shared).2 :=
      deed_of_granted ht hmem hgranted
    have hgenuine : ∀ p ∈ taskProposals t, blank p = p := fun p hp => hblank p (hproposals p hp)
    refine ⟨hstep.guarded.exclusive h.exclusive, ?_, ?_⟩
    · intro id p hp
      exact (hdeed.undecided h.status hroom hgenuine hp).1
    · intro id p hp
      obtain ⟨_, hlack | ⟨hfull, q, v, hpoint⟩⟩ := hdeed.undecided h.status hroom hgenuine hp
      · exact Or.inl hlack
      · exact Or.inr ⟨hfull, q, v, hpoint ▸ List.mem_of_getElem? (get_put_self hx)⟩

section Networks
variable {n : Nat} {net net' : Net n} {i : Fin n} {c : Fin n → Setup} {h : List (Fin n × Move)}

theorem undecided_step {l : Fin n × Move} (hhonest : Honest net)
    (hund : ∀ i, Undecided (net i)) (hstep : NetStep net l net') : ∀ i, Undecided (net' i) := by
  obtain ⟨i, m⟩ := l
  obtain ⟨_, _, s', hs, rfl⟩ := hstep.cases
  intro j
  by_cases hj : j = i
  · subst hj
    rw [Function.update_self]
    rcases hs.cases with ⟨call, rfl, rfl⟩ | ⟨k, r, x, rfl, hx, hgranted, rfl⟩
    · exact (hund j).start call
    · exact (hund j).advance (hhonest.fair j) (fun p hp => hp.1) hx hgranted
  · rw [Function.update_of_ne hj]
    exact hund j

theorem undecided_of_run (hr : Run NetStep (opened c) h net) : ∀ i, Undecided (net i) := by
  refine (hr.invariant (I := fun net => Honest net ∧ ∀ i, Undecided (net i)) ?_ ?_).2
  · refine ⟨honest_opened c, fun i => ⟨exclusive_idle _, ?_, ?_⟩⟩
    · intro id p hp
      cases hp
    · intro id p hp
      cases hp
  · intro net l net' hnet hstep
    exact ⟨hnet.1.step hstep, undecided_step hnet.1 hnet.2 hstep⟩

/-- A node with a call that waits for itself keeps its proposals as they are. -/
theorem frozen_of_run {k : Nat} {q : Ballot} {v : Vote} (hex : Exclusive locking (net i).tasks)
    (hx : (net i).tasks[k]? = some (.finalizing q v)) (hr : Run NetStep net h net') :
    (net' i).shared.proposals = (net i).shared.proposals := by
  have hjam := hr.invariant
    (I := fun u => Jammed k (.finalizing q v) (net i).shared.proposals (u i)) ⟨hex, hx, rfl⟩ ?_
  · exact hjam.kept
  · intro u l u' hu hstep
    obtain ⟨j, m⟩ := l
    obtain ⟨_, _, s', hs, rfl⟩ := hstep.cases
    by_cases hj : i = j
    · subst hj
      rw [Function.update_self]
      exact hs.jammed ⟨_, rfl, _, List.mem_singleton.mpr rfl, rfl⟩ hu
    · rw [Function.update_of_ne hj]
      exact hu

end Networks

/-! Two nodes that ask for two votes: the first proposes and approves, the
second hears of both and rejects. -/

def pair : Fin 2 → Setup := fun i => ⟨if i = 0 then "a" else "b", 2, 60⟩

def proposed : Proposal := Proposal.new "p" 0 "a" [] 2 60

def approved : Vote := Vote.new 0 "p" "a" .approve []

/-- A call of a node, with as many steps as it takes, latest first. -/
def inFull {n : Nat} (i : Fin n) (call : EngineCall) (k steps : Nat) : List (Fin n × Move) :=
  List.replicate steps (i, .advance k desk) ++ [(i, .start call)]

def exchange : List (Fin 2 × Move) :=
  inFull 1 (.vote "p" .reject []) 2 8 ++ inFull 1 (.processVote approved) 1 8 ++
    inFull 1 (.processProposal proposed) 0 4 ++ inFull 0 (.vote "p" .approve []) 1 9 ++
    inFull 0 (.createProposal []) 0 3

def exchanged : Net 2 := (play netAfter allowed (opened pair) exchange).getD (opened pair)

theorem exchange_run : Run NetStep (opened pair) exchange exchanged := run_of_play rfl

theorem records_genuine_exchange : approved ∈ (exchanged 1).shared.votesOf "p" ∧
    ∃ j, (exchanged j).shared.nodeId = "a" ∧ approved ∈ (exchanged j).shared.votesOf "p" := by
  have hvote : approved ∈ (exchanged 1).shared.votesOf "p" := List.mem_of_getElem? (i := 0) rfl
  exact ⟨hvote, ((records_genuine exchange_run).1 1 "p" approved hvote).2⟩

end Axionvera.Node.Gossip

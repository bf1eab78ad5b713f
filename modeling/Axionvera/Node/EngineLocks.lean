import Axionvera.Lib.Guards
import Axionvera.Node.Interleaved

/-! # The engine's locks

The two maps of the engine are behind locks of their own. Each block of a call
asks for its lock and gives it back at its end. The block that counts a vote
does not when the vote makes the quorum: `finalize_proposal` is called with the
write guard on the proposals alive, and begins by asking for a read guard on
them. -/
namespace Axionvera.Node.EngineLocks
open Axionvera.Lib.Guards Axionvera.Lib.Interleaving Axionvera.Lib.Transition
open Axionvera.Node.Consensus Axionvera.Node.Voting Axionvera.Node.Interleaved
open Axionvera.Node.Agreement (desk)
open Axionvera.Node.Quorum (EngineCall)

variable {r : Surroundings} {e e' : ConsensusEngine} {t t' : Task} {m : Move} {moves : List Move}
  {i : Nat} {p : Proposal} {q : Ballot} {v : Vote} {id : String}

/-! ## Program points -/

inductive Lock where
  | proposals
  | votes
  deriving DecidableEq

/-- The lock of a call's next block. Sending to a channel needs none. -/
def guardOf : Task → Option (Guard Lock)
  | .begun _ => some ⟨.proposals, .read⟩
  | .votable _ => some ⟨.votes, .read⟩
  | .cleared _ => some ⟨.votes, .write⟩
  | .stored _ _ => some ⟨.proposals, .write⟩
  | .sending _ => none
  | .creating _ => some ⟨.proposals, .write⟩
  | .announcing _ => none
  | .offered _ => some ⟨.proposals, .read⟩
  | .adopting _ => some ⟨.proposals, .write⟩
  | .collecting => some ⟨.proposals, .read⟩
  | .marking _ => some ⟨.proposals, .write⟩
  | .ended _ => none

/-- Where a call stands, with regard to the locks. -/
inductive Point where
  /-- In front of a block, without guards. -/
  | outside (t : Task)
  /-- In a block, with its guard. -/
  | inside (t : Task)
  /-- In `finalize_proposal`, which asks for the proposals. -/
  | finalizing (q : Ballot) (v : Vote)
  /-- Has them and asks for the votes. -/
  | reading (q : Ballot) (v : Vote)
  /-- Has both and copies them. -/
  | tallying (q : Ballot) (v : Vote)
  /-- Has given both back and asks for the proposals, to write. -/
  | deciding (q : Ballot) (v : Vote) (status : ProposalStatus)
  | writing (q : Ballot) (v : Vote) (status : ProposalStatus)
  /-- Has returned from `finalize_proposal`. -/
  | finalized (q : Ballot) (v : Vote)

/-- The guards that are alive at a point, and the one that is asked for. From
the count to the end of `finalize_proposal` the caller's guard is alive too. -/
def locking : Discipline Lock Point where
  holds
    | .outside _ => []
    | .inside t => (guardOf t).toList
    | .finalizing _ _ => [⟨.proposals, .write⟩]
    | .reading _ _ => [⟨.proposals, .write⟩, ⟨.proposals, .read⟩]
    | .tallying _ _ => [⟨.proposals, .write⟩, ⟨.proposals, .read⟩, ⟨.votes, .read⟩]
    | .deciding _ _ _ => [⟨.proposals, .write⟩]
    | .writing _ _ _ => [⟨.proposals, .write⟩, ⟨.proposals, .write⟩]
    | .finalized _ _ => [⟨.proposals, .write⟩]
  wants
    | .outside t => guardOf t
    | .inside _ => none
    | .finalizing _ _ => some ⟨.proposals, .read⟩
    | .reading _ _ => some ⟨.votes, .read⟩
    | .tallying _ _ => none
    | .deciding _ _ _ => some ⟨.proposals, .write⟩
    | .writing _ _ _ => none
    | .finalized _ _ => none

/-- The count of a vote, up to the call of `finalize_proposal`. -/
def count (q : Ballot) (v : Vote) (e : ConsensusEngine) : Point × ConsensusEngine :=
  match e.proposals.lookup q.proposalId with
  | none => (.outside (q.after v), e)
  | some p =>
    let counted := { p with currentVotes := p.currentVotes + 1 }
    (if counted.hasQuorum then .finalizing q v else .outside (q.after v),
      { e with proposals := e.proposals.insert q.proposalId counted })

/-- What a block does, once its guard is there, and the release of the guard. -/
def body (r : Surroundings) (t : Task) (e : ConsensusEngine) : Point × ConsensusEngine :=
  match t with
  | .stored q v => count q v e
  | t => (.outside (next r t e).1, (next r t e).2)

/-- The next step of a call whose request, if it has one, is granted. -/
def step (r : Surroundings) (x : Point) (e : ConsensusEngine) : Point × ConsensusEngine :=
  match x with
  | .outside t => if (guardOf t).isSome then (.inside t, e) else body r t e
  | .inside t => body r t e
  | .finalizing q v => (.reading q v, e)
  | .reading q v => (.tallying q v, e)
  | .tallying q v =>
    match e.proposals.lookup q.proposalId with
    | none => (.outside (.ended (.failed
        (.validation s!"Proposal {q.proposalId} not found"))), e)
    | some _ => (.deciding q v (finalStatus (e.votesOf q.proposalId)), e)
  | .deciding q v status => (.writing q v status, e)
  | .writing q v status =>
    (.finalized q v, e.update q.proposalId fun p => { p with status := status })
  | .finalized q v => (.outside (q.after v), e)

/-! ## The system -/

abbrev Locked : Type := System Point ConsensusEngine

variable {s s' : Locked} {x x' : Point}

def after (s : Locked) : Move → Option Locked
  | .start call => some (s.start (.outside (entry call)))
  | .advance i r => (s.tasks[i]?).bind fun x =>
    if Granted locking s.tasks x then some (s.put i (step r x s.shared)) else none

def Step (s : Locked) (m : Move) (s' : Locked) : Prop := after s m = some s'

theorem Step.cases (h : Step s m s') :
    (∃ call, m = .start call ∧ s' = s.start (.outside (entry call))) ∨
      ∃ i r x, m = .advance i r ∧ s.tasks[i]? = some x ∧ Granted locking s.tasks x ∧
        s' = s.put i (step r x s.shared) := by
  cases m with
  | start call => exact Or.inl ⟨call, rfl, (Option.some.inj h).symm⟩
  | advance i r =>
    obtain ⟨x, hx, hs⟩ := Option.bind_eq_some_iff.mp h
    split at hs
    case isTrue hgranted => exact Or.inr ⟨i, r, x, rfl, hx, hgranted, (Option.some.inj hs).symm⟩
    case isFalse => cases hs

/-! ## What a step does to the guards -/

/-- The vote that is counted makes the quorum. -/
def MakesQuorum (e : ConsensusEngine) (q : Ballot) : Prop :=
  ∃ p, e.proposals.lookup q.proposalId = some p ∧ p.requiredVotes ≤ p.currentVotes + 1

theorem count_of_quorum (h : MakesQuorum e q) : (count q v e).1 = .finalizing q v := by
  obtain ⟨p, hp, hquorum⟩ := h
  simp [count, hp, Proposal.hasQuorum, hquorum]

theorem count_of_not_quorum (h : ¬ MakesQuorum e q) :
    count q v e = (.outside (next r (.stored q v) e).1, (next r (.stored q v) e).2) := by
  cases hp : e.proposals.lookup q.proposalId with
  | none =>
    rw [next_stored_of_missing hp]
    simp [count, hp]
  | some p =>
    have hshort : ¬ p.requiredVotes ≤ p.currentVotes + 1 := fun hquorum => h ⟨p, hp, hquorum⟩
    rw [next_stored_of_found hp]
    simp [count, hp, Proposal.hasQuorum, hshort, withCount, counted]

/-- A block ends with its guard released, the count of a quorum apart. -/
theorem body_cases (r : Surroundings) (t : Task) (e : ConsensusEngine) :
    body r t e = (.outside (next r t e).1, (next r t e).2) ∨
      ∃ q v, t = .stored q v ∧ MakesQuorum e q ∧ (body r t e).1 = .finalizing q v := by
  cases t with
  | stored q v =>
    by_cases hquorum : MakesQuorum e q
    · exact Or.inr ⟨q, v, rfl, hquorum, count_of_quorum hquorum⟩
    · exact Or.inl (count_of_not_quorum hquorum)
  | _ => exact Or.inl rfl

theorem step_acquire (h : guardOf t ≠ none) : step r (.outside t) e = (.inside t, e) :=
  if_pos (Option.isSome_iff_ne_none.mpr h)

theorem step_free (h : guardOf t = none) :
    step r (.outside t) e = (.outside (next r t e).1, (next r t e).2) := by
  have hbody : step r (.outside t) e = body r t e := if_neg (by simp [h])
  rcases body_cases r t e with hnext | ⟨q, v, rfl, _, _⟩
  · exact hbody.trans hnext
  · cases h

/-- A step takes the guard that was asked for and no other. -/
theorem holds_step (r : Surroundings) (x : Point) (e : ConsensusEngine) :
    ∀ g ∈ locking.holds (step r x e).1, g ∈ locking.holds x ∨ g ∈ locking.wants x := by
  intro g hg
  cases x with
  | outside t =>
    right
    by_cases hfree : guardOf t = none
    · rw [step_free hfree] at hg
      cases hg
    · rw [step_acquire hfree] at hg
      exact Option.mem_toList.mp hg
  | inside t =>
    left
    rcases body_cases r t e with hbody | ⟨q, v, rfl, _, hbody⟩
    · rw [step, hbody] at hg
      cases hg
    · rw [step, hbody] at hg
      exact hg
  | tallying q v =>
    left
    simp only [step] at hg
    cases hp : e.proposals.lookup q.proposalId with
    | none =>
      rw [hp] at hg
      cases hg
    | some p =>
      rw [hp] at hg
      exact List.mem_cons.mpr (Or.inl (List.mem_singleton.mp hg))
  | finalized q v => cases hg
  | _ =>
    simp only [step, locking, List.mem_cons, List.not_mem_nil, or_false, Option.mem_def,
      Option.some.injEq, reduceCtorEq] at hg ⊢
    grind

/-- The blocks that write the proposals are those under a write guard on them. -/
theorem proposals_of_block (hblock : Block r e t t' e')
    (h : guardOf t ≠ some ⟨.proposals, .write⟩) : e'.proposals = e.proposals := by
  cases hblock with
  | counted => exact False.elim (h rfl)
  | created => exact False.elim (h rfl)
  | adopted => exact False.elim (h rfl)
  | marked => exact False.elim (h rfl)
  | _ => rfl

theorem proposals_step (r : Surroundings) (e : ConsensusEngine)
    (h : ⟨.proposals, .write⟩ ∉ locking.holds x) : (step r x e).2.proposals = e.proposals := by
  cases x with
  | outside t =>
    by_cases hfree : guardOf t = none
    · rw [step_free hfree]
      exact proposals_of_block (block_next t) (by simp [hfree])
    · rw [step_acquire hfree]
  | inside t =>
    have hguard : guardOf t ≠ some ⟨.proposals, .write⟩ := by
      intro hguard
      exact h (Option.mem_toList.mpr hguard)
    rcases body_cases r t e with hbody | ⟨q, v, rfl, _, _⟩
    · rw [step, hbody]
      exact proposals_of_block (block_next t) hguard
    · exact False.elim (hguard rfl)
  | _ => exact False.elim (h List.mem_cons_self)

/-! ## A call that waits for itself -/

/-- Only `finalize_proposal` asks for a lock that its call holds. -/
theorem waitsForItself_cases (h : WaitsForItself locking x) :
    (∃ q v, x = .finalizing q v) ∨ ∃ q v status, x = .deciding q v status := by
  obtain ⟨g, hg, k, hk, hlock⟩ := h
  cases x with
  | outside t => cases hk
  | inside t => cases hg
  | finalizing q v => exact Or.inl ⟨q, v, rfl⟩
  | reading q v =>
    cases hg
    simp only [locking, List.mem_cons, List.not_mem_nil, or_false] at hk
    rcases hk with rfl | rfl <;> cases hlock
  | tallying q v => cases hg
  | deciding q v status => exact Or.inr ⟨q, v, status, rfl⟩
  | writing q v status => cases hg
  | finalized q v => cases hg

theorem stuck_finalizing : Stuck locking (.finalizing q v) :=
  ⟨_, rfl, _, List.mem_singleton.mpr rfl, rfl, Or.inr rfl⟩

theorem stuck_of_waitsForItself (h : WaitsForItself locking x) :
    Stuck locking x ∧ ⟨.proposals, .write⟩ ∈ locking.holds x := by
  rcases waitsForItself_cases h with ⟨q, v, rfl⟩ | ⟨q, v, status, rfl⟩
  · exact ⟨stuck_finalizing, List.mem_singleton.mpr rfl⟩
  · exact ⟨⟨_, rfl, _, List.mem_singleton.mpr rfl, rfl, Or.inr rfl⟩, List.mem_singleton.mpr rfl⟩

/-- A step with regard to the guards and the proposals. -/
theorem Step.guarded (h : Step s m s') :
    Moves locking ⟨.proposals, .write⟩ ConsensusEngine.proposals s s' := by
  rcases h.cases with ⟨call, rfl, rfl⟩ | ⟨i, r, x, rfl, hx, hgranted, rfl⟩
  · exact .start rfl
  · exact .put hx hgranted (holds_step r x s.shared) (proposals_step r s.shared)

theorem exclusive_idle (e : ConsensusEngine) : Exclusive locking (⟨e, []⟩ : Locked).tasks :=
  exclusive_of_free fun _ hx => by cases hx

/-- The call at place `i` waits for itself at `x`. It stays where it is, and with
it the proposals: nobody else comes to write them. -/
abbrev Jammed (i : Nat) (x : Point) (proposals : HashMap Proposal) (s : Locked) : Prop :=
  Frozen locking ConsensusEngine.proposals i x proposals s

theorem Step.jammed {proposals : HashMap Proposal} (h : Step s m s')
    (hself : WaitsForItself locking x) (hjam : Jammed i x proposals s) :
    Jammed i x proposals s' := by
  obtain ⟨hstuck, hwrite⟩ := stuck_of_waitsForItself hself
  exact hjam.step hstuck hwrite ⟨rfl, Or.inl rfl⟩ h.guarded

/-! ## Runs without a quorum -/

/-- The call whose vote is counted next. -/
def counting : Point → Option Ballot
  | .inside (.stored q _) => some q
  | _ => none

/-- A vote that is counted leaves its proposal short of the quorum. -/
def Short (s : Locked) : Move → Prop
  | .start _ => True
  | .advance i _ => ∀ x ∈ s.tasks[i]?, ∀ q ∈ counting x,
    ∀ p ∈ s.shared.proposals.lookup q.proposalId, p.currentVotes + 1 < p.requiredVotes

instance : DecidablePred (Short s)
  | .start _ => .isTrue trivial
  | .advance i _ => inferInstanceAs (Decidable (∀ x ∈ s.tasks[i]?, ∀ q ∈ counting x, _))

def ShortStep (s : Locked) (m : Move) (s' : Locked) : Prop := Step s m s' ∧ Short s m

theorem not_makesQuorum (hshort : Short s (.advance i r))
    (hx : s.tasks[i]? = some (.inside (.stored q v))) : ¬ MakesQuorum s.shared q := by
  intro hquorum
  obtain ⟨p, hp, hle⟩ := hquorum
  exact UInt64.not_le.mpr (hshort _ hx q rfl p hp) hle

/-- A call that is not in `finalize_proposal`. -/
def plain : Point → Option Task
  | .outside t => some t
  | .inside t => some t
  | _ => none

/-- In such a run a step takes the guard of a block or runs the block. -/
theorem step_short (hshort : Short s (.advance i r)) (hx : s.tasks[i]? = some x)
    (ht : plain x = some t) :
    step r x s.shared = (.inside t, s.shared) ∨
      step r x s.shared = (.outside (next r t s.shared).1, (next r t s.shared).2) := by
  cases x with
  | outside t =>
    cases ht
    by_cases hfree : guardOf t = none
    · exact Or.inr (step_free hfree)
    · exact Or.inl (step_acquire hfree)
  | inside t =>
    cases ht
    rcases body_cases r t s.shared with hbody | ⟨q, v, rfl, hquorum, _⟩
    · exact Or.inr hbody
    · exact False.elim (not_makesQuorum hshort hx hquorum)
  | _ => cases ht

/-- The same engine and the same calls, without the locks. -/
def Views (s : Locked) (c : Calls) : Prop :=
  s.shared = c.shared ∧ s.tasks.map plain = c.tasks.map some

variable {c : Calls}

theorem Views.get (h : Views s c) (hx : s.tasks[i]? = some x) :
    ∃ t, plain x = some t ∧ c.tasks[i]? = some t := by
  have hget : (s.tasks.map plain)[i]? = (c.tasks.map some)[i]? := by rw [h.2]
  rw [List.getElem?_map, List.getElem?_map, hx, Option.map_some] at hget
  obtain ⟨t, ht, hsome⟩ := Option.map_eq_some_iff.mp hget.symm
  exact ⟨t, hsome.symm, ht⟩

theorem Views.put (h : Views s c) (hx' : plain x' = some t') :
    Views (s.put i (x', e')) (c.put i (t', e')) := by
  refine ⟨rfl, ?_⟩
  show (s.tasks.set i x').map plain = (c.tasks.set i t').map some
  rw [List.map_set, List.map_set, h.2, hx']

/-- One step under the locks is at most one block. -/
theorem ShortStep.views (h : Views s c) (hstep : ShortStep s m s') :
    ∃ blocks c', Run Interleaved.Step c blocks c' ∧ Views s' c' := by
  obtain ⟨hstep, hshort⟩ := hstep
  rcases hstep.cases with ⟨call, rfl, rfl⟩ | ⟨i, r, x, rfl, hx, _, rfl⟩
  · refine ⟨_, _, .snoc .nil (@step_start c call), h.1, ?_⟩
    simp [System.start, h.2, plain]
  · obtain ⟨t, hplain, ht⟩ := h.get hx
    rcases step_short hshort hx hplain with heq | heq
    · refine ⟨[], c, .nil, ?_⟩
      rw [heq, ← put_self ht, ← h.1]
      exact h.put rfl
    · refine ⟨_, _, .snoc .nil (step_advance (r := r) ht), ?_⟩
      rw [heq, h.1]
      exact h.put rfl

/-- As long as no vote makes a quorum, the locks make every block one step: what
a run reaches is reached by blocks. -/
theorem run_short_views {e : ConsensusEngine} (h : Run ShortStep ⟨e, []⟩ moves s) :
    ∃ blocks c, Run Interleaved.Step ⟨e, []⟩ blocks c ∧ Views s c := by
  refine h.invariant (I := fun s => ∃ blocks c, Run Interleaved.Step ⟨e, []⟩ blocks c ∧ Views s c)
    ⟨[], _, .nil, rfl, rfl⟩ ?_
  intro s m s' hs hstep
  obtain ⟨blocks, c, hrun, hviews⟩ := hs
  obtain ⟨more, c', hmore, hviews'⟩ := hstep.views hviews
  exact ⟨_, c', hrun.trans hmore, hviews'⟩

theorem Views.not_waits (h : Views s c) : ∀ x ∈ s.tasks, ¬ WaitsForItself locking x := by
  intro x hx hself
  obtain ⟨i, hi⟩ := List.getElem?_of_mem hx
  obtain ⟨t, hplain, _⟩ := h.get hi
  rcases waitsForItself_cases hself with ⟨q, v, rfl⟩ | ⟨q, v, status, rfl⟩
  · cases hplain
  · cases hplain

/-! ## Runs with a quorum -/

/-- Some call waits for itself. -/
def Waiting (s : Locked) : Prop :=
  ∃ (i : Nat) (x : Point), s.tasks[i]? = some x ∧ WaitsForItself locking x

/-- A step that is not short makes its call wait for itself. -/
theorem Step.short_or (h : Step s m s') : Short s m ∨ Waiting s' := by
  rcases h.cases with ⟨call, rfl, rfl⟩ | ⟨i, r, x, rfl, hx, _, rfl⟩
  · exact Or.inl trivial
  by_cases hshort : Short s (.advance i r)
  · exact Or.inl hshort
  right
  simp only [Short, not_forall] at hshort
  obtain ⟨y, hy, q, hq, p, hp, hquorum⟩ := hshort
  cases hx.symm.trans hy
  cases x with
  | inside t =>
    cases t with
    | stored q' v =>
      cases hq
      have hmakes : MakesQuorum s.shared q := ⟨p, hp, UInt64.not_lt.mp hquorum⟩
      refine ⟨i, .finalizing q v, ?_, ⟨_, rfl, _, List.mem_singleton.mpr rfl, rfl⟩⟩
      rw [get_put_self hx, step, body, count_of_quorum hmakes]
    | _ => cases hq
  | _ => cases hq

theorem run_short_or {e : ConsensusEngine} (h : Run Step ⟨e, []⟩ moves s) :
    Exclusive locking s.tasks ∧ (Run ShortStep ⟨e, []⟩ moves s ∨ Waiting s) := by
  refine h.induct (I := fun moves s => Exclusive locking s.tasks ∧
    (Run ShortStep ⟨e, []⟩ moves s ∨ Waiting s)) ⟨exclusive_idle e, Or.inl .nil⟩ ?_
  intro moves s m s' _ hs hstep
  refine ⟨hstep.guarded.exclusive hs.1, ?_⟩
  rcases hs.2 with hrun | ⟨i, x, hx, hself⟩
  · rcases hstep.short_or with hshort | hwaits
    · exact Or.inl (.snoc hrun ⟨hstep, hshort⟩)
    · exact Or.inr hwaits
  · exact Or.inr ⟨i, x, (hstep.jammed hself ⟨hs.1, hx, rfl⟩).stays, hself⟩

/-- No call waits for a lock that it holds exactly in the runs in which no vote
makes a quorum. A call that does wait so never gets on, and no status is ever
set again. -/
theorem waits_for_itself_iff_quorum (e : ConsensusEngine) (moves : List Move) (s : Locked)
    (hrun : Run Step ⟨e, []⟩ moves s) :
    ((∀ x ∈ s.tasks, ¬ WaitsForItself locking x) ↔ Run ShortStep ⟨e, []⟩ moves s) ∧
      ∀ (i : Nat) (x : Point), s.tasks[i]? = some x → WaitsForItself locking x →
        ∀ later s', Run Step s later s' →
          s'.tasks[i]? = some x ∧ s'.shared.proposals = s.shared.proposals := by
  obtain ⟨hexclusive, hcases⟩ := run_short_or hrun
  refine ⟨⟨?_, ?_⟩, ?_⟩
  · intro hnone
    rcases hcases with hshort | ⟨i, x, hx, hself⟩
    · exact hshort
    · exact False.elim (hnone x (List.mem_of_getElem? hx) hself)
  · intro hshort
    obtain ⟨_, c, _, hviews⟩ := run_short_views hshort
    exact hviews.not_waits
  · intro i x hx hself later s' hlater
    have hjam : Jammed i x s.shared.proposals s' :=
      hlater.invariant ⟨hexclusive, hx, rfl⟩ fun _ _ _ hu hstep => hstep.jammed hself hu
    exact ⟨hjam.stays, hjam.kept⟩

/-- A proposal is created and the node votes on it. -/
def firstVote : List Move :=
  List.replicate 8 (.advance 1 desk) ++
    [.start (.vote "p" .approve []), .advance 0 desk, .advance 0 desk, .advance 0 desk,
      .start (.createProposal [])]

def afterwards (required : UInt64) (moves : List Move) : Locked :=
  (play after (fun _ _ => true) ⟨.new "node" required 60, []⟩ moves).getD
    ⟨.new "node" required 60, []⟩

/-- Where one vote is enough, the first vote waits for itself. -/
theorem first_vote_waits_for_itself :
    Run Step ⟨.new "node" 1 60, []⟩ firstVote (afterwards 1 firstVote) ∧
      ∃ x ∈ (afterwards 1 firstVote).tasks, WaitsForItself locking x := by
  refine ⟨run_of_play_true rfl, .finalizing (.vote "p" .approve [])
    (Vote.new 0 "p" "node" .approve []), ?_, ⟨_, rfl, _, List.mem_singleton.mpr rfl, rfl⟩⟩
  exact List.mem_of_getElem? (i := 1) rfl

theorem waits_for_itself_iff_quorum_firstVote :
    Run Step ⟨.new "node" 2 60, []⟩ firstVote (afterwards 2 firstVote) ∧
      ∀ x ∈ (afterwards 2 firstVote).tasks, ¬ WaitsForItself locking x := by
  have hplay : play after (fun s m => decide (Short s m)) ⟨.new "node" 2 60, []⟩ firstVote =
      some (afterwards 2 firstVote) := rfl
  have hshort : Run ShortStep ⟨.new "node" 2 60, []⟩ firstVote (afterwards 2 firstVote) := by
    refine (run_of_play hplay).mono ?_
    intro s m s' hstep
    exact ⟨hstep.2, of_decide_eq_true hstep.1⟩
  have hrun : Run Step ⟨.new "node" 2 60, []⟩ firstVote (afterwards 2 firstVote) :=
    hshort.mono fun _ _ _ hstep => hstep.1
  exact ⟨hrun, (waits_for_itself_iff_quorum _ _ _ hrun).1.mpr hshort⟩

end Axionvera.Node.EngineLocks

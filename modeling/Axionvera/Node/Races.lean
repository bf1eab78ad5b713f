import Axionvera.Node.Interleaved

/-! # Votes and decisions under concurrent calls

The check for an earlier vote, the record of the vote and the count are three
blocks, and the status is read in one block and written in another. Every
recorded vote is counted all the same. That a voter has one vote, and that a
decision stays, depends on what other calls do between the blocks. -/
namespace Axionvera.Node.Races
open Axionvera.Lib.Interleaving Axionvera.Lib.Transition
open Axionvera.Node.Consensus Axionvera.Node.Voting Axionvera.Node.Interleaved
open Axionvera.Node.Agreement (desk)
open Axionvera.Node.Quorum (EngineCall)

variable {r : Surroundings} {e e' : ConsensusEngine} {t t' : Task} {s s' : Calls} {m : Move}
  {moves : List Move} {i : Nat} {p : Proposal} {q : Ballot} {v : Vote} {id voter : String}

/-! ## Proposals of the node itself -/

/-- Not a call that takes a peer's proposal over. -/
def own : Task → Bool
  | .offered _ => false
  | .adopting _ => false
  | _ => true

/-- `Uuid::new_v4` gives an identifier that is not in use. -/
def fresh (r : Surroundings) (e : ConsensusEngine) : Task → Bool
  | .creating _ => (e.proposals.lookup r.freshId).isNone
  | _ => true

/-- A move of a node whose proposals are those it creates. -/
def isLocal (s : Calls) : Move → Bool
  | .start call => own (entry call)
  | .advance i r => (s.tasks[i]?).all (fresh r s.shared)

def LocalStep (s : Calls) (m : Move) (s' : Calls) : Prop := isLocal s m = true ∧ Step s m s'

theorem own_after : own (q.after v) = true := by
  cases q <;> rfl

theorem own_of_block (h : Block r e t t' e') (ht : own t = true) : own t' = true := by
  cases h with
  | counted => exact own_after
  | uncounted => exact own_after
  | offered => exact ht
  | _ => rfl

/-- What one step of such a node does. -/
theorem LocalStep.cases (h : LocalStep s m s') :
    (∃ call, m = .start call ∧ own (entry call) = true ∧ s' = s.start (entry call)) ∨
      ∃ i r t t' e', m = .advance i r ∧ s.tasks[i]? = some t ∧ fresh r s.shared t = true ∧
        Block r s.shared t t' e' ∧ s' = s.put i (t', e') := by
  obtain ⟨hlocal, hstep⟩ := h
  rcases hstep.cases with ⟨call, rfl, rfl⟩ | ⟨i, r, t, rfl, ht, rfl⟩
  · exact Or.inl ⟨call, rfl, hlocal, rfl⟩
  · have hfresh : fresh r s.shared t = true := by
      simpa [isLocal, ht] using hlocal
    exact Or.inr ⟨i, r, t, _, _, rfl, ht, hfresh, block_next t, rfl⟩

def OwnTasks (s : Calls) : Prop := ∀ t ∈ s.tasks, own t = true

theorem OwnTasks.step (hown : OwnTasks s) (h : LocalStep s m s') : OwnTasks s' := by
  intro u hu
  rcases h.cases with ⟨call, rfl, hcall, rfl⟩ | ⟨i, r, t, t', e', rfl, ht, _, hb, rfl⟩
  · rcases mem_start.mp hu with hu | rfl
    · exact hown u hu
    · exact hcall
  · rcases mem_or_eq_of_mem_put hu with hu | rfl
    · exact hown u hu
    · exact own_of_block hb (hown t (List.mem_of_getElem? ht))

/-! ## Every recorded vote is counted -/

/-- The proposal that a vote in progress has found. -/
def target : Task → Option String
  | .votable q => some q.proposalId
  | .cleared q => some q.proposalId
  | .stored q _ => some q.proposalId
  | _ => none

/-- The vote is recorded and not yet counted. -/
def uncounted (id : String) : Task → Bool
  | .stored q _ => q.proposalId = id
  | _ => false

/-- The count of a proposal lags behind its votes by the calls between the two
blocks. -/
structure Accounted (s : Calls) : Prop where
  known : ∀ t ∈ s.tasks, ∀ id, target t = some id → s.shared.proposals.lookup id ≠ none
  recorded : ∀ id, s.shared.proposals.lookup id = none → s.shared.votesOf id = []
  count : ∀ id p, s.shared.proposals.lookup id = some p →
    p.currentVotes + .ofNat (s.count (uncounted id)) = .ofNat (s.shared.votesOf id).length

theorem target_of_uncounted (h : uncounted id t = true) : target t = some id := by
  cases t with
  | stored q v => simpa [uncounted, target] using h
  | _ => cases h

theorem uncounted_eq_false (h : target t = none) : uncounted id t = false := by
  cases hu : uncounted id t with
  | false => rfl
  | true =>
    rw [target_of_uncounted hu] at h
    cases h

theorem target_after : target (q.after v) = none := by
  cases q <;> rfl

theorem target_entry (call : EngineCall) : target (entry call) = none := by
  cases call <;> rfl

theorem Accounted.no_uncounted (h : Accounted s) (hid : s.shared.proposals.lookup id = none) :
    s.count (uncounted id) = 0 := by
  refine count_eq_zero.mpr ?_
  intro u hu huid
  exact h.known u hu id (target_of_uncounted huid) hid

/-- How the record of one proposal may change in a step that turns `t` into `t'`. -/
def Balanced (e e' : ConsensusEngine) (t t' : Task) (id : String) (p' : Proposal) : Prop :=
  ∃ p, e.proposals.lookup id = some p ∧
    p'.currentVotes + .ofNat ((uncounted id t').toNat + (e.votesOf id).length) =
      p.currentVotes + .ofNat ((uncounted id t).toNat + (e'.votesOf id).length)

/-- A proposal that no vote can have been for. -/
def Blank (e e' : ConsensusEngine) (t' : Task) (id : String) (p' : Proposal) : Prop :=
  e.proposals.lookup id = none ∧ p'.currentVotes = 0 ∧ e'.votesOf id = [] ∧ target t' = none

theorem Accounted.put (h : Accounted s) (ht : s.tasks[i]? = some t)
    (htarget : ∀ id, target t' = some id → s.shared.proposals.lookup id ≠ none)
    (hkept : ∀ id, e'.proposals.lookup id = none →
      s.shared.proposals.lookup id = none ∧ e'.votesOf id = s.shared.votesOf id)
    (hcount : ∀ id p', e'.proposals.lookup id = some p' →
      Balanced s.shared e' t t' id p' ∨ Blank s.shared e' t' id p') :
    Accounted (s.put i (t', e')) := by
  refine ⟨?_, ?_, ?_⟩
  · intro u hu id hid hnone
    rcases mem_or_eq_of_mem_put hu with hu | rfl
    · exact h.known u hu id hid (hkept id hnone).1
    · exact htarget id hid (hkept id hnone).1
  · intro id hnone
    exact (hkept id hnone).2.trans (h.recorded id (hkept id hnone).1)
  · intro id p' hp'
    have hput : (s.put i (t', e')).count (uncounted id) + (uncounted id t).toNat =
        s.count (uncounted id) + (uncounted id t').toNat := count_put ht
    show p'.currentVotes + .ofNat _ = .ofNat (e'.votesOf id).length
    rcases hcount id p' hp' with ⟨p, hp, hbalance⟩ | ⟨hnone, hzero, hvotes, hfree⟩
    · have hbefore := h.count id p hp
      have hword := congrArg UInt64.ofNat hput
      simp only [UInt64.ofNat_add] at hword hbalance
      grind
    · have hbefore := h.no_uncounted hnone
      rw [uncounted_eq_false hfree] at hput
      simp only [Bool.toNat_false] at hput
      rw [hzero, hvotes, List.length_nil, show System.count _ _ = 0 by omega]
      rfl

/-- A block that leaves the records alone. -/
theorem Accounted.idle (h : Accounted s) (ht : s.tasks[i]? = some t)
    (hproposals : e'.proposals = s.shared.proposals) (hvotes : e'.votes = s.shared.votes)
    (htarget : ∀ id, target t' = some id → s.shared.proposals.lookup id ≠ none)
    (hkind : ∀ id, uncounted id t' = uncounted id t) : Accounted (s.put i (t', e')) := by
  have hof : ∀ id, e'.votesOf id = s.shared.votesOf id := by
    intro id
    rw [ConsensusEngine.votesOf, hvotes]
    rfl
  refine h.put ht htarget ?_ ?_
  · intro id hnone
    exact ⟨hproposals ▸ hnone, hof id⟩
  · intro id p' hp'
    refine Or.inl ⟨p', hproposals ▸ hp', ?_⟩
    rw [hkind, hof]

theorem Accounted.stored (h : Accounted s) (ht : s.tasks[i]? = some (.cleared q)) :
    Accounted (s.put i (.stored q (q.made r s.shared), withVote s.shared (q.made r s.shared))) := by
  have hfound := h.known _ (List.mem_of_getElem? ht) q.proposalId rfl
  refine h.put ht ?_ ?_ ?_
  · intro id hid
    cases hid
    exact hfound
  · intro id hnone
    have hne : id ≠ (q.made r s.shared).proposalId := by
      intro heq
      rw [q.made_proposalId] at heq
      exact hfound (heq ▸ hnone)
    exact ⟨hnone, withVote_votesOf.trans (if_neg hne)⟩
  · intro id p' hp'
    refine Or.inl ⟨p', hp', ?_⟩
    rw [withVote_votesOf, q.made_proposalId]
    by_cases hid : id = q.proposalId
    · simp [hid, uncounted, UInt64.add_comm]
    · simp [hid, uncounted, Ne.symm hid]

theorem Accounted.counted (h : Accounted s) (ht : s.tasks[i]? = some (.stored q v))
    (hp : s.shared.proposals.lookup q.proposalId = some p) :
    Accounted (s.put i (q.after v, withCount s.shared q.proposalId p)) := by
  refine h.put ht ?_ ?_ ?_
  · intro id hid
    rw [target_after] at hid
    cases hid
  · intro id hnone
    rw [withCount_lookup] at hnone
    split at hnone
    · cases hnone
    · exact ⟨hnone, rfl⟩
  · intro id p' hp'
    left
    rw [withCount_lookup] at hp'
    split at hp'
    · case isTrue hid =>
      subst hid
      cases hp'
      refine ⟨p, hp, ?_⟩
      rw [uncounted_eq_false target_after]
      simp [uncounted, Voting.counted, withCount, ConsensusEngine.votesOf, UInt64.add_assoc]
    · case isFalse hid =>
      refine ⟨p', hp', ?_⟩
      rw [uncounted_eq_false target_after]
      simp [uncounted, Ne.symm hid, withCount, ConsensusEngine.votesOf]

theorem Accounted.created (h : Accounted s) {content : List UInt8}
    (ht : s.tasks[i]? = some (.creating content))
    (hfresh : s.shared.proposals.lookup r.freshId = none) :
    Accounted (s.put i (.announcing (Quorum.created r s.shared content),
      Quorum.stored s.shared (Quorum.created r s.shared content))) := by
  refine h.put ht ?_ ?_ ?_
  · intro id hid
    cases hid
  · intro id hnone
    rw [stored_lookup] at hnone
    split at hnone
    · cases hnone
    · exact ⟨hnone, rfl⟩
  · intro id p' hp'
    rw [stored_lookup] at hp'
    split at hp'
    · case isTrue hid =>
      have hid' : id = r.freshId := hid
      subst hid'
      cases hp'
      exact Or.inr ⟨hfresh, rfl, h.recorded r.freshId hfresh, rfl⟩
    · exact Or.inl ⟨p', hp', rfl⟩

theorem Accounted.marked (h : Accounted s) {ids : List String} {reply : Reply}
    (ht : s.tasks[i]? = some (.marking ids)) :
    Accounted (s.put i (.ended reply, ids.foldl expire s.shared)) := by
  refine h.put ht ?_ ?_ ?_
  · intro id hid
    cases hid
  · intro id hnone
    rw [expireAll_lookup, Option.map_eq_none_iff] at hnone
    exact ⟨hnone, expireAll_votesOf ids⟩
  · intro id p' hp'
    rw [expireAll_lookup] at hp'
    obtain ⟨p, hp, rfl⟩ := Option.map_eq_some_iff.mp hp'
    refine Or.inl ⟨p, hp, ?_⟩
    rw [expireAll_votesOf]
    split <;> rfl

theorem Accounted.start (h : Accounted s) (call : EngineCall) :
    Accounted (s.start (entry call)) := by
  refine ⟨?_, h.recorded, ?_⟩
  · intro t ht id hid
    rcases mem_start.mp ht with ht | rfl
    · exact h.known t ht id hid
    · rw [target_entry] at hid
      cases hid
  · intro id p hp
    rw [count_start, uncounted_eq_false (target_entry call)]
    exact h.count id p hp

theorem Accounted.step (h : Accounted s) (hown : OwnTasks s) (hstep : LocalStep s m s') :
    Accounted s' := by
  rcases hstep.cases with ⟨call, rfl, _, rfl⟩ | ⟨i, r, t, t', e', rfl, ht, hfresh, hb, rfl⟩
  · exact h.start call
  have hmem := List.mem_of_getElem? ht
  cases hb with
  | votable found =>
    refine h.idle ht rfl rfl ?_ fun _ => rfl
    intro id hid
    cases hid
    rw [found]
    simp
  | cleared =>
    refine h.idle ht rfl rfl ?_ fun _ => rfl
    intro id hid
    exact h.known _ hmem id hid
  | stored => exact h.stored ht
  | counted found => exact h.counted ht found
  | uncounted missing => exact False.elim (h.known _ hmem _ rfl missing)
  | created => exact h.created ht (by simpa [fresh] using hfresh)
  | adopted => cases hown _ hmem
  | marked => exact h.marked ht
  | _ => exact h.idle ht rfl rfl (fun _ hid => by cases hid) fun _ => rfl

/-! ## Votes of one voter -/

/-- The call has passed the check for an earlier vote of this voter and has not
recorded its own. -/
def passed (nodeId id voter : String) : Task → Bool
  | .cleared q => decide (q.proposalId = id ∧ q.voter nodeId = voter)
  | _ => false

/-- The call whose next block is that check. -/
def checking : Task → Option Ballot
  | .votable q => some q
  | _ => none

/-- The votes of one voter, those included that a call will record without
looking again. -/
def ballots (s : Calls) (id voter : String) : Nat :=
  (s.shared.votesOf id).countP (fun v => v.voter = voter) +
    s.count (passed s.shared.nodeId id voter)

theorem passed_eq_false {nodeId : String} (h : target t = none) :
    passed nodeId id voter t = false := by
  cases t with
  | cleared q => cases h
  | _ => rfl

theorem ballots_start (call : EngineCall) :
    ballots (s.start (entry call)) id voter = ballots s id voter := by
  unfold ballots
  rw [count_start, start_shared, passed_eq_false (target_entry call)]
  rfl

theorem nodeId_expireAll (ids : List String) : (ids.foldl expire e).nodeId = e.nodeId := by
  obtain ⟨proposals, hexpired⟩ := expireAll_eq (e := e) ids
  rw [hexpired]

/-- A block that records no vote. -/
theorem ballots_put (ht : s.tasks[i]? = some t) (hnode : e'.nodeId = s.shared.nodeId)
    (hvotes : e'.votesOf id = s.shared.votesOf id)
    (hpassed : passed s.shared.nodeId id voter t = false) :
    ballots (s.put i (t', e')) id voter =
      ballots s id voter + (passed s.shared.nodeId id voter t').toNat := by
  have hput : (s.put i (t', e')).count (passed s.shared.nodeId id voter) +
      (passed s.shared.nodeId id voter t).toNat =
      s.count (passed s.shared.nodeId id voter) + (passed s.shared.nodeId id voter t').toNat :=
    count_put ht
  rw [hpassed] at hput
  unfold ballots
  rw [put_shared, hnode, hvotes]
  simp only [Bool.toNat_false] at hput
  omega

theorem ballots_stored (ht : s.tasks[i]? = some (.cleared q)) :
    ballots (s.put i (.stored q (q.made r s.shared), withVote s.shared (q.made r s.shared)))
      id voter = ballots s id voter := by
  have hput := @count_put _ _ s i (.cleared q)
    (.stored q (q.made r s.shared), withVote s.shared (q.made r s.shared))
    (passed s.shared.nodeId id voter) ht
  have hvotes : ((withVote s.shared (q.made r s.shared)).votesOf id).countP
      (fun v => v.voter = voter) = (s.shared.votesOf id).countP (fun v => v.voter = voter) +
        (passed s.shared.nodeId id voter (.cleared q)).toNat := by
    rw [withVote_votesOf, q.made_proposalId]
    by_cases hid : id = q.proposalId
    · by_cases hvoter : q.voter s.shared.nodeId = voter
      · simp [hid, hvoter, passed]
      · simp [hid, hvoter, passed]
    · simp [hid, Ne.symm hid, passed]
  have hnode : (withVote s.shared (q.made r s.shared)).nodeId = s.shared.nodeId := rfl
  unfold ballots
  rw [put_shared, hvotes, hnode]
  simp only [passed, Bool.toNat_false] at hput ⊢
  omega

/-- Only the check adds to the votes of a voter; none are taken away. -/
theorem ballots_block (ht : s.tasks[i]? = some t) (hb : Block r s.shared t t' e') :
    ballots (s.put i (t', e')) id voter =
      ballots s id voter + (passed s.shared.nodeId id voter t').toNat := by
  cases hb with
  | stored => exact ballots_stored ht
  | marked => exact ballots_put ht (nodeId_expireAll _) (expireAll_votesOf _) rfl
  | _ => exact ballots_put ht rfl rfl rfl

/-- When a call checks for an earlier vote and finds none, no other call of the
same voter is between its own check and its record. -/
def Unhurried (s : Calls) : Move → Prop
  | .start _ => True
  | .advance i _ => ∀ t ∈ s.tasks[i]?, ∀ q ∈ checking t,
    (∀ x ∈ s.shared.votesOf q.proposalId, x.voter ≠ q.voter s.shared.nodeId) →
      ∀ u ∈ s.tasks, passed s.shared.nodeId q.proposalId (q.voter s.shared.nodeId) u = false

instance : DecidablePred (Unhurried s)
  | .start _ => .isTrue trivial
  | .advance i _ => inferInstanceAs (Decidable (∀ t ∈ s.tasks[i]?, ∀ q ∈ checking t, _ → _))

def UnhurriedStep (s : Calls) (m : Move) (s' : Calls) : Prop := LocalStep s m s' ∧ Unhurried s m

/-- Every proposal has one vote per voter, and the count says how many: both
`current_votes` and the length of the vector are `usize`. -/
def OneVoteEach (e : ConsensusEngine) : Prop :=
  ∀ id p, e.proposals.lookup id = some p →
    ((e.votesOf id).map Vote.voter).Nodup ∧ p.currentVotes = .ofNat (e.votesOf id).length

theorem ballots_eq_zero_iff : ballots s id voter = 0 ↔
    (∀ x ∈ s.shared.votesOf id, x.voter ≠ voter) ∧
      ∀ u ∈ s.tasks, passed s.shared.nodeId id voter u = false := by
  simp [ballots, System.count, List.countP_eq_zero]

/-- In an unhurried run a check is only passed for a voter without votes. -/
theorem ballots_of_unhurried (ht : s.tasks[i]? = some t) (hb : Block r s.shared t t' e')
    (hm : Unhurried s (.advance i r)) (hpassed : passed s.shared.nodeId id voter t' = true) :
    ballots s id voter = 0 := by
  cases hb with
  | @cleared q first =>
    obtain ⟨rfl, rfl⟩ := of_decide_eq_true hpassed
    exact ballots_eq_zero_iff.mpr ⟨first, hm _ ht q rfl first⟩
  | counted =>
    rw [passed_eq_false target_after] at hpassed
    cases hpassed
  | uncounted =>
    rw [passed_eq_false target_after] at hpassed
    cases hpassed
  | _ => cases hpassed

/-- A hurried check lets a second vote of its voter through. -/
theorem ballots_of_hurried (ht : s.tasks[i]? = some t) (hb : Block r s.shared t t' e')
    (hm : ¬ Unhurried s (.advance i r)) : ∃ id voter, 2 ≤ ballots (s.put i (t', e')) id voter := by
  simp only [Unhurried, not_forall] at hm
  obtain ⟨u, hu, q, hq, first, x, hx, hpassed⟩ := hm
  obtain rfl : t = u := Option.some.inj (ht.symm.trans hu)
  refine ⟨q.proposalId, q.voter s.shared.nodeId, ?_⟩
  have hone : ballots s q.proposalId (q.voter s.shared.nodeId) ≠ 0 := by
    intro hzero
    exact hpassed ((ballots_eq_zero_iff.mp hzero).2 x hx)
  rw [ballots_block ht hb]
  cases hb with
  | duplicate recorded same =>
    cases hq
    exact False.elim (first _ recorded same)
  | cleared =>
    cases hq
    have hself : passed s.shared.nodeId q.proposalId (q.voter s.shared.nodeId) (.cleared q) = true :=
      by simp [passed]
    rw [hself, Bool.toNat_true]
    omega
  | _ => cases hq

theorem LocalStep.ballots_le (h : LocalStep s m s') : ballots s id voter ≤ ballots s' id voter := by
  rcases h.cases with ⟨call, rfl, _, rfl⟩ | ⟨i, r, t, t', e', rfl, ht, _, hb, rfl⟩
  · rw [ballots_start]
  · rw [ballots_block ht hb]
    exact Nat.le_add_right _ _

theorem UnhurriedStep.ballots_le_one (hle : ∀ id voter, ballots s id voter ≤ 1)
    (h : UnhurriedStep s m s') : ∀ id voter, ballots s' id voter ≤ 1 := by
  intro id voter
  obtain ⟨hstep, hm⟩ := h
  rcases hstep.cases with ⟨call, rfl, _, rfl⟩ | ⟨i, r, t, t', e', rfl, ht, _, hb, rfl⟩
  · rw [ballots_start]
    exact hle id voter
  · rw [ballots_block ht hb]
    cases hpassed : passed s.shared.nodeId id voter t' with
    | false => exact hle id voter
    | true =>
      rw [ballots_of_unhurried ht hb hm hpassed]
      exact Nat.le_refl 1

/-- A step is unhurried, or some voter has two votes after it. -/
theorem LocalStep.unhurried_or (h : LocalStep s m s') :
    Unhurried s m ∨ ∃ id voter, 2 ≤ ballots s' id voter := by
  rcases h.cases with ⟨call, rfl, _, rfl⟩ | ⟨i, r, t, t', e', rfl, ht, _, hb, rfl⟩
  · exact Or.inl trivial
  · by_cases hm : Unhurried s (.advance i r)
    · exact Or.inl hm
    · exact Or.inr (ballots_of_hurried ht hb hm)

/-! ## The engine at rest -/

theorem count_of_quiescent {f : Task → Bool} (hq : Quiescent s)
    (hf : ∀ reply, f (.ended reply) = false) : s.count f = 0 := by
  refine count_eq_zero.mpr ?_
  intro t ht
  obtain ⟨reply, rfl⟩ := ended_of_left (hq t ht)
  simp [hf]

theorem ballots_of_quiescent (hq : Quiescent s) :
    ballots s id voter = ((s.shared.votesOf id).map Vote.voter).count voter := by
  rw [ballots, count_of_quiescent hq fun _ => rfl, List.count, List.countP_map]
  rfl

/-- A new engine, and no calls. -/
def idle (nodeId : String) (requiredVotes ttlMinutes : UInt64) : Calls :=
  ⟨.new nodeId requiredVotes ttlMinutes, []⟩

theorem accounted_idle (nodeId : String) (requiredVotes ttlMinutes : UInt64) :
    Accounted (idle nodeId requiredVotes ttlMinutes) where
  known := by
    intro t ht
    cases ht
  recorded := fun _ _ => rfl
  count := by
    intro id p hp
    cases hp

section Idle
variable {nodeId : String} {requiredVotes ttlMinutes : UInt64}

theorem run_accounted (h : Run LocalStep (idle nodeId requiredVotes ttlMinutes) moves s) :
    OwnTasks s ∧ Accounted s := by
  refine h.invariant (I := fun s => OwnTasks s ∧ Accounted s) ⟨?_, accounted_idle _ _ _⟩ ?_
  · intro t ht
    cases ht
  · intro s m s' hs hstep
    exact ⟨hs.1.step hstep, hs.2.step hs.1 hstep⟩

theorem run_unhurried_ballots (h : Run UnhurriedStep (idle nodeId requiredVotes ttlMinutes) moves s) :
    ∀ id voter, ballots s id voter ≤ 1 := by
  refine h.invariant (I := fun s => ∀ id voter, ballots s id voter ≤ 1) ?_ ?_
  · intro id voter
    exact Nat.zero_le 1
  · intro s m s' hle hstep
    exact hstep.ballots_le_one hle

theorem run_unhurried_or (h : Run LocalStep (idle nodeId requiredVotes ttlMinutes) moves s) :
    Run UnhurriedStep (idle nodeId requiredVotes ttlMinutes) moves s ∨
      ∃ id voter, 2 ≤ ballots s id voter := by
  induction h with
  | nil => exact Or.inl .nil
  | snoc _ hstep ih =>
    rcases ih with hrun | ⟨id, voter, htwo⟩
    · rcases hstep.unhurried_or with hm | htwo
      · exact Or.inl (.snoc hrun ⟨hstep, hm⟩)
      · exact Or.inr htwo
    · exact Or.inr ⟨id, voter, Nat.le_trans htwo hstep.ballots_le⟩

/-- Whenever no call is in progress, each proposal has at most one vote per
voter and its count is the number of its votes, exactly if no check for an
earlier vote was passed while another call of the same voter had passed its own
and not yet recorded its vote. -/
theorem one_vote_each_iff (nodeId : String) (requiredVotes ttlMinutes : UInt64)
    (moves : List Move) (s : Calls)
    (hrun : Run LocalStep (idle nodeId requiredVotes ttlMinutes) moves s) (hrest : Quiescent s) :
    OneVoteEach s.shared ↔ Run UnhurriedStep (idle nodeId requiredVotes ttlMinutes) moves s := by
  obtain ⟨_, haccounted⟩ := run_accounted hrun
  refine ⟨?_, ?_⟩
  · intro hone
    rcases run_unhurried_or hrun with h | ⟨id, voter, htwo⟩
    · exact h
    -- Two votes of one voter: they are recorded by now, on a proposal that exists.
    rw [ballots_of_quiescent hrest] at htwo
    cases hp : s.shared.proposals.lookup id with
    | none =>
      rw [haccounted.recorded id hp] at htwo
      cases htwo
    | some p =>
      have hle := List.nodup_iff_count_le_one.mp (hone id p hp).1 voter
      omega
  · intro hunhurried id p hp
    refine ⟨?_, ?_⟩
    · refine List.nodup_iff_count_le_one.mpr ?_
      intro voter
      rw [← ballots_of_quiescent hrest]
      exact run_unhurried_ballots hunhurried id voter
    · have hcount := haccounted.count id p hp
      rw [count_of_quiescent hrest fun _ => rfl] at hcount
      exact (UInt64.add_zero _).symm.trans hcount

end Idle

/-- A vote on the proposal that is created at the desk. -/
def ballot (voter : String) (voteType : VoteType) : Vote := ⟨"p", voter, voteType, 0, [], none⟩

/-- A proposal is created and two votes on it come in. -/
def twoVotes (first second : Vote) : List Move :=
  [.start (.processVote second), .start (.processVote first), .advance 0 desk, .advance 0 desk,
    .start (.createProposal [])]

/-- The two calls take turns. -/
def abreast (first second : Vote) : List Move :=
  [.advance 2 desk, .advance 1 desk, .advance 2 desk, .advance 1 desk, .advance 2 desk,
    .advance 1 desk, .advance 2 desk, .advance 1 desk] ++ twoVotes first second

/-- The second call waits for the first. -/
def inTurn (first second : Vote) : List Move :=
  [.advance 2 desk, .advance 2 desk, .advance 2 desk, .advance 2 desk, .advance 1 desk,
    .advance 1 desk, .advance 1 desk, .advance 1 desk] ++ twoVotes first second

/-- The same vote, delivered twice. -/
def echoed : List Move := abreast (ballot "bob" .approve) (ballot "bob" .approve)

def afterwards (required : UInt64) (moves : List Move) : Calls :=
  (play after isLocal (idle "node" required 60) moves).getD (idle "node" required 60)

/-- A vote that is delivered twice at a time is recorded twice. -/
theorem echoed_vote_counts_twice :
    Run LocalStep (idle "node" 3 60) echoed (afterwards 3 echoed) ∧
      Quiescent (afterwards 3 echoed) ∧ ¬ OneVoteEach (afterwards 3 echoed).shared := by
  refine ⟨run_of_play rfl, by decide, ?_⟩
  intro hone
  have hnodup : ["bob", "bob"].Nodup := (hone "p" _ rfl).1
  simp at hnodup

/-- A run on fixed inputs whose moves all meet a further condition. -/
theorem run_of_checked {P : Calls → Move → Prop} [∀ s, DecidablePred (P s)] {s₀ : Calls}
    (h : play after (fun s m => isLocal s m && decide (P s m)) s₀ moves = some s) :
    Run (fun s m s' => LocalStep s m s' ∧ P s m) s₀ moves s := by
  refine (run_of_play h).mono ?_
  intro s m s' hstep
  simp only [Bool.and_eq_true, decide_eq_true_eq] at hstep
  exact ⟨⟨hstep.1.1, hstep.2⟩, hstep.1.2⟩

theorem one_vote_each_iff_inTurn :
    OneVoteEach (afterwards 3 (inTurn (ballot "bob" .approve) (ballot "carol" .reject))).shared := by
  have hunhurried : Run UnhurriedStep (idle "node" 3 60)
      (inTurn (ballot "bob" .approve) (ballot "carol" .reject))
      (afterwards 3 (inTurn (ballot "bob" .approve) (ballot "carol" .reject))) := run_of_checked rfl
  exact (one_vote_each_iff "node" 3 60 _ _ (run_of_play rfl) (by decide)).mpr hunhurried

/-! ## Decisions -/

/-- The proposal whose count a call raises next. -/
def counting : Task → Option String
  | .stored q _ => some q.proposalId
  | _ => none

/-- The proposals that a call marks next. -/
def marking : Task → List String
  | .marking ids => ids
  | _ => []

/-- A vote is counted while its proposal is open or stays short of the quorum,
and a proposal is marked while it is open or is marked already. -/
def Timely (s : Calls) : Move → Prop
  | .start _ => True
  | .advance i _ => ∀ t ∈ s.tasks[i]?,
    (∀ id ∈ counting t, ∀ p ∈ s.shared.proposals.lookup id,
      p.status = .active ∨ p.currentVotes + 1 < p.requiredVotes) ∧
    ∀ id ∈ marking t, ∀ p ∈ s.shared.proposals.lookup id, p.status = .active ∨ p.status = .expired

instance : DecidablePred (Timely s)
  | .start _ => .isTrue trivial
  | .advance i _ => inferInstanceAs (Decidable (∀ t ∈ s.tasks[i]?, _ ∧ _))

def TimelyStep (s : Calls) (m : Move) (s' : Calls) : Prop := LocalStep s m s' ∧ Timely s m

/-- The status that is on record for a proposal. -/
def statusOf (e : ConsensusEngine) (id : String) : Option ProposalStatus :=
  (e.proposals.lookup id).map Proposal.status

/-- The status is a decision. -/
def Decided (status : ProposalStatus) : Prop := status ≠ .active

variable {status : ProposalStatus}

theorem statusOf_counted (hdecided : Decided status) (hs : statusOf e id = some status)
    {pid : String} (hp : e.proposals.lookup pid = some p)
    (htimely : p.status = .active ∨ p.currentVotes + 1 < p.requiredVotes) :
    statusOf (withCount e pid p) id = some status := by
  unfold statusOf at hs ⊢
  rw [withCount_lookup]
  by_cases hid : id = pid
  · subst hid
    rw [hp] at hs
    have hstatus : p.status = status := Option.some.inj hs
    have hshort : ¬ p.requiredVotes ≤ p.currentVotes + 1 := by
      rcases htimely with hactive | hshort
      · exact False.elim (hdecided (hstatus.symm.trans hactive))
      · exact UInt64.not_le.mpr hshort
    simp [counted, hshort, hstatus]
  · rw [if_neg hid]
    exact hs

theorem statusOf_marked (hdecided : Decided status) (hs : statusOf e id = some status)
    {ids : List String} (htimely : ∀ id ∈ ids, ∀ p ∈ e.proposals.lookup id,
      p.status = .active ∨ p.status = .expired) :
    statusOf (ids.foldl expire e) id = some status := by
  unfold statusOf at hs ⊢
  rw [expireAll_lookup]
  obtain ⟨p, hp, hstatus⟩ := Option.map_eq_some_iff.mp hs
  rw [hp]
  by_cases hid : id ∈ ids
  · have hexpired : p.status = .expired := by
      rcases htimely id hid p hp with hactive | hexpired
      · exact False.elim (hdecided (hstatus.symm.trans hactive))
      · exact hexpired
    simp [hid, ← hstatus, hexpired]
  · simp [hid, hstatus]

theorem statusOf_created (hs : statusOf e id = some status) (hnew : e.proposals.lookup p.id = none) :
    statusOf (Quorum.stored e p) id = some status := by
  unfold statusOf at hs ⊢
  rw [stored_lookup]
  by_cases hid : id = p.id
  · rw [hid, hnew] at hs
    cases hs
  · rw [if_neg hid]
    exact hs

theorem TimelyStep.statusOf (hown : OwnTasks s) (hdecided : Decided status)
    (hs : statusOf s.shared id = some status) (h : TimelyStep s m s') :
    Races.statusOf s'.shared id = some status := by
  obtain ⟨hstep, hm⟩ := h
  rcases hstep.cases with ⟨call, rfl, _, rfl⟩ | ⟨i, r, t, t', e', rfl, ht, hfresh, hb, rfl⟩
  · exact hs
  obtain ⟨hcounting, hmarking⟩ := hm t ht
  show Races.statusOf e' id = some status
  cases hb with
  | counted found => exact statusOf_counted hdecided hs found (hcounting _ rfl _ found)
  | created =>
    have hnew : s.shared.proposals.lookup r.freshId = none := by
      simpa [fresh] using hfresh
    exact statusOf_created hs hnew
  | adopted => cases hown _ (List.mem_of_getElem? ht)
  | marked => exact statusOf_marked hdecided hs hmarking
  | _ => exact hs

/-- Once a proposal is approved, rejected or expired it stays so, in every run
in which votes are counted and proposals marked in time. -/
theorem decisions_final (e : ConsensusEngine) (earlier later : List Move) (s s' : Calls)
    (hbefore : Run TimelyStep ⟨e, []⟩ earlier s) (hafter : Run TimelyStep s later s')
    (id : String) (status : ProposalStatus) (hstatus : statusOf s.shared id = some status)
    (hdecided : Decided status) : statusOf s'.shared id = some status := by
  have hown : OwnTasks s := by
    refine hbefore.invariant (I := OwnTasks) ?_ fun _ _ _ h hstep => h.step hstep.1
    intro t ht
    cases ht
  have hkept := hafter.invariant (I := fun s => OwnTasks s ∧ statusOf s.shared id = some status)
    ⟨hown, hstatus⟩ fun _ _ _ h hstep => ⟨h.1.step hstep.1, hstep.statusOf h.1 hdecided h.2⟩
  exact hkept.2

/-- Two hours later, when a proposal of the desk has expired. -/
def dusk : Surroundings := { desk with now := 7200000000000 }

/-- Two votes whose checks are past when the first of them decides. -/
def untilDecision : List Move :=
  [.advance 2 desk, .advance 1 desk, .advance 1 desk, .advance 2 desk, .advance 1 desk,
    .advance 2 desk, .advance 1 desk] ++
    twoVotes (ballot "bob" .approve) (ballot "carol" .reject)

/-- A vote is counted after its proposal was collected as expired. -/
def untilLateCount : List Move :=
  [.advance 1 dusk, .advance 2 dusk, .start .cleanupExpiredProposals, .advance 1 desk,
    .advance 1 desk, .advance 1 desk, .start (.processVote (ballot "bob" .approve)),
    .advance 0 desk, .advance 0 desk, .start (.createProposal [])]

/-- A decision is overturned by the next vote, and by a cleanup that is under way. -/
theorem decisions_overturned :
    (Run LocalStep (idle "node" 1 60) untilDecision (afterwards 1 untilDecision) ∧
      Run LocalStep (idle "node" 1 60) (.advance 2 desk :: untilDecision)
        (afterwards 1 (.advance 2 desk :: untilDecision)) ∧
      statusOf (afterwards 1 untilDecision).shared "p" = some .approved ∧
      statusOf (afterwards 1 (.advance 2 desk :: untilDecision)).shared "p" = some .rejected) ∧
    Run LocalStep (idle "node" 1 60) untilLateCount (afterwards 1 untilLateCount) ∧
      Run LocalStep (idle "node" 1 60) (.advance 2 dusk :: untilLateCount)
        (afterwards 1 (.advance 2 dusk :: untilLateCount)) ∧
      statusOf (afterwards 1 untilLateCount).shared "p" = some .approved ∧
      statusOf (afterwards 1 (.advance 2 dusk :: untilLateCount)).shared "p" = some .expired :=
  ⟨⟨run_of_play rfl, run_of_play rfl, rfl, rfl⟩, run_of_play rfl, run_of_play rfl, rfl, rfl⟩

/-- The first of two votes in turn, up to its count. -/
def firstInTurn : List Move :=
  (inTurn (ballot "bob" .approve) (ballot "carol" .reject)).drop 4

theorem decisions_final_inTurn :
    statusOf (afterwards 1 (.advance 2 desk :: firstInTurn)).shared "p" = some .approved := by
  have hbefore : Run TimelyStep (idle "node" 1 60) firstInTurn (afterwards 1 firstInTurn) :=
    run_of_checked rfl
  have hafter : Run TimelyStep (afterwards 1 firstInTurn) [.advance 2 desk]
      (afterwards 1 (.advance 2 desk :: firstInTurn)) := run_of_checked rfl
  exact decisions_final _ _ _ _ _ hbefore hafter "p" .approved rfl (by simp [Decided])

end Axionvera.Node.Races

import Axionvera.Node.EngineLocks

/-! # A call of the engine with nobody else there

Under the locks a call that runs alone comes to an end, or to
`finalize_proposal`, where it waits for itself. Its checks are in front of its
writes, so what they refuse leaves the maps as they were. The broadcast is
behind them: when the channel's receiver is gone, the call fails and the
proposal, or the vote and its count, stay. -/
namespace Axionvera.Node.LoneCalls
open Axionvera.Lib.Guards Axionvera.Lib.Host Axionvera.Lib.Interleaving Axionvera.Lib.Transition
open Axionvera.Node.Consensus Axionvera.Node.Voting Axionvera.Node.Interleaved
open Axionvera.Node.EngineLocks
open Axionvera.Node.Agreement (desk)
open Axionvera.Node.Quorum (EngineCall created)

-- The `k`-th step of a call finds `r k` around it.
variable {r : Nat → Surroundings} {e e₁ e₂ : ConsensusEngine} {call : EngineCall} {n m : Nat}
  {x y : Point} {t : Task} {q : Ballot} {v : Vote} {p : Proposal}

/-! ## Runs of one call -/

/-- After `n` steps the call stands at `x` and the engine is `e'`. -/
def Alone (r : Nat → Surroundings) (e : ConsensusEngine) (call : EngineCall) (n : Nat) (x : Point)
    (e' : ConsensusEngine) : Prop :=
  Run EngineLocks.Step ⟨e, [.outside (entry call)]⟩ (upTo (fun k => .advance 0 (r k)) n) ⟨e', [x]⟩

theorem Alone.advance (h : Alone r e call n x e₁) (hgranted : Granted locking [x] x) :
    Alone r e call (n + 1) (step (r n) x e₁).1 (step (r n) x e₁).2 := by
  refine .snoc h ?_
  simp [EngineLocks.Step, EngineLocks.after, hgranted, System.put]

/-- Nothing stands against the first guard of a call. -/
theorem granted_outside : Granted locking [.outside t] (.outside t) := by
  intro g _ y hy k hk
  cases List.mem_singleton.mp hy
  cases hk

theorem granted_inside : Granted locking [.inside t] (.inside t) := by
  intro g hg
  cases hg

theorem Alone.block (h : Alone r e call n (.outside t) e₁) (ht : guardOf t ≠ none) :
    Alone r e call (n + 2) (body (r (n + 1)) t e₁).1 (body (r (n + 1)) t e₁).2 := by
  have hacquired := h.advance granted_outside
  rw [step_acquire ht] at hacquired
  exact hacquired.advance granted_inside

theorem Alone.free (h : Alone r e call n (.outside t) e₁) (ht : guardOf t = none) :
    Alone r e call (n + 1) (.outside (next (r n) t e₁).1) (next (r n) t e₁).2 := by
  have hnext := h.advance granted_outside
  rwa [step_free ht] at hnext

/-- A call does not get on from here by itself. -/
def Rests (x : Point) : Prop := (∃ reply, x = .outside (.ended reply)) ∨ ∃ q v, x = .finalizing q v

theorem rests_step {s : Locked} (h : Rests x)
    (hstep : EngineLocks.Step ⟨e₁, [x]⟩ (.advance 0 (r n)) s) : s = ⟨e₁, [x]⟩ := by
  rcases hstep.cases with ⟨_, hmove, _⟩ | ⟨i, r', y, hmove, hy, hgranted, rfl⟩
  · cases hmove
  · cases hmove
    cases hy
    rcases h with ⟨reply, rfl⟩ | ⟨q, v, rfl⟩
    · rw [step_free rfl]
      rfl
    · exact False.elim (stuck_finalizing.not_granted List.mem_cons_self hgranted)

/-- A call comes to rest in one way. -/
theorem Alone.unique (hx : Rests x) (hy : Rests y) (h : Alone r e call n x e₁)
    (h' : Alone r e call m y e₂) : x = y ∧ e₁ = e₂ := by
  have hdet : ∀ (s : Locked) l t u, EngineLocks.Step s l t → EngineLocks.Step s l u → t = u :=
    fun s l t u ht hu => Option.some.inj (ht.symm.trans hu)
  rcases Nat.le_total n m with hle | hle
  · cases Run.rests hdet (fun k u => rests_step hx) h hle h'
    exact ⟨rfl, rfl⟩
  · cases Run.rests hdet (fun k u => rests_step hy) h' hle h
    exact ⟨rfl, rfl⟩

/-! ## Traces -/

/-- The two maps are the same. -/
def SameMaps (e e' : ConsensusEngine) : Prop :=
  (∀ id, e'.proposals.lookup id = e.proposals.lookup id) ∧
    ∀ id, e'.votes.lookup id = e.votes.lookup id

/-- If the call returns an error, the maps are as they were. -/
def Traceless (r : Nat → Surroundings) (e : ConsensusEngine) (call : EngineCall) : Prop :=
  ∀ n error e', Alone r e call n (.outside (.ended (.failed error))) e' → SameMaps e e'

/-- It is enough to see where the call comes to rest. -/
theorem traceless_iff (h : Alone r e call n x e₁) (hx : Rests x) :
    Traceless r e call ↔ ∀ error, x = .outside (.ended (.failed error)) → SameMaps e e₁ := by
  refine ⟨?_, ?_⟩
  · intro htraceless error heq
    subst heq
    exact htraceless n error e₁ h
  · intro hsame m error e' hfailed
    obtain ⟨rfl, rfl⟩ := h.unique hx (Or.inl ⟨_, rfl⟩) hfailed
    exact hsame error rfl

theorem traceless_of_same (h : Alone r e call n x e) (hx : Rests x) : Traceless r e call :=
  (traceless_iff h hx).mpr fun _ _ => ⟨fun _ => rfl, fun _ => rfl⟩

theorem traceless_of_not_failed (h : Alone r e call n x e₁) (hx : Rests x)
    (hne : ∀ error, x ≠ .outside (.ended (.failed error))) : Traceless r e call :=
  (traceless_iff h hx).mpr fun error heq => False.elim (hne error heq)

/-! ## Votes -/

/-- The proposal of the vote is there and open. -/
def Open (now : Time) (e : ConsensusEngine) (q : Ballot) : Prop :=
  ∃ p, e.proposals.lookup q.proposalId = some p ∧ p.canVote now = true

/-- No vote of the voter is recorded. -/
def First (e : ConsensusEngine) (q : Ballot) : Prop :=
  ∀ x ∈ e.votesOf q.proposalId, x.voter ≠ q.voter e.nodeId

theorem next_begun_of_open {a : Surroundings} (h : Open a.now e q) :
    next a (.begun q) e = (.votable q, e) := by
  have hread : requireVotable q.proposalId q.unknown a e = .ok () e :=
    requireVotable_returns.mpr ⟨h, rfl⟩
  simp only [next, Interleaved.block, hread]

theorem next_begun_of_not_open {a : Surroundings} (h : ¬ Open a.now e q) :
    ∃ error, next a (.begun q) e = (.ended (.failed error), e) := by
  have hblock := @block_begun a e q
  generalize next a (.begun q) e = result at hblock
  obtain ⟨t', e'⟩ := result
  cases hblock with
  | closed => exact ⟨_, rfl⟩
  | votable hfound hcan => exact False.elim (h ⟨_, hfound, hcan⟩)

theorem next_votable (a : Surroundings) (e : ConsensusEngine) (q : Ballot) :
    First e q ∧ next a (.votable q) e = (.cleared q, e) ∨
      ¬ First e q ∧ ∃ error, next a (.votable q) e = (.ended (.failed error), e) := by
  have hblock := @block_votable a e q
  generalize next a (.votable q) e = result at hblock
  obtain ⟨t', e'⟩ := result
  cases hblock with
  | duplicate hrecorded hsame =>
    exact Or.inr ⟨fun hfirst => hfirst _ hrecorded hsame, _, rfl⟩
  | cleared hfirst => exact Or.inl ⟨hfirst, rfl⟩

/-- The checks pass the call on or end it. -/
theorem alone_checks (hentry : entry call = .begun q) :
    (Open (r 1).now e q ∧ First e q) ∧ Alone r e call 4 (.outside (.cleared q)) e ∨
      ¬ (Open (r 1).now e q ∧ First e q) ∧ Traceless r e call := by
  have hbegin : Alone r e call 0 (.outside (.begun q)) e := hentry ▸ Run.nil
  have hread : Alone r e call 2 (.outside (next (r 1) (.begun q) e).1) (next (r 1) (.begun q) e).2 :=
    hbegin.block (by simp [guardOf])
  by_cases hopen : Open (r 1).now e q
  · rw [next_begun_of_open hopen] at hread
    have hcheck : Alone r e call 4 (.outside (next (r 3) (.votable q) e).1)
        (next (r 3) (.votable q) e).2 := hread.block (by simp [guardOf])
    rcases next_votable (r 3) e q with ⟨hfirst, hnext⟩ | ⟨hagain, error, hnext⟩
    · rw [hnext] at hcheck
      exact Or.inl ⟨⟨hopen, hfirst⟩, hcheck⟩
    · rw [hnext] at hcheck
      exact Or.inr ⟨fun h => hagain h.2, traceless_of_same hcheck (Or.inl ⟨_, rfl⟩)⟩
  · obtain ⟨error, hnext⟩ := next_begun_of_not_open hopen
    rw [hnext] at hread
    exact Or.inr ⟨fun h => hopen h.1, traceless_of_same hread (Or.inl ⟨_, rfl⟩)⟩

/-- The engine with the vote stored and counted. -/
def withBallot (r : Nat → Surroundings) (e : ConsensusEngine) (q : Ballot) (p : Proposal) :
    ConsensusEngine :=
  withCount (withVote e (q.made (r 5) e)) q.proposalId p

theorem not_sameMaps_withBallot : ¬ SameMaps e (withBallot r e q p) := by
  intro h
  have hvotes : (withBallot r e q p).votes.lookup q.proposalId =
      some (e.votesOf q.proposalId ++ [q.made (r 5) e]) := by
    simp [withBallot, withCount, withVote]
  have hsame : e.votesOf q.proposalId = e.votesOf q.proposalId ++ [q.made (r 5) e] :=
    congrArg (fun found => found.getD []) ((h.2 q.proposalId).symm.trans hvotes)
  simp at hsame

/-- A vote that passed the checks is stored and counted. If it makes the quorum,
the call waits for itself and returns nothing. -/
theorem alone_counted (h : Alone r e call 4 (.outside (.cleared q)) e)
    (hfound : e.proposals.lookup q.proposalId = some p) :
    MakesQuorum e q ∧ Traceless r e call ∨
      ¬ MakesQuorum e q ∧
        Alone r e call 8 (.outside (q.after (q.made (r 5) e))) (withBallot r e q p) := by
  have hstored : Alone r e call 6 (.outside (.stored q (q.made (r 5) e)))
      (withVote e (q.made (r 5) e)) := h.block (by simp [guardOf])
  have hcount := hstored.block (by simp [guardOf])
  have hbody : body (r 7) (.stored q (q.made (r 5) e)) (withVote e (q.made (r 5) e)) =
      count q (q.made (r 5) e) (withVote e (q.made (r 5) e)) := rfl
  rw [hbody] at hcount
  by_cases hquorum : MakesQuorum e q
  · have hmakes : MakesQuorum (withVote e (q.made (r 5) e)) q := hquorum
    rw [count_of_quorum hmakes] at hcount
    refine Or.inl ⟨hquorum, traceless_of_not_failed hcount (Or.inr ⟨_, _, rfl⟩) ?_⟩
    intro error heq
    cases heq
  · have hshort : ¬ MakesQuorum (withVote e (q.made (r 5) e)) q := hquorum
    have hlookup : (withVote e (q.made (r 5) e)).proposals.lookup q.proposalId = some p := hfound
    rw [count_of_not_quorum (r := r 7) hshort, next_stored_of_found hlookup] at hcount
    exact Or.inr ⟨hquorum, hcount⟩

theorem next_sending (a : Surroundings) (e : ConsensusEngine) (v : Vote) :
    next a (.sending v) e =
      if a.voteReceiver = true then (.ended .done, { e with sentVotes := e.sentVotes ++ [v] })
      else (.ended (.failed (.server "Failed to broadcast vote: channel closed")), e) := by
  simp only [next, Interleaved.block, broadcast]
  cases a.voteReceiver <;> rfl

theorem next_announcing (a : Surroundings) (e : ConsensusEngine) (p : Proposal) :
    next a (.announcing p) e =
      if a.proposalReceiver = true then
        (.ended (.proposal p), { e with sentProposals := e.sentProposals ++ [p] })
      else (.ended (.failed (.server "Failed to broadcast proposal: channel closed")), e) := by
  simp only [next, Interleaved.block, Quorum.announce]
  cases a.proposalReceiver <;> rfl

/-- The last block of a call fails exactly if the channel has no receiver. -/
theorem traceless_of_broadcast {receiver : Bool} {reply : Reply} {error : NetworkError}
    (h : Alone r e call n (.outside t) e₁) (ht : guardOf t = none)
    (hreply : ∀ error, reply ≠ .failed error)
    (hnext : next (r n) t e₁ =
      if receiver = true then (.ended reply, e₂) else (.ended (.failed error), e₁)) :
    Traceless r e call ↔ receiver = true ∨ SameMaps e e₁ := by
  have hsent := h.free ht
  cases receiver with
  | true =>
    rw [hnext, if_pos rfl] at hsent
    have htraceless : Traceless r e call := by
      refine traceless_of_not_failed hsent (Or.inl ⟨_, rfl⟩) ?_
      intro error heq
      cases heq
      exact hreply error rfl
    exact iff_of_true htraceless (Or.inl rfl)
  | false =>
    rw [hnext, if_neg Bool.false_ne_true] at hsent
    rw [traceless_iff hsent (Or.inl ⟨_, rfl⟩)]
    simp

theorem traceless_vote {id : String} {voteType : VoteType} {signature : List UInt8} :
    Traceless r e (.vote id voteType signature) ↔ (r 8).voteReceiver = true ∨
      ¬ (Open (r 1).now e (.vote id voteType signature) ∧ First e (.vote id voteType signature)) ∨
        MakesQuorum e (.vote id voteType signature) := by
  have hchecks := @alone_checks r e (.vote id voteType signature) _ rfl
  rcases hchecks with ⟨hballot, hcleared⟩ | ⟨hrefused, htraceless⟩
  · obtain ⟨p, hfound, -⟩ := hballot.1
    rcases alone_counted hcleared hfound with ⟨hquorum, htraceless⟩ | ⟨hshort, hcounted⟩
    · exact iff_of_true htraceless (Or.inr (Or.inr hquorum))
    · rw [traceless_of_broadcast hcounted rfl (fun _ => by simp) (next_sending _ _ _)]
      simp [hballot, hshort, not_sameMaps_withBallot]
  · exact iff_of_true htraceless (Or.inr (Or.inl hrefused))

theorem traceless_processVote : Traceless r e (.processVote v) := by
  have hchecks := @alone_checks r e (.processVote v) _ rfl
  rcases hchecks with ⟨hballot, hcleared⟩ | ⟨hrefused, htraceless⟩
  · obtain ⟨p, hfound, -⟩ := hballot.1
    rcases alone_counted hcleared hfound with ⟨hquorum, htraceless⟩ | ⟨hshort, hcounted⟩
    · exact htraceless
    · refine traceless_of_not_failed hcounted (Or.inl ⟨_, rfl⟩) ?_
      intro error heq
      cases heq
  · exact htraceless

/-! ## Proposals -/

theorem sameMaps_stored_iff : SameMaps e (Quorum.stored e p) ↔ e.proposals.lookup p.id = some p := by
  refine ⟨?_, ?_⟩
  · intro h
    rw [← h.1, stored_lookup, if_pos rfl]
  · intro h
    refine ⟨?_, fun _ => rfl⟩
    intro id
    rw [stored_lookup]
    split
    · rename_i heq
      rw [heq, h]
    · rfl

theorem traceless_createProposal {content : List UInt8} :
    Traceless r e (.createProposal content) ↔ (r 2).proposalReceiver = true ∨
      e.proposals.lookup (r 1).freshId = some (created (r 1) e content) := by
  have hbegin : Alone r e (.createProposal content) 0 (.outside (.creating content)) e := Run.nil
  have hstored : Alone r e (.createProposal content) 2
      (.outside (.announcing (created (r 1) e content))) (Quorum.stored e (created (r 1) e content)) :=
    hbegin.block (by simp [guardOf])
  rw [traceless_of_broadcast hstored rfl (fun _ => by simp) (next_announcing _ _ _),
    sameMaps_stored_iff]
  rfl

theorem next_offered (a : Surroundings) (e : ConsensusEngine) (p : Proposal) :
    next a (.offered p) e = (.ended .done, e) ∨ next a (.offered p) e = (.adopting p, e) := by
  simp only [next, Interleaved.block, readProposal, HostM.gets]
  cases e.proposals.lookup p.id with
  | none => exact Or.inr rfl
  | some p' => exact Or.inl rfl

theorem traceless_processProposal : Traceless r e (.processProposal p) := by
  have hbegin : Alone r e (.processProposal p) 0 (.outside (.offered p)) e := Run.nil
  have hread : Alone r e (.processProposal p) 2 (.outside (next (r 1) (.offered p) e).1)
      (next (r 1) (.offered p) e).2 := hbegin.block (by simp [guardOf])
  rcases next_offered (r 1) e p with hnext | hnext
  · rw [hnext] at hread
    exact traceless_of_same hread (Or.inl ⟨_, rfl⟩)
  · rw [hnext] at hread
    have hadopted : Alone r e (.processProposal p) 4 (.outside (.ended .done))
        (Quorum.stored e p) := hread.block (by simp [guardOf])
    refine traceless_of_not_failed hadopted (Or.inl ⟨_, rfl⟩) ?_
    intro error heq
    cases heq

theorem next_collecting (a : Surroundings) (e : ConsensusEngine) :
    next a .collecting e = (.ended (.cleaned 0), e) ∨
      next a .collecting e = (.marking (expired a.now e), e) := by
  simp only [next, Interleaved.block, HostM.gets]
  by_cases hnil : (expired a.now e).isEmpty = true
  · exact Or.inl (by rw [if_pos hnil])
  · exact Or.inr (by rw [if_neg hnil])

theorem traceless_cleanup : Traceless r e .cleanupExpiredProposals := by
  have hbegin : Alone r e .cleanupExpiredProposals 0 (.outside .collecting) e := Run.nil
  have hread : Alone r e .cleanupExpiredProposals 2 (.outside (next (r 1) .collecting e).1)
      (next (r 1) .collecting e).2 := hbegin.block (by simp [guardOf])
  rcases next_collecting (r 1) e with hnext | hnext
  · rw [hnext] at hread
    exact traceless_of_same hread (Or.inl ⟨_, rfl⟩)
  · rw [hnext] at hread
    have hmarked := hread.block (by simp [guardOf])
    refine traceless_of_not_failed hmarked (Or.inl ⟨_, rfl⟩) ?_
    intro error heq
    cases heq

/-! ## Failed calls -/

/-- What keeps a failed call from leaving a trace. The broadcast is the step
after that of `create_proposal`'s one block, and after those of `vote`'s four. -/
def NoTrace (r : Nat → Surroundings) (e : ConsensusEngine) : EngineCall → Prop
  | .createProposal content => (r 2).proposalReceiver = true ∨
    e.proposals.lookup (r 1).freshId = some (created (r 1) e content)
  | .vote id voteType signature => (r 8).voteReceiver = true ∨
    ¬ (Open (r 1).now e (.vote id voteType signature) ∧ First e (.vote id voteType signature)) ∨
      MakesQuorum e (.vote id voteType signature)
  | _ => True

/-- A call that runs alone and returns an error leaves the maps as they were if
and only if the broadcast finds its receiver or there is none to make: a vote is
refused before it is stored, or makes the quorum and never returns. The created
proposal would have to be there already, under its fresh id. -/
theorem failed_call_traceless_iff (r : Nat → Surroundings) (e : ConsensusEngine)
    (call : EngineCall) : Traceless r e call ↔ NoTrace r e call := by
  cases call with
  | createProposal content => exact traceless_createProposal
  | processProposal p => exact iff_of_true traceless_processProposal trivial
  | vote id voteType signature => exact traceless_vote
  | processVote v => exact iff_of_true traceless_processVote trivial
  | cleanupExpiredProposals => exact iff_of_true traceless_cleanup trivial

/-- A node whose channels have lost their receivers. -/
def cutOff (_ : Nat) : Surroundings := { desk with voteReceiver := false, proposalReceiver := false }

/-- A node that has a proposal under way, two votes being needed. -/
def busy : ConsensusEngine :=
  Quorum.stored (.new "node" 2 60) (created desk (.new "node" 2 60) [])

/-- Cut off, the creation of a proposal fails and the proposal is there; a vote
fails and is recorded and counted. -/
theorem cut_off_calls_leave_traces :
    (∃ e', Alone cutOff (.new "node" 2 60) (.createProposal []) 3
        (.outside (.ended (.failed (.server "Failed to broadcast proposal: channel closed")))) e' ∧
      (ConsensusEngine.new "node" 2 60).proposals.lookup "p" = none ∧
      e'.proposals.lookup "p" = some (created desk (.new "node" 2 60) [])) ∧
    ∃ e', Alone cutOff busy (.vote "p" .approve []) 9
        (.outside (.ended (.failed (.server "Failed to broadcast vote: channel closed")))) e' ∧
      busy.votesOf "p" = [] ∧ e'.votesOf "p" = [Vote.new 0 "p" "node" .approve []] ∧
      (busy.proposals.lookup "p").map Proposal.currentVotes = some 0 ∧
      (e'.proposals.lookup "p").map Proposal.currentVotes = some 1 := by
  refine ⟨⟨_, run_of_play_true rfl, rfl, rfl⟩, ⟨_, run_of_play_true rfl, rfl, rfl, rfl, rfl⟩⟩

end Axionvera.Node.LoneCalls

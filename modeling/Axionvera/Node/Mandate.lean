import Axionvera.Lib.Override
import Axionvera.Node.Approvals

/-! # Runs of the governance service

A run is any sequence of proposals, votes and ticks, with any calls of the
registry in between. Along it the accepted votes and the submissions that the
registry accepted are written down, and the results are about these. -/
namespace Axionvera.Node.Mandate
open Axionvera.Lib.OwnKey Axionvera.Lib.Override Axionvera.Lib.Transition
open Axionvera.Node.ChainParams Axionvera.Node.Governance Axionvera.Node.Registry
open Axionvera.Node.Service
open GovernanceService

variable {g : GovernanceService} {r : ChainParameterRegistry} {height : UInt64}
variable {p : Proposal} {id : String} {order : List String} {uuid : String → Nat}

/-! ## Submissions of a tick -/

/-- The ids whose submission the second loop sees accepted. -/
def submissions (uuid : String → Nat) :
    GovernanceService × ChainParameterRegistry → List String → List String
  | _, [] => []
  | acc, id :: ids =>
    let rest := submissions uuid (execute uuid acc id) ids
    match acc.1.proposals.get id with
    | none => rest
    | some proposal =>
      match acc.2.submitParameterUpgrade (uuid id) proposal.patch proposal.activationHeight
          proposal.proposer (proposal.votes.values.map Vote.voter) with
      | .ok _ => id :: rest
      | .error _ => rest

/-- The ids that a tick submits with success. -/
def executedBy (g : GovernanceService) (order : List String) (uuid : String → Nat)
    (currentHeight : UInt64) (registry : ChainParameterRegistry) : List String :=
  let tallied := order.foldl (tally registry.governance currentHeight) (g, [])
  submissions uuid (tallied.1, registry) tallied.2

theorem submissions_eq {ids : List String} (hnd : ids.Nodup)
    (acc : GovernanceService × ChainParameterRegistry) :
    submissions uuid acc ids = (accepted acc.1 acc.2 ids).map Proposal.id := by
  induction ids generalizing acc with
  | nil => rfl
  | cons id ids ih =>
    obtain ⟨hid, hnd⟩ := List.nodup_cons.mp hnd
    rw [accepted_cons, submissions, ih hnd, accepted_execute hid]
    cases hp : acc.1.proposals.get id with
    | none => simp
    | some p =>
      have hcases := submitParameterUpgrade_cases acc.2 (uuid id) p.patch p.activationHeight
        p.proposer (voters p)
      rcases hcases with ⟨hacc, hok⟩ | ⟨hacc, e, herr⟩
      · have hexec : Executable acc.2 p := hacc
        unfold voters at hok
        simp [hok, hexec, id_of_get hp]
      · have hexec : ¬ Executable acc.2 p := hacc
        unfold voters at herr
        simp [herr, hexec]

theorem executedBy_eq (hnd : order.Nodup) (g : GovernanceService) (uuid : String → Nat)
    (height : UInt64) (r : ChainParameterRegistry) :
    executedBy g order uuid height r = (ripe g r height order).map Proposal.id := by
  unfold executedBy
  rw [submissions_eq (tally_nodup hnd), accepted_tally hnd, List.map_map]
  refine List.map_congr_left fun p _ => ?_
  exact counted_id

theorem mem_executedBy (horder : order.Perm g.proposals.keys) :
    id ∈ executedBy g order uuid height r ↔
      ∃ p, g.proposals.get id = some p ∧ Ripe r height p := by
  rw [executedBy_eq (nodup_of_perm horder), List.mem_map]
  refine ⟨?_, ?_⟩
  · intro h
    obtain ⟨p, hp, rfl⟩ := h
    obtain ⟨hp, hripe⟩ := (mem_ripe horder).mp hp
    exact ⟨p, KeyedMap.get_eq_some_iff.mpr ⟨hp, rfl⟩, hripe⟩
  · intro h
    obtain ⟨p, hp, hripe⟩ := h
    exact ⟨p, (mem_ripe horder).mpr ⟨(KeyedMap.get_eq_some_iff.mp hp).1, hripe⟩, id_of_get hp⟩

theorem executedBy_nodup (horder : order.Perm g.proposals.keys) :
    (executedBy g order uuid height r).Nodup := by
  have hnd := nodup_of_perm horder
  have hids : ((order.filterMap g.proposals.get).map Proposal.id).Nodup := by
    rw [List.map_filterMap]
    refine hnd.filterMap ?_
    intro k k' id hk hk'
    obtain ⟨p, hp, rfl⟩ := Option.map_eq_some_iff.mp hk
    obtain ⟨p', hp', hid⟩ := Option.map_eq_some_iff.mp hk'
    rw [← id_of_get hp, ← hid, id_of_get hp']
  rw [executedBy_eq hnd]
  exact hids.sublist (List.filter_sublist.map _)

/-- The record of an accepted submission. -/
def recordOf (uuid : String → Nat) (r : ChainParameterRegistry) (p : Proposal) :
    ScheduledUpgradeRecord where
  transactionId := transactionId (uuid p.id)
  announcedAtHeight := r.currentHeight
  activationEpochHeight := p.activationHeight
  patch := p.patch

theorem upgradeHistory_foldl (ps : List Proposal) (r : ChainParameterRegistry) :
    (ps.foldl (scheduled uuid) r).upgradeHistory =
      r.upgradeHistory ++ ps.map (recordOf uuid r) := by
  induction ps generalizing r with
  | nil => simp
  | cons p ps ih =>
    have hrecord : recordOf uuid (scheduled uuid r p) = recordOf uuid r := rfl
    rw [List.foldl_cons, ih, hrecord, List.map_cons]
    show (r.upgradeHistory ++ [recordOf uuid r p]) ++ _ = _
    rw [List.append_assoc, List.singleton_append]

/-! ## Runs -/

/-- An accepted vote and the height at which it was cast. -/
structure Ballot where
  proposalId : String
  voter : String
  approve : Bool
  height : UInt64
  deriving DecidableEq

/-- A proposal whose patch was submitted with success, and the height of the tick. -/
structure Execution where
  proposalId : String
  height : UInt64
  deriving DecidableEq

/-- The service and the registry, with what happened so far. -/
structure World where
  service : GovernanceService
  registry : ChainParameterRegistry
  ballots : List Ballot
  executions : List Execution

def World.start (votingDuration : UInt64) (registry : ChainParameterRegistry) : World :=
  ⟨.new votingDuration, registry, [], []⟩

inductive Call where
  | propose (id proposer : String) (patch : NetworkParametersPatch)
      (activationHeight currentHeight : UInt64)
  | castVote (proposalId voter : String) (approve : Bool) (currentHeight : UInt64)
  | tick (order : List String) (uuid : String → Nat) (currentHeight : UInt64)
  | registry (call : RegistryCall)

/-- The world after a call, which a refused one leaves as it was. -/
def World.after (w : World) : Call → World
  | .propose id proposer patch activationHeight currentHeight =>
    match w.service.propose id proposer patch activationHeight currentHeight w.registry with
    | .ok (_, service) => { w with service := service }
    | .error _ => w
  | .castVote proposalId voter approve currentHeight =>
    match w.service.castVote proposalId voter approve w.registry with
    | .ok service =>
      { w with
        service := service
        ballots := w.ballots ++ [⟨proposalId, voter, approve, currentHeight⟩] }
    | .error _ => w
  | .tick order uuid currentHeight =>
    { service := (w.service.tick order uuid currentHeight w.registry).1
      registry := (w.service.tick order uuid currentHeight w.registry).2
      ballots := w.ballots
      executions := w.executions ++
        (executedBy w.service order uuid currentHeight w.registry).map (⟨·, currentHeight⟩) }
  | .registry call => { w with registry := call.after w.registry }

/-- A new proposal gets a fresh id, and a tick meets each proposal once. -/
def Admissible (w : World) : Call → Prop
  | .propose id _ _ _ _ => id ∉ w.service.proposals.keys
  | .tick order _ _ => order.Perm w.service.proposals.keys
  | .castVote _ _ _ _ => True
  | .registry _ => True

instance (w : World) (c : Call) : Decidable (Admissible w c) :=
  match c with
  | .propose _ _ _ _ _ => inferInstanceAs (Decidable (_ ∉ _))
  | .tick _ _ _ => inferInstanceAs (Decidable (List.Perm _ _))
  | .castVote _ _ _ _ => inferInstanceAs (Decidable True)
  | .registry _ => inferInstanceAs (Decidable True)

def Step (w : World) (c : Call) (w' : World) : Prop := Admissible w c ∧ w' = w.after c

/-- What a call can do. -/
inductive Move (w : World) : Call → World → Prop
  | refused (c : Call) : Move w c w
  | proposed {id proposer : String} {patch : NetworkParametersPatch}
      {activationHeight currentHeight : UInt64} (hnew : w.service.proposals.get id = none) :
      Move w (.propose id proposer patch activationHeight currentHeight)
        { w with
          service := w.service.store
            (proposed w.service id proposer patch activationHeight currentHeight) }
  | voted {id voter : String} {approve : Bool} {currentHeight : UInt64} {p : Proposal}
      (hp : w.service.proposals.get id = some p) (hstatus : p.status = .voting) :
      Move w (.castVote id voter approve currentHeight)
        { w with
          service := w.service.store (withVote p voter approve)
          ballots := w.ballots ++ [⟨id, voter, approve, currentHeight⟩] }
  | ticked {order : List String} {uuid : String → Nat} {currentHeight : UInt64}
      (horder : order.Perm w.service.proposals.keys) :
      Move w (.tick order uuid currentHeight) (w.after (.tick order uuid currentHeight))
  | changed {c : RegistryCall} {registry : ChainParameterRegistry}
      (h : Change w.registry c registry) :
      Move w (.registry c) { w with registry := registry }

variable {w w' : World} {c : Call}

theorem Step.move (h : Step w c w') : Move w c w' := by
  obtain ⟨hadm, rfl⟩ := h
  cases c with
  | propose id proposer patch activationHeight currentHeight =>
    simp only [World.after]
    split
    · rename_i heq
      obtain ⟨-, hout⟩ := propose_eq_ok.mp heq
      cases hout
      refine .proposed ?_
      cases hget : w.service.proposals.get id with
      | none => rfl
      | some p => exact absurd (KeyedMap.mem_keys_iff.mpr ⟨p, hget⟩) hadm
    · exact .refused _
  | castVote id voter approve currentHeight =>
    simp only [World.after]
    split
    · rename_i heq
      obtain ⟨-, p, hp, hstatus, rfl⟩ := castVote_eq_ok.mp heq
      exact .voted hp hstatus
    · exact .refused _
  | tick order uuid currentHeight => exact .ticked hadm
  | registry call => exact .changed (Registry.Step.change rfl)

/-! ## What every run keeps -/

/-- The last vote on a proposal of the voter with this normalized id. -/
def latestVote (ballots : List Ballot) (id voterId : String) : Option Bool :=
  latest (fun b => if b.proposalId = id ∧ normalizeId b.voter = voterId then some b.approve else none)
    ballots

theorem latestVote_concat (ballots : List Ballot) (b : Ballot) (id voterId : String) :
    latestVote (ballots ++ [b]) id voterId =
      (if b.proposalId = id ∧ normalizeId b.voter = voterId then some b.approve else none).or
        (latestVote ballots id voterId) :=
  latest_concat _ ballots b

structure Sound (w : World) : Prop where
  voted : ∀ id p, w.service.proposals.get id = some p →
    ∀ n, (p.votes.get n).map Vote.approve = latestVote w.ballots id n
  known : ∀ b ∈ w.ballots, w.service.proposals.get b.proposalId ≠ none
  mandated : ∀ id p, w.service.proposals.get id = some p →
    p.status = .passed ∨ p.status = .executed → Mandated w.registry.governance p
  recorded : ∀ e ∈ w.executions, ∃ p, w.service.proposals.get e.proposalId = some p ∧
    p.status = .executed ∧ p.endHeight ≤ e.height
  once : (w.executions.map Execution.proposalId).Nodup

theorem sound_start (votingDuration : UInt64) (r : ChainParameterRegistry) :
    Sound (.start votingDuration r) where
  voted := by intro id p h; cases h
  known := by intro b h; cases h
  mandated := by intro id p h; cases h
  recorded := by intro e h; cases h
  once := List.nodup_nil

/-- Writing an undecided proposal, with its votes as they are on record. -/
theorem Sound.store (h : Sound w) {q : Proposal} {ballots : List Ballot}
    (hopen : ∀ p, w.service.proposals.get q.id = some p → p.status = .voting)
    (hstatus : q.status = .voting)
    (hvotes : ∀ n, (q.votes.get n).map Vote.approve = latestVote ballots q.id n)
    (hothers : ∀ k, q.id ≠ k → ∀ n, latestVote ballots k n = latestVote w.ballots k n)
    (hnew : ∀ b ∈ ballots, b ∈ w.ballots ∨ b.proposalId = q.id) :
    Sound { w with service := w.service.store q, ballots := ballots } where
  voted := by
    intro k p hp n
    rw [store_get] at hp
    split at hp
    · rename_i hk
      cases hp
      exact hk ▸ hvotes n
    · rename_i hk
      exact (h.voted k p hp n).trans (hothers k hk n).symm
  known := by
    intro b hb
    rw [store_get]
    split
    · exact Option.some_ne_none q
    · rename_i hk
      exact h.known b ((hnew b hb).resolve_right (Ne.symm hk))
  mandated := by
    intro k p hp hs
    rw [store_get] at hp
    split at hp
    · cases hp
      rw [hstatus] at hs
      rcases hs with hs | hs <;> cases hs
    · exact h.mandated k p hp hs
  recorded := by
    intro e he
    obtain ⟨p, hp, hs⟩ := h.recorded e he
    refine ⟨p, ?_, hs⟩
    -- what was executed is not open
    have hne : q.id ≠ e.proposalId := by
      intro hk
      have := hopen p (hk ▸ hp)
      rw [hs.1] at this
      cases this
    rw [store_get, if_neg hne]
    exact hp
  once := h.once

theorem Sound.proposed (h : Sound w) {q : Proposal} (hnew : w.service.proposals.get q.id = none)
    (hvotes : q.votes = .empty) (hstatus : q.status = .voting) :
    Sound { w with service := w.service.store q } := by
  refine h.store ?_ hstatus ?_ (fun _ _ _ => rfl) (fun b hb => Or.inl hb)
  · intro p hp
    rw [hnew] at hp
    cases hp
  · intro n
    have hnone : latestVote w.ballots q.id n = none := by
      refine latest_eq_none_iff.mpr fun b hb => if_neg fun hc => ?_
      exact h.known b hb (by rw [hc.1, hnew])
    rw [hvotes, hnone]
    rfl

theorem Sound.castVote (h : Sound w) (hp : w.service.proposals.get id = some p)
    (hstatus : p.status = .voting) (voter : String) (approve : Bool) (height : UInt64) :
    Sound { w with
      service := w.service.store (withVote p voter approve)
      ballots := w.ballots ++ [⟨id, voter, approve, height⟩] } := by
  obtain rfl := id_of_get hp
  refine h.store ?_ hstatus ?_ ?_ ?_
  · intro q hq
    obtain rfl : p = q := Option.some.inj (hp.symm.trans hq)
    exact hstatus
  · intro n
    show ((p.votes.insert ⟨voter, approve, 1⟩).get n).map Vote.approve =
      latestVote (w.ballots ++ [_]) p.id n
    rw [KeyedMap.get_insert, latestVote_concat, ← h.voted p.id p hp n]
    by_cases hn : normalizeId voter = n
    · simp [hn, Vote.voterId]
    · simp [hn, Vote.voterId]
  · intro k hk n
    have hk : ¬ p.id = k := hk
    rw [latestVote_concat]
    simp [hk]
  · intro b hb
    rcases List.mem_append.mp hb with hb | hb
    · exact Or.inl hb
    · obtain rfl := List.mem_singleton.mp hb
      exact Or.inr rfl

/-! ## Ticks -/

theorem settled_of_status (h : p.status ≠ .voting) : settled r height p = p :=
  settled_of_not_due fun hdue => h hdue.1

theorem governance_foldl (ps : List Proposal) (r : ChainParameterRegistry) :
    (ps.foldl (scheduled uuid) r).governance = r.governance := by
  obtain ⟨_, _, hfold⟩ := foldl_scheduled_eq uuid ps r
  rw [hfold]

theorem mandated_settled {config : GovernanceConfig} :
    Mandated config (settled r height p) ↔ Mandated config p := by
  cases config <;> rfl

theorem mandated_of_verdict (h : verdict r height p = .passed ∨ verdict r height p = .executed)
    (hbefore : p.status = .passed ∨ p.status = .executed → Mandated r.governance p) :
    Mandated r.governance p := by
  unfold verdict at h
  by_cases hdue : Due height p
  · by_contra hm
    simp [hdue, hm] at h
  · exact hbefore (by simpa [hdue] using h)

theorem Sound.tick (h : Sound w) {height : UInt64}
    (horder : order.Perm w.service.proposals.keys) :
    Sound (w.after (.tick order uuid height)) where
  voted := by
    intro k p hp n
    obtain ⟨q, hq, rfl⟩ := Option.map_eq_some_iff.mp ((tick_get horder _ _ _ k).symm.trans hp)
    exact h.voted k q hq n
  known := by
    intro b hb
    have := h.known b hb
    show (w.service.tick order uuid height w.registry).1.proposals.get b.proposalId ≠ none
    rw [tick_get horder]
    simpa using this
  mandated := by
    intro k p hp hs
    obtain ⟨q, hq, rfl⟩ := Option.map_eq_some_iff.mp ((tick_get horder _ _ _ k).symm.trans hp)
    show Mandated (w.service.tick order uuid height w.registry).2.governance _
    rw [tick_registry horder, governance_foldl, mandated_settled]
    exact mandated_of_verdict hs (h.mandated k q hq)
  recorded := by
    intro e he
    show ∃ p, (w.service.tick order uuid height w.registry).1.proposals.get e.proposalId = some p ∧ _
    rw [tick_get horder]
    rcases List.mem_append.mp he with he | he
    · obtain ⟨p, hp, hs, hend⟩ := h.recorded e he
      have hkeep : settled w.registry height p = p := settled_of_status (by simp [hs])
      exact ⟨p, by rw [hp, Option.map_some, hkeep], hs, hend⟩
    · obtain ⟨id, hid, rfl⟩ := List.mem_map.mp he
      obtain ⟨p, hp, hripe⟩ := (mem_executedBy horder).mp hid
      refine ⟨settled w.registry height p, by rw [hp, Option.map_some], ?_, hripe.due.2⟩
      exact (verdict_eq_executed hripe.due.1).mpr hripe
  once := by
    show ((w.executions ++ (executedBy _ _ _ _ _).map fun id => Execution.mk id height).map
      Execution.proposalId).Nodup
    rw [List.map_append, List.map_map, List.nodup_append]
    refine ⟨h.once, ?_, ?_⟩
    · show ((executedBy _ _ _ _ _).map id).Nodup
      rw [List.map_id]
      exact executedBy_nodup horder
    · intro id hold id' hnew heq
      subst heq
      obtain ⟨e, he, rfl⟩ := List.mem_map.mp hold
      obtain ⟨k, hk, hke⟩ := List.mem_map.mp hnew
      have hke : k = e.proposalId := hke
      obtain ⟨p, hp, hs, -⟩ := h.recorded e he
      obtain ⟨q, hq, hripe⟩ := (mem_executedBy horder).mp hk
      rw [hke, hp] at hq
      cases hq
      cases hs.symm.trans hripe.due.1

theorem Sound.step (h : Sound w) (hs : Step w c w') : Sound w' := by
  cases hs.move with
  | refused => exact h
  | proposed hnew => exact h.proposed hnew rfl rfl
  | voted hp hstatus => exact h.castVote hp hstatus _ _ _
  | ticked horder => exact h.tick horder
  | changed hc =>
    refine ⟨h.voted, h.known, ?_, h.recorded, h.once⟩
    intro k p hp hs
    show Mandated _ p
    rw [hc.fixed.1]
    exact h.mandated k p hp hs

theorem sound_of_run {votingDuration : UInt64} {calls : List Call}
    (hr : Run Step (.start votingDuration r) calls w) : Sound w :=
  hr.invariant (sound_start votingDuration r) fun _ _ _ h hs => h.step hs

/-! ## Mandates -/

/-- Under DAO governance enough distinct members approved with their last vote. -/
def Supported (config : GovernanceConfig) (ballots : List Ballot) (id : String) : Prop :=
  match config with
  | .adminKeys _ => True
  | .dao members minApprovals =>
    ∃ S : Finset String, minApprovals.toNat ≤ S.card ∧
      ∀ n ∈ S, n ∈ members.map normalizeId ∧ latestVote ballots id n = some true

theorem supported_of_mandated (config : GovernanceConfig) {ballots : List Ballot}
    (hvotes : ∀ n, (p.votes.get n).map Vote.approve = latestVote ballots id n)
    (hm : Mandated config p) : Supported config ballots id := by
  cases config with
  | adminKeys keys => trivial
  | dao members minApprovals =>
    refine ⟨((p.votes.values.filter (approves members)).map Vote.voterId).toFinset, ?_, ?_⟩
    · have hnd : ((p.votes.values.filter (approves members)).map Vote.voterId).Nodup :=
        p.votes.distinct.sublist (List.filter_sublist.map _)
      have hle := UInt32.le_iff_toNat_le.mp (mandated_dao.mp hm)
      rw [UInt32.toNat_ofNat'] at hle
      rw [List.toFinset_card_of_nodup hnd, List.length_map, ← List.countP_eq_length_filter]
      exact hle.trans (Nat.mod_le _ _)
    · intro n hn
      obtain ⟨v, hv, rfl⟩ := List.mem_map.mp (List.mem_toFinset.mp hn)
      obtain ⟨hv, happroves⟩ := List.mem_filter.mp hv
      obtain ⟨happrove, hmember⟩ := Bool.and_eq_true_iff.mp happroves
      refine ⟨?_, ?_⟩
      · obtain ⟨m, hm, hid⟩ := List.any_eq_true.mp hmember
        exact List.mem_map.mpr ⟨m, hm, by simpa [Vote.voterId] using hid⟩
      · rw [← hvotes, KeyedMap.get_eq_some_iff.mpr ⟨hv, rfl⟩, Option.map_some, happrove]

theorem governance_of_run {votingDuration : UInt64} {calls : List Call}
    (hr : Run Step (.start votingDuration r) calls w) : w.registry.governance = r.governance := by
  refine hr.invariant (I := fun w => w.registry.governance = r.governance) rfl ?_
  intro w c w' h hs
  cases hs.move with
  | refused => exact h
  | proposed => exact h
  | voted => exact h
  | ticked horder =>
    show (w.service.tick _ _ _ w.registry).2.governance = _
    rw [tick_registry horder, governance_foldl, h]
  | changed hc => exact hc.fixed.1.trans h

/-- A decided proposal stays. -/
theorem get_step (hp : w.service.proposals.get id = some p)
    (hstatus : p.status = .rejected ∨ p.status = .executed) (hs : Step w c w') :
    w'.service.proposals.get id = some p := by
  have hclosed : p.status ≠ .voting := by
    rcases hstatus with h | h <;> simp [h]
  cases hs.move with
  | refused => exact hp
  | @proposed k _ _ _ _ hnew =>
    rw [store_get, if_neg]
    · exact hp
    · intro hk
      have hk : k = id := hk
      rw [hk, hp] at hnew
      cases hnew
  | @voted k voter approve currentHeight q hq hopen =>
    rw [store_get, if_neg]
    · exact hp
    · intro hk
      have hk : k = id := (id_of_get hq).symm.trans hk
      rw [hk, hp] at hq
      cases hq
      exact hclosed hopen
  | ticked horder =>
    show (w.service.tick _ _ _ w.registry).1.proposals.get id = some p
    rw [tick_get horder, hp, Option.map_some, settled_of_status hclosed]
  | changed => exact hp

theorem get_run (hp : w.service.proposals.get id = some p)
    (hstatus : p.status = .rejected ∨ p.status = .executed) {calls : List Call}
    (hr : Run Step w calls w') : w'.service.proposals.get id = some p :=
  hr.invariant (I := fun w => w.service.proposals.get id = some p) hp
    fun _ _ _ h hs => get_step h hstatus hs

theorem not_due_after_tick (horder : order.Perm g.proposals.keys) (k : String) (q : Proposal)
    (hq : (g.tick order uuid height r).1.proposals.get k = some q) : ¬ Due height q := by
  rw [tick_get horder] at hq
  obtain ⟨p, -, rfl⟩ := Option.map_eq_some_iff.mp hq
  intro hdue
  by_cases hp : Due height p
  · have hstatus : verdict r height p = .voting := hdue.1
    unfold verdict at hstatus
    rw [if_pos hp] at hstatus
    split at hstatus
    · split at hstatus <;> cases hstatus
    · cases hstatus
  · rw [settled_of_not_due hp] at hdue
    exact hp hdue

/-- Along every run each proposal is submitted with success at most once, by a
tick at or after its end height and with a mandate; a tick adds one record for
each; what is rejected or executed stays and takes no vote; and a second tick at
one height does nothing. -/
theorem governance_executes_once (votingDuration : UInt64) (r : ChainParameterRegistry)
    (calls : List Call) (w : World) (hr : Run Step (.start votingDuration r) calls w) :
    (w.executions.map Execution.proposalId).Nodup ∧
    (∀ e ∈ w.executions, ∃ p, w.service.proposals.get e.proposalId = some p ∧
      p.status = .executed ∧ p.endHeight ≤ e.height ∧
      Supported r.governance w.ballots e.proposalId) ∧
    (∀ order uuid height, order.Perm w.service.proposals.keys →
      ∃ ps : List Proposal, (∀ p ∈ ps, w.service.proposals.get p.id = some p) ∧
        (w.after (.tick order uuid height)).executions =
          w.executions ++ ps.map (fun p => ⟨p.id, height⟩) ∧
        (w.after (.tick order uuid height)).registry.upgradeHistory =
          w.registry.upgradeHistory ++ ps.map (recordOf uuid w.registry)) ∧
    (∀ id p, w.service.proposals.get id = some p → p.status = .rejected ∨ p.status = .executed →
      (∀ later w', Run Step w later w' → w'.service.proposals.get id = some p) ∧
      ∀ voter approve registry g, w.service.castVote id voter approve registry ≠ .ok g) ∧
    ∀ order order' uuid uuid' height, order.Perm w.service.proposals.keys →
      (w.service.tick order uuid height w.registry).1.tick order' uuid' height
          (w.service.tick order uuid height w.registry).2 =
        w.service.tick order uuid height w.registry := by
  have hsound := sound_of_run hr
  refine ⟨hsound.once, ?_, ?_, ?_, ?_⟩
  · intro e he
    obtain ⟨p, hp, hs, hend⟩ := hsound.recorded e he
    have hm := hsound.mandated _ p hp (Or.inr hs)
    rw [governance_of_run hr] at hm
    exact ⟨p, hp, hs, hend, supported_of_mandated _ (hsound.voted _ p hp) hm⟩
  · intro order uuid height horder
    refine ⟨ripe w.service w.registry height order, ?_, ?_, ?_⟩
    · intro p hp
      exact KeyedMap.get_eq_some_iff.mpr ⟨((mem_ripe horder).mp hp).1, rfl⟩
    · show w.executions ++ (executedBy _ _ _ _ _).map _ = _
      rw [executedBy_eq (nodup_of_perm horder), List.map_map]
      rfl
    · show (w.service.tick order uuid height w.registry).2.upgradeHistory = _
      rw [tick_registry horder, upgradeHistory_foldl]
  · intro id p hp hstatus
    refine ⟨fun later w' hlater => get_run hp hstatus hlater, ?_⟩
    intro voter approve registry g hcast
    obtain ⟨-, q, hq, hopen, -⟩ := castVote_eq_ok.mp hcast
    rw [hp] at hq
    cases hq
    rcases hstatus with h | h <;> cases hopen.symm.trans h
  · intro order order' uuid uuid' height horder
    exact tick_of_not_due (not_due_after_tick horder) order' uuid'

/-- The council's proposal of `sizeMotion`, voted on until height 5. -/
def propose : Call := .propose "a" "m1" largerBlocks 200 0

def decideAt (height : UInt64) : Call := .tick ["a"] (fun _ => 0) height

/-- Both of the needed votes come in time. -/
def councilWorld : World :=
  ((((World.start 5 openCouncil).after propose).after (.castVote "a" "m1" true 3)).after
    (.castVote "a" "M2 " true 4)).after (decideAt 9)

def councilCalls : List Call :=
  [decideAt 9, .castVote "a" "M2 " true 4, .castVote "a" "m1" true 3, propose]

theorem council_run : Run Step (.start 5 openCouncil) councilCalls councilWorld :=
  .snoc (.snoc (.snoc (.snoc .nil ⟨by decide, rfl⟩) ⟨trivial, rfl⟩) ⟨trivial, rfl⟩)
    ⟨by decide, rfl⟩

theorem governance_executes_once_council :
    councilWorld.executions.map Execution.proposalId = ["a"] ∧
      Supported (.dao ["m1", "m2", "m3"] 2) councilWorld.ballots "a" := by
  obtain ⟨-, hmandate, -⟩ := governance_executes_once 5 openCouncil _ councilWorld council_run
  obtain ⟨p, -, -, -, hsupported⟩ := hmandate ⟨"a", 9⟩ (by decide)
  exact ⟨by decide, hsupported⟩

end Axionvera.Node.Mandate

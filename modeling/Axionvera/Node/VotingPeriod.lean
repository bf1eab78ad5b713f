import Axionvera.Node.Mandate

/-! # The voting period

`cast_vote` looks at the status of a proposal and not at the height, so votes are
taken until a tick counts them. -/
namespace Axionvera.Node.VotingPeriod
open Axionvera.Lib.OwnKey Axionvera.Lib.Override Axionvera.Lib.Transition
open Axionvera.Node.ChainParams Axionvera.Node.Governance Axionvera.Node.Service
open Axionvera.Node.Registry (openCouncil)
open Axionvera.Node.Mandate

variable {r : ChainParameterRegistry} {p : Proposal} {id : String} {w w' : World} {c : Call}

/-- A vote at or after the end height comes when the votes have been counted. -/
def InTime (w : World) : Call → Prop
  | .castVote id _ _ currentHeight =>
    ∀ p ∈ w.service.proposals.get id, p.endHeight ≤ currentHeight → p.status ≠ .voting
  | .propose _ _ _ _ _ => True
  | .tick _ _ _ => True
  | .registry _ => True

instance (w : World) (c : Call) : Decidable (InTime w c) :=
  match c with
  | .castVote id _ _ _ => inferInstanceAs (Decidable (∀ p ∈ w.service.proposals.get id, _))
  | .propose _ _ _ _ _ => inferInstanceAs (Decidable True)
  | .tick _ _ _ => inferInstanceAs (Decidable True)
  | .registry _ => inferInstanceAs (Decidable True)

def Punctual (w : World) (c : Call) (w' : World) : Prop := Step w c w' ∧ InTime w c

/-- Every vote on record was cast in the voting period. -/
def Early (w : World) : Prop :=
  ∀ b ∈ w.ballots, ∀ p, w.service.proposals.get b.proposalId = some p → b.height < p.endHeight

theorem Early.step (h : Early w) (hsound : Sound w) (hs : Punctual w c w') : Early w' := by
  obtain ⟨hstep, htime⟩ := hs
  cases hstep.move with
  | refused => exact h
  | @proposed k _ _ _ _ hnew =>
    intro b hb p hp
    rw [store_get] at hp
    split at hp
    · rename_i hk
      have hk : k = b.proposalId := hk
      exact absurd (hk ▸ hnew) (hsound.known b hb)
    · exact h b hb p hp
  | @voted k voter approve height q hq hopen =>
    have hintime : height < q.endHeight := by
      by_contra hlate
      exact htime q hq (UInt64.not_lt.mp hlate) hopen
    intro b hb p hp
    rw [store_get] at hp
    split at hp
    · rename_i hk
      have hk : q.id = b.proposalId := hk
      cases hp
      show b.height < q.endHeight
      rcases List.mem_append.mp hb with hb | hb
      · exact h b hb q (by rw [← hk, id_of_get hq]; exact hq)
      · obtain rfl := List.mem_singleton.mp hb
        exact hintime
    · rename_i hk
      rcases List.mem_append.mp hb with hb | hb
      · exact h b hb p hp
      · obtain rfl := List.mem_singleton.mp hb
        exact absurd (id_of_get hq) hk
  | ticked horder =>
    intro b hb p hp
    obtain ⟨q, hq, rfl⟩ := Option.map_eq_some_iff.mp ((tick_get horder _ _ _ _).symm.trans hp)
    exact h b hb q hq
  | changed => exact h

theorem early_of_run {votingDuration : UInt64} {calls : List Call}
    (hr : Run Punctual (.start votingDuration r) calls w) : Early w := by
  refine hr.induct (I := fun _ w => Early w) (by intro b hb; cases hb) ?_
  intro calls w c w' hr h hs
  exact h.step (sound_of_run (hr.mono fun _ _ _ h => h.1)) hs

/-- The votes in the voting period are the votes. -/
theorem Early.latestVote (h : Early w) (hp : w.service.proposals.get id = some p) (n : String) :
    latestVote (w.ballots.filter fun b => b.height < p.endHeight) id n =
      latestVote w.ballots id n := by
  refine latest_filter ?_
  intro b hb hset
  have hid : b.proposalId = id := by
    by_contra hne
    simp [hne] at hset
  simpa using h b hb p (hid ▸ hp)

/-- Where every late vote finds the votes counted, a proposal passes only by
votes cast in its voting period, and a late vote changes nothing. -/
theorem voting_period_enforced (votingDuration : UInt64) (r : ChainParameterRegistry)
    (members : List String) (minApprovals : UInt32)
    (hg : r.governance = .dao members minApprovals) (calls : List Call) (w : World)
    (hr : Run Punctual (.start votingDuration r) calls w) :
    (∀ id p, w.service.proposals.get id = some p → p.status = .passed ∨ p.status = .executed →
      ∃ S : Finset String, minApprovals.toNat ≤ S.card ∧
        ∀ n ∈ S, n ∈ members.map normalizeId ∧
          latestVote (w.ballots.filter fun b => b.height < p.endHeight) id n = some true) ∧
    ∀ id p voter approve height w', w.service.proposals.get id = some p → p.endHeight ≤ height →
      Punctual w (.castVote id voter approve height) w' → w' = w := by
  have hrun : Run Step _ calls w := hr.mono fun _ _ _ h => h.1
  have hsound := sound_of_run hrun
  have hearly := early_of_run hr
  refine ⟨?_, ?_⟩
  · intro id p hp hs
    have hm := hsound.mandated id p hp hs
    rw [governance_of_run hrun, hg] at hm
    refine supported_of_mandated (.dao members minApprovals) (fun n => ?_) hm
    rw [hearly.latestVote hp]
    exact hsound.voted id p hp n
  · intro id p voter approve height w' hp hlate hs
    obtain ⟨hstep, htime⟩ := hs
    cases hstep.move with
    | refused => rfl
    | voted hq hopen =>
      obtain rfl := Option.some.inj (hp.symm.trans hq)
      exact absurd hopen (htime p hp hlate)

theorem council_run_punctual : Run Punctual (.start 5 openCouncil) councilCalls councilWorld :=
  .snoc (.snoc (.snoc (.snoc .nil ⟨⟨by decide, rfl⟩, trivial⟩) ⟨⟨trivial, rfl⟩, by decide⟩)
    ⟨⟨trivial, rfl⟩, by decide⟩) ⟨⟨by decide, rfl⟩, trivial⟩

theorem voting_period_enforced_council :
    (councilWorld.service.proposals.get "a").map Proposal.status = some .executed ∧
      ∀ p, councilWorld.service.proposals.get "a" = some p → p.status = .executed →
        ∃ S : Finset String, (2 : UInt32).toNat ≤ S.card ∧
          ∀ n ∈ S, n ∈ ["m1", "m2", "m3"].map normalizeId ∧
            latestVote (councilWorld.ballots.filter fun b => b.height < p.endHeight) "a" n =
              some true := by
  refine ⟨by decide, ?_⟩
  intro p hp hs
  exact (voting_period_enforced 5 openCouncil ["m1", "m2", "m3"] 2 rfl councilCalls councilWorld
    council_run_punctual).1 "a" p hp (Or.inr hs)

/-- The height at which a call is made. -/
def madeAt : Call → Option UInt64
  | .propose _ _ _ _ currentHeight => some currentHeight
  | .castVote _ _ _ currentHeight => some currentHeight
  | .tick _ _ currentHeight => some currentHeight
  | .registry _ => none

/-- The voting period ends at height 5, and all votes come after it. -/
def lateCalls : List Call :=
  [decideAt 9, .castVote "a" "m2" true 8, .castVote "a" "m1" true 7, propose]

def lateWorld : World :=
  ((((World.start 5 openCouncil).after propose).after (.castVote "a" "m1" true 7)).after
    (.castVote "a" "m2" true 8)).after (decideAt 9)

/-- The heights grow, no vote is cast in the voting period, and the proposal is
executed; without the late votes the same tick rejects it. -/
theorem late_votes_decide :
    openCouncil.governance = .dao ["m1", "m2", "m3"] 2 ∧
      Run Step (.start 5 openCouncil) lateCalls lateWorld ∧
      (lateCalls.filterMap madeAt).Pairwise (fun later earlier => earlier ≤ later) ∧
      (lateWorld.service.proposals.get "a").map (fun p => (p.status, p.endHeight)) =
        some (.executed, 5) ∧
      lateWorld.ballots.filter (fun b => b.height < 5) = [] ∧
      ((((World.start 5 openCouncil).after propose).after (decideAt 9)).service.proposals.get
        "a").map Proposal.status = some .rejected := by
  refine ⟨rfl, ?_, by decide, by decide, by decide, by decide⟩
  exact .snoc (.snoc (.snoc (.snoc .nil ⟨by decide, rfl⟩) ⟨trivial, rfl⟩) ⟨trivial, rfl⟩)
    ⟨by decide, rfl⟩

end Axionvera.Node.VotingPeriod

import Axionvera.Lib.MachineInt
import Axionvera.Node.Schedule
import Axionvera.Node.Service

/-! # One more approval

Who may vote, whose approval counts and whose name an upgrade may carry are three
different questions to the code. Where they come apart, an approval that is
accepted on record keeps a proposal from being executed. -/
namespace Axionvera.Node.Approvals
open Axionvera.Lib.MachineInt Axionvera.Lib.OwnKey
open Axionvera.Node.ChainParams Axionvera.Node.Governance Axionvera.Node.Registry
open Axionvera.Node.Schedule Axionvera.Node.Service
open ChainParameterRegistry GovernanceService

variable {g g' : GovernanceService} {r : ChainParameterRegistry} {height : UInt64}
variable {p : Proposal} {id voter : String} {members : List String}

/-! ## Counting the votes of a proposal -/

/-- The voter gave a name. -/
def named (v : Vote) : Bool := decide (v.voterId ≠ "")

theorem card_signers (p : Proposal) :
    (signers (voters p)).card = p.votes.values.countP named := by
  have hids : (voters p).map normalizeId = p.votes.values.map Vote.voterId := by
    unfold voters
    rw [List.map_map]
    rfl
  unfold signers
  rw [hids, List.toFinset_card_of_nodup (p.votes.distinct.filter _), ← List.countP_eq_length_filter,
    List.countP_map]
  refine List.countP_congr ?_
  intro v _
  simp [named]

/-- One vote more, where it does not overflow a count of 32 bits, is no vote less. -/
theorem le_count_iff {least : UInt32} {a b : Nat} (hpos : least ≠ 0) (hle : least ≤ UInt32.ofNat a)
    (hab : b = a ∨ b = a + 1) : least ≤ UInt32.ofNat b ↔ b % u32Size ≠ 0 := by
  have hpos' : least.toNat ≠ 0 := fun h => hpos (UInt32.toNat.inj h)
  have hmod : ∀ n, (UInt32.ofNat n).toNat = n % 4294967296 := fun n => UInt32.toNat_ofNat'
  rw [UInt32.le_iff_toNat_le, hmod] at hle ⊢
  unfold u32Size
  omega

/-! ## A proposal with one more approval -/

theorem mem_voters_withVote {v : String} :
    v ∈ voters (withVote p voter true) ↔
      v = voter ∨ ∃ w ∈ p.votes.values, w.voter = v ∧ w.voterId ≠ normalizeId voter := by
  unfold voters withVote
  simp only [List.mem_map, KeyedMap.mem_values_insert]
  refine ⟨?_, ?_⟩
  · intro h
    obtain ⟨w, rfl | ⟨hw, hne⟩, rfl⟩ := h
    · exact Or.inl rfl
    · exact Or.inr ⟨w, hw, rfl, hne⟩
  · intro h
    rcases h with rfl | ⟨w, hw, rfl, hne⟩
    · exact ⟨_, Or.inl rfl, rfl⟩
    · exact ⟨w, Or.inr ⟨hw, hne⟩, rfl⟩

/-- What held of all voters holds of all with one more, if it holds of that one. -/
theorem forall_voters_withVote {P : String → Prop} (h : ∀ v ∈ voters p, P v) :
    (∀ v ∈ voters (withVote p voter true), P v) ↔ P voter := by
  refine ⟨fun hall => hall voter (mem_voters_withVote.mpr (Or.inl rfl)), ?_⟩
  intro hvoter v hv
  rcases mem_voters_withVote.mp hv with rfl | ⟨w, hw, rfl, -⟩
  · exact hvoter
  · exact h w.voter (List.mem_map_of_mem hw)

theorem endorsed_withVote (h : Endorsed members (voters p)) :
    Endorsed members (voters (withVote p voter true)) ↔
      normalizeId voter = "" ∨ normalizeId voter ∈ members.map normalizeId :=
  forall_voters_withVote h

/-- The approvals of members once this voter has approved. -/
def approvalsWith (members : List String) (p : Proposal) (voter : String) : Nat :=
  p.votes.countOthers (approves members) (normalizeId voter) +
    if normalizeId voter ∈ members.map normalizeId then 1 else 0

/-- The voters with a name once this voter has voted. -/
def votersWith (p : Proposal) (voter : String) : Nat :=
  p.votes.countOthers named (normalizeId voter) + if normalizeId voter = "" then 0 else 1

theorem countP_approves_withVote :
    (withVote p voter true).votes.values.countP (approves members) =
      approvalsWith members p voter := by
  show (p.votes.insert ⟨voter, true, 1⟩).values.countP (approves members) = _
  rw [KeyedMap.countP_insert]
  simp [approvalsWith, approves, Vote.voterId]

theorem countP_named_withVote :
    (withVote p voter true).votes.values.countP named = votersWith p voter := by
  show (p.votes.insert ⟨voter, true, 1⟩).values.countP named = _
  rw [KeyedMap.countP_insert]
  by_cases h : normalizeId voter = ""
  · simp [votersWith, named, Vote.voterId, h]
  · simp [votersWith, named, Vote.voterId, h]

theorem approvalsWith_eq_or (members : List String) (p : Proposal) (voter : String) :
    approvalsWith members p voter = p.votes.values.countP (approves members) ∨
      approvalsWith members p voter = p.votes.values.countP (approves members) + 1 := by
  rw [← countP_approves_withVote]
  refine KeyedMap.countP_insert_eq_or _ ?_
  intro w hw happroves
  have hid : normalizeId w.voter = normalizeId voter := (KeyedMap.get_eq_some_iff.mp hw).2
  simp only [approves, Bool.and_eq_true] at happroves ⊢
  exact ⟨trivial, by simpa [hid] using happroves.2⟩

theorem votersWith_eq_or (p : Proposal) (voter : String) :
    votersWith p voter = p.votes.values.countP named ∨
      votersWith p voter = p.votes.values.countP named + 1 := by
  rw [← countP_named_withVote]
  refine KeyedMap.countP_insert_eq_or _ ?_
  intro w hw hnamed
  have hid : w.voterId = normalizeId voter := (KeyedMap.get_eq_some_iff.mp hw).2
  unfold named at hnamed ⊢
  rw [hid] at hnamed
  exact hnamed

/-! ## Execution with one more approval -/

/-- An approval that does not stand in the way of the upgrade. -/
def Harmless (r : ChainParameterRegistry) (p : Proposal) (voter : String) : Prop :=
  match r.governance with
  | .adminKeys _ => voter = ""
  | .dao members _ =>
    (normalizeId voter = "" ∨ normalizeId voter ∈ members.map normalizeId) ∧
      approvalsWith members p voter % u32Size ≠ 0 ∧ votersWith p voter % u32Size ≠ 0

theorem harmless_adminKeys {keys : List String} (hg : r.governance = .adminKeys keys)
    (h : Ripe r height p) : Ripe r height (withVote p voter true) ↔ Harmless r p voter := by
  have hauth := (authorizeUpgrade_adminKeys hg).mp h.executable.authorized
  have hnew : r.authorizeUpgrade p.proposer (voters (withVote p voter true)) = .ok () ↔
      voter = "" := by
    rw [authorizeUpgrade_adminKeys hg, forall_voters_withVote hauth.1]
    exact and_iff_left hauth.2
  unfold Harmless
  rw [hg, ← hnew]
  refine ⟨fun hripe => hripe.executable.authorized, ?_⟩
  intro hvoters
  exact ⟨h.due, by rw [hg]; trivial,
    ⟨h.executable.changes, h.executable.permitted, hvoters, h.executable.announced⟩⟩

theorem harmless_dao {minApprovals : UInt32} (hg : r.governance = .dao members minApprovals)
    (h : Ripe r height p) : Ripe r height (withVote p voter true) ↔ Harmless r p voter := by
  obtain ⟨hpos, hend, hsigned⟩ := (authorizeUpgrade_dao hg).mp h.executable.authorized
  have hyes : minApprovals ≤ UInt32.ofNat (p.votes.values.countP (approves members)) := by
    have := h.mandated
    rwa [hg, mandated_dao] at this
  rw [card_signers] at hsigned
  have hmandated : Mandated r.governance (withVote p voter true) ↔
      approvalsWith members p voter % u32Size ≠ 0 := by
    rw [hg, mandated_dao, countP_approves_withVote,
      le_count_iff hpos hyes (approvalsWith_eq_or members p voter)]
  have hauth : r.authorizeUpgrade p.proposer (voters (withVote p voter true)) = .ok () ↔
      (normalizeId voter = "" ∨ normalizeId voter ∈ members.map normalizeId) ∧
        votersWith p voter % u32Size ≠ 0 := by
    rw [authorizeUpgrade_dao hg, endorsed_withVote hend, card_signers, countP_named_withVote,
      le_count_iff hpos hsigned (votersWith_eq_or p voter)]
    exact and_iff_right hpos
  have hripe : Ripe r height (withVote p voter true) ↔
      Mandated r.governance (withVote p voter true) ∧
        r.authorizeUpgrade p.proposer (voters (withVote p voter true)) = .ok () := by
    refine ⟨fun hr => ⟨hr.mandated, hr.executable.authorized⟩, ?_⟩
    intro hr
    exact ⟨h.due, hr.1,
      ⟨h.executable.changes, h.executable.permitted, hr.2, h.executable.announced⟩⟩
  unfold Harmless
  rw [hripe, hmandated, hauth, hg]
  exact and_left_comm

theorem harmless_iff (h : Ripe r height p) :
    Ripe r height (withVote p voter true) ↔ Harmless r p voter := by
  cases hg : r.governance with
  | adminKeys keys => exact harmless_adminKeys hg h
  | dao members minApprovals => exact harmless_dao hg h

theorem status_tick {order : List String} (horder : order.Perm g.proposals.keys)
    (uuid : String → Nat) (hp : g.proposals.get id = some p) (hstatus : p.status = .voting) :
    ((g.tick order uuid height r).1.proposals.get id).map Proposal.status = some .executed ↔
      Ripe r height p := by
  rw [tick_get horder, hp]
  show some (verdict r height p) = some .executed ↔ _
  rw [Option.some_inj, verdict_eq_executed hstatus]

/-- A proposal that a tick would execute is executed with one more approval on
record if and only if the approval is harmless. -/
theorem approval_keeps_execution_iff (g g' : GovernanceService) (r : ChainParameterRegistry)
    (height : UInt64) (p : Proposal) (id voter : String) (order order' : List String)
    (uuid uuid' : String → Nat) (hp : g.proposals.get id = some p)
    (hcast : g.castVote id voter true r = .ok g')
    (horder : order.Perm g.proposals.keys) (horder' : order'.Perm g'.proposals.keys)
    (hexec : ((g.tick order uuid height r).1.proposals.get id).map Proposal.status =
      some .executed) :
    ((g'.tick order' uuid' height r).1.proposals.get id).map Proposal.status = some .executed ↔
      Harmless r p voter := by
  obtain ⟨-, q, hq, hstatus, rfl⟩ := castVote_eq_ok.mp hcast
  obtain rfl : p = q := Option.some.inj (hp.symm.trans hq)
  have hripe := (status_tick horder uuid hp hstatus).mp hexec
  have hget : (g.store (withVote p voter true)).proposals.get id =
      some (withVote p voter true) := by
    rw [store_get]
    exact if_pos (id_of_get hp)
  rw [status_tick horder' uuid' hget hstatus]
  exact harmless_iff hripe

/-- A proposal of a member for block sizes, whose votes close at height 5. -/
def sizeMotion (proposer : String) : Proposal where
  id := "a"
  proposer := proposer
  patch := largerBlocks
  activationHeight := 200
  status := .voting
  votes := .empty
  endHeight := 5

/-- Two of the three members have approved. -/
def endorsedMotion : GovernanceService :=
  (new 5).store (withVote (withVote (sizeMotion "m1") "m1" true) "M2 " true)

def statusAfter (g : GovernanceService) (r : ChainParameterRegistry) : Option ProposalStatus :=
  ((g.tick ["a"] (fun _ => 0) 10 r).1.proposals.get "a").map Proposal.status

theorem approval_keeps_execution_iff_council :
    statusAfter (endorsedMotion.store (withVote (withVote (withVote (sizeMotion "m1") "m1" true)
      "M2 " true) "m3" true)) openCouncil = some .executed := by
  refine (approval_keeps_execution_iff endorsedMotion _ openCouncil 10
    (withVote (withVote (sizeMotion "m1") "m1" true) "M2 " true) "a" "m3" ["a"] ["a"] (fun _ => 0)
    (fun _ => 0) rfl rfl (by decide) (by decide) (by decide)).mpr ?_
  show (normalizeId "m3" = "" ∨ normalizeId "m3" ∈ ["m1", "m2", "m3"].map normalizeId) ∧
    approvalsWith ["m1", "m2", "m3"] _ "m3" % u32Size ≠ 0 ∧ votersWith _ "m3" % u32Size ≠ 0
  decide

/-- Under both kinds of governance an accepted approval stops an upgrade: of a
guest with a role among the members, and of the administrator who proposed it. -/
theorem approval_stops_execution :
    statusAfter endorsedMotion openCouncil = some .executed ∧
      (∃ g', endorsedMotion.castVote "a" "guest" true openCouncil = .ok g' ∧
        statusAfter g' openCouncil = some .passed) ∧
      statusAfter ((new 5).store (sizeMotion "admin_abc")) keyedAt100 = some .executed ∧
      ∃ g', ((new 5).store (sizeMotion "admin_abc")).castVote "a" "admin_abc" true keyedAt100 =
          .ok g' ∧ statusAfter g' keyedAt100 = some .passed :=
  ⟨by decide, ⟨_, rfl, by decide⟩, by decide, ⟨_, rfl, by decide⟩⟩

end Axionvera.Node.Approvals

import Axionvera.Node.Mandate
import Axionvera.Node.Schedule

/-! # Who sets the parameters

The governance service and the registry together: upgrades come from proposals
that a tick executes and from submissions that are made to the registry itself,
and the parameters at a height are read from what was accepted. Whatever value a
parameter has, it is the one of the genesis document, or somebody entitled to it
set it (`parameters_have_authority`). -/
namespace Axionvera.Node.ParameterAuthority
open Axionvera.Lib.OwnKey Axionvera.Lib.Transition
open Axionvera.Node.ChainParams ChainParameterRegistry
open Axionvera.Node.Governance Axionvera.Node.Registry Axionvera.Node.Service
open Axionvera.Node.Mandate Axionvera.Node.Schedule

variable {r : ChainParameterRegistry} {w w' : World} {c : Call} {calls : List Call}
variable {config : GovernanceConfig} {proposer : String}

/-! ## Entitlement -/

/-- What a configuration asks of the one who proposes. -/
def MayPropose : GovernanceConfig → String → Prop
  | .adminKeys keys, proposer => normalizeId proposer ∈ keys.map normalizeId
  | .dao _ minApprovals, _ => minApprovals ≠ 0

/-- What it asks of those who approve. -/
def Approved : GovernanceConfig → Finset String → Prop
  | .adminKeys _, _ => True
  | .dao members minApprovals, approvers =>
    minApprovals.toNat ≤ approvers.card ∧ ∀ n ∈ approvers, n ∈ members.map normalizeId

theorem mayPropose_of_authorizeUpgrade {voters : List String}
    (h : r.authorizeUpgrade proposer voters = .ok ()) : MayPropose r.governance proposer := by
  cases hg : r.governance with
  | adminKeys keys => exact ((authorizeUpgrade_adminKeys hg).mp h).2.2
  | dao members minApprovals => exact ((authorizeUpgrade_dao hg).mp h).1

/-- The voters that a submission lists are enough, each of them counted once. -/
theorem approved_of_authorizeUpgrade {voters : List String}
    (h : r.authorizeUpgrade proposer voters = .ok ()) : Approved r.governance (signers voters) := by
  cases hg : r.governance with
  | adminKeys keys => trivial
  | dao members minApprovals =>
    obtain ⟨_, hend, hcount⟩ := (authorizeUpgrade_dao hg).mp h
    refine ⟨?_, ?_⟩
    · have hle := UInt32.le_iff_toNat_le.mp hcount
      rw [UInt32.toNat_ofNat'] at hle
      exact Nat.le_trans hle (Nat.mod_le _ _)
    · intro n hn
      obtain ⟨hmem, hne⟩ := List.mem_filter.mp (List.mem_toFinset.mp hn)
      obtain ⟨v, hv, rfl⟩ := List.mem_map.mp hmem
      exact (hend v hv).resolve_left (of_decide_eq_true hne)

/-- The members whose last vote on an executed proposal is an approval. -/
theorem exists_approved (hsound : Sound w) {id : String} {p : Proposal}
    (hp : w.service.proposals.get id = some p) (hstatus : p.status = .executed) :
    ∃ approvers : Finset String, Approved w.registry.governance approvers ∧
      ∀ n ∈ approvers, latestVote w.ballots id n = some true := by
  have hmandated := hsound.mandated id p hp (Or.inr hstatus)
  have hsupported := supported_of_mandated _ (hsound.voted id p hp) hmandated
  cases hg : w.registry.governance with
  | adminKeys keys => exact ⟨∅, trivial, fun n hn => absurd hn (Finset.notMem_empty n)⟩
  | dao members minApprovals =>
    rw [hg] at hsupported
    obtain ⟨approvers, hcard, hall⟩ := hsupported
    exact ⟨approvers, ⟨hcard, fun n hn => (hall n hn).1⟩, fun n hn => (hall n hn).2⟩

/-! ## Where the records come from -/

/-- A record of the history comes from a proposal that was executed, or from a
submission to the registry. -/
inductive Origin (config : GovernanceConfig) (calls : List Call) (w : World)
    (record : ScheduledUpgradeRecord) : Prop
  | executed {e : Execution} {p : Proposal} (listed : e ∈ w.executions)
      (stored : w.service.proposals.get e.proposalId = some p) (status : p.status = .executed)
      (patch : p.patch = record.patch) (activation : p.activationHeight = record.activationEpochHeight)
      (may : MayPropose config p.proposer)
  | submitted {uuid : Nat} {proposer : String} {voters : List String}
      (made : .registry (.submitParameterUpgrade uuid record.patch record.activationEpochHeight
        proposer voters) ∈ calls)
      (may : MayPropose config proposer) (approved : Approved config (signers voters))

/-- Every record has an origin and keeps the delay. -/
structure Traced (config : GovernanceConfig) (delay : UInt64) (calls : List Call) (w : World) :
    Prop where
  origin : ∀ record ∈ w.registry.upgradeHistory, Origin config calls w record
  delayed : ∀ record ∈ w.registry.upgradeHistory,
    saturatingAdd record.announcedAtHeight delay ≤ record.activationEpochHeight

/-- A later state still knows the origin of a record. -/
theorem Origin.step {record : ScheduledUpgradeRecord} (h : Origin config calls w record)
    (hs : Mandate.Step w c w') : Origin config (c :: calls) w' record := by
  cases h with
  | submitted made may approved => exact .submitted (List.mem_cons_of_mem c made) may approved
  | executed listed stored status patch activation may =>
    have hstored := get_step stored (Or.inr status) hs
    have hlisted : ∀ e ∈ w.executions, e ∈ w'.executions := by
      intro e he
      cases hs.move with
      | ticked => exact List.mem_append_left _ he
      | _ => exact he
    exact .executed (hlisted _ listed) hstored status patch activation may

/-- The records that a tick adds. -/
theorem origin_of_tick {order : List String} {uuid : String → Nat} {height : UInt64}
    (horder : order.Perm w.service.proposals.keys) {p : Proposal}
    (hp : p ∈ ripe w.service w.registry height order) (calls : List Call) :
    Origin w.registry.governance calls (w.after (.tick order uuid height))
      (recordOf uuid w.registry p) := by
  obtain ⟨hvalue, hripe⟩ := (mem_ripe horder).mp hp
  have hget : w.service.proposals.get p.id = some p := KeyedMap.get_eq_some_iff.mpr ⟨hvalue, rfl⟩
  have hlisted : (⟨p.id, height⟩ : Execution) ∈ (w.after (.tick order uuid height)).executions := by
    refine List.mem_append_right _ (List.mem_map.mpr ⟨p.id, ?_, rfl⟩)
    exact (mem_executedBy horder).mpr ⟨p, hget, hripe⟩
  have hstored : (w.after (.tick order uuid height)).service.proposals.get p.id =
      some (settled w.registry height p) := by
    show (w.service.tick order uuid height w.registry).1.proposals.get p.id = _
    rw [tick_get horder, hget, Option.map_some]
  exact .executed hlisted hstored ((verdict_eq_executed hripe.due.1).mpr hripe) rfl rfl
    (mayPropose_of_authorizeUpgrade hripe.executable.authorized)

theorem Traced.step {delay : UInt64} (h : Traced config delay calls w)
    (hgovernance : w.registry.governance = config)
    (hdelay : w.registry.minActivationDelayBlocks = delay)
    (hs : Mandate.Step w c w') : Traced config delay (c :: calls) w' := by
  have hold : ∀ record ∈ w.registry.upgradeHistory, Origin config (c :: calls) w' record :=
    fun record hrecord => (h.origin record hrecord).step hs
  cases hs.move with
  | refused => exact ⟨hold, h.delayed⟩
  | proposed => exact ⟨hold, h.delayed⟩
  | voted => exact ⟨hold, h.delayed⟩
  | @ticked order uuid height horder =>
    have hhistory : (w.after (.tick order uuid height)).registry.upgradeHistory =
        w.registry.upgradeHistory ++
          (ripe w.service w.registry height order).map (recordOf uuid w.registry) := by
      show (w.service.tick order uuid height w.registry).2.upgradeHistory = _
      rw [tick_registry horder, upgradeHistory_foldl]
    refine ⟨?_, ?_⟩
    · intro record hrecord
      rw [hhistory] at hrecord
      rcases List.mem_append.mp hrecord with hrecord | hrecord
      · exact hold record hrecord
      · obtain ⟨p, hp, rfl⟩ := List.mem_map.mp hrecord
        rw [← hgovernance]
        exact origin_of_tick horder hp _
    · intro record hrecord
      rw [hhistory] at hrecord
      rcases List.mem_append.mp hrecord with hrecord | hrecord
      · exact h.delayed record hrecord
      · obtain ⟨p, hp, rfl⟩ := List.mem_map.mp hrecord
        have hannounced := ((mem_ripe horder).mp hp).2.executable.announced
        rw [hdelay] at hannounced
        exact hannounced
  | changed hc =>
    cases hc with
    | refused | tip | roles => exact ⟨hold, h.delayed⟩
    | scheduled hacc =>
      refine ⟨?_, ?_⟩
      · intro record hrecord
        rcases List.mem_append.mp hrecord with hrecord | hrecord
        · exact hold record hrecord
        · obtain rfl := List.mem_singleton.mp hrecord
          rw [← hgovernance]
          exact .submitted List.mem_cons_self (mayPropose_of_authorizeUpgrade hacc.authorized)
            (approved_of_authorizeUpgrade hacc.authorized)
      · intro record hrecord
        rcases List.mem_append.mp hrecord with hrecord | hrecord
        · exact h.delayed record hrecord
        · obtain rfl := List.mem_singleton.mp hrecord
          have hannounced := hacc.announced
          rw [hdelay] at hannounced
          exact hannounced

/-! ## What stays over a run -/

theorem logged_foldl {uuid : String → Nat} {ps : List Proposal} (h : Logged r)
    (hps : ∀ p ∈ ps, Executable r p) : Logged (ps.foldl (scheduled uuid) r) := by
  induction ps generalizing r with
  | nil => exact h
  | cons p ps ih =>
    obtain ⟨hp, hps⟩ := List.forall_mem_cons.mp hps
    refine ih ?_ fun q hq => executable_scheduled.mpr (hps q hq)
    exact h.change (c := .submitParameterUpgrade (uuid p.id) p.patch p.activationHeight p.proposer
      (voters p)) (.scheduled hp)

theorem logged_step (h : Logged w.registry) (hs : Mandate.Step w c w') : Logged w'.registry := by
  cases hs.move with
  | refused | proposed | voted => exact h
  | ticked horder =>
    show Logged (w.service.tick _ _ _ w.registry).2
    rw [tick_registry horder]
    exact logged_foldl h fun p hp => ((mem_ripe horder).mp hp).2.executable
  | changed hc => exact h.change hc

theorem fixed_step (hs : Mandate.Step w c w') :
    w'.registry.genesisParameters = w.registry.genesisParameters ∧
      w'.registry.minActivationDelayBlocks = w.registry.minActivationDelayBlocks := by
  cases hs.move with
  | refused | proposed | voted => exact ⟨rfl, rfl⟩
  | ticked horder =>
    show (w.service.tick _ _ _ w.registry).2.genesisParameters = _ ∧ _
    rw [World.after, tick_registry horder]
    obtain ⟨_, _, hfold⟩ := foldl_scheduled_eq _ _ w.registry
    rw [hfold]
    exact ⟨rfl, rfl⟩
  | changed hc => exact hc.fixed.2

/-- What a run keeps of the genesis document, with the records it has made. -/
structure Ruled (doc : GenesisDocument) (calls : List Call) (w : World) : Prop where
  logged : Logged w.registry
  genesis : w.registry.genesisParameters = doc.networkParameters
  delay : w.registry.minActivationDelayBlocks = doc.minActivationDelayBlocks
  governance : w.registry.governance = doc.parameterUpgradeGovernance
  traced : Traced doc.parameterUpgradeGovernance doc.minActivationDelayBlocks calls w

/-- The registry of a genesis document, with any roles given out. -/
def seeded (doc : GenesisDocument) (roles : AList fun _ : String => Role) :
    ChainParameterRegistry :=
  { fromGenesisDocument doc with roles := roles }

variable {doc : GenesisDocument} {roles : AList fun _ : String => Role} {votingDuration : UInt64}

theorem ruled_of_run (hr : Run Mandate.Step (.start votingDuration (seeded doc roles)) calls w) :
    Ruled doc calls w := by
  induction hr with
  | nil =>
    have hnone : ∀ record ∈ (World.start votingDuration (seeded doc roles)).registry.upgradeHistory,
        False := List.forall_mem_nil _
    exact ⟨logged_genesis doc, rfl, rfl, rfl, fun record h => (hnone record h).elim,
      fun record h => (hnone record h).elim⟩
  | @snoc calls w w' c hr hs ih =>
    obtain ⟨hgenesis, hdelay⟩ := fixed_step hs
    exact ⟨logged_step ih.logged hs, hgenesis.trans ih.genesis, hdelay.trans ih.delay,
      governance_of_run (hr.snoc hs), ih.traced.step ih.governance ih.delay hs⟩

/-! ## Authority -/

/-- What stands behind a record of the history. A proposal that was executed was
made by somebody who may propose, and enough members approved of it with their
last votes; a submission came from somebody who may propose, and lists enough
members. -/
inductive Authority (config : GovernanceConfig) (calls : List Call) (w : World)
    (record : ScheduledUpgradeRecord) : Prop
  | voted {e : Execution} {p : Proposal} {approvers : Finset String} (listed : e ∈ w.executions)
      (stored : w.service.proposals.get e.proposalId = some p) (status : p.status = .executed)
      (patch : p.patch = record.patch) (activation : p.activationHeight = record.activationEpochHeight)
      (may : MayPropose config p.proposer) (approved : Approved config approvers)
      (votes : ∀ n ∈ approvers, latestVote w.ballots e.proposalId n = some true)
  | submitted {uuid : Nat} {proposer : String} {voters : List String}
      (made : .registry (.submitParameterUpgrade uuid record.patch record.activationEpochHeight
        proposer voters) ∈ calls)
      (may : MayPropose config proposer) (approved : Approved config (signers voters))

theorem Origin.authority {record : ScheduledUpgradeRecord} (hsound : Sound w)
    (hgovernance : w.registry.governance = config) (h : Origin config calls w record) :
    Authority config calls w record := by
  cases h with
  | submitted made may approved => exact .submitted made may approved
  | executed listed stored status patch activation may =>
    obtain ⟨approvers, happroved, hvotes⟩ := exists_approved hsound stored status
    rw [hgovernance] at happroved
    exact .voted listed stored status patch activation may happroved hvotes

/-- Two of three members vote for larger blocks from height 200 on. -/
def votedWorld : World :=
  ((((World.start 5 (seeded council openCouncil.roles)).after Mandate.propose).after
    (.castVote "a" "m1" true 3)).after (.castVote "a" "M2 " true 4)).after (decideAt 9)

theorem voted_run :
    Run Mandate.Step (.start 5 (seeded council openCouncil.roles)) councilCalls votedWorld :=
  .snoc (.snoc (.snoc (.snoc .nil ⟨by decide, rfl⟩) ⟨trivial, rfl⟩) ⟨trivial, rfl⟩)
    ⟨by decide, rfl⟩

/-- Nobody may give or take roles. -/
def NoAdmin (r : ChainParameterRegistry) : Prop := ∀ n, r.roles.lookup n ≠ some .admin

theorem lookup_of_checkRole {address : String} (h : r.checkRole address .admin = .ok ()) :
    r.roles.lookup (normalizeId address) = some .admin := by
  unfold checkRole at h
  cases hrole : r.roles.lookup (normalizeId address) with
  | none => simp [hrole] at h
  | some role =>
    cases role with
    | admin => rfl
    | operator => simp [hrole] at h

theorem roles_step (hno : NoAdmin w.registry) (hs : Mandate.Step w c w') :
    w'.registry.roles = w.registry.roles := by
  cases hs.move with
  | refused | proposed | voted => rfl
  | ticked horder =>
    show (w.service.tick _ _ _ w.registry).2.roles = _
    rw [tick_registry horder]
    obtain ⟨_, _, hfold⟩ := foldl_scheduled_eq _ _ w.registry
    rw [hfold]
  | changed hc =>
    cases hc with
    | refused | scheduled | tip => rfl
    | roles _ hrole => exact absurd (lookup_of_checkRole hrole) (hno _)

theorem not_accepts (hempty : r.roles = ∅) {patch : NetworkParametersPatch} {activation : UInt64}
    {voters : List String} : ¬ Accepts r patch activation proposer voters := by
  intro h
  have hrole := (checkRole_operator r proposer).mp h.permitted
  rw [hempty] at hrole
  cases hrole

/-- While nobody has a role, only the height of the tip changes. -/
theorem registry_step (hempty : w.registry.roles = ∅) (hs : Mandate.Step w c w') :
    ∃ tip, w'.registry = w.registry.setChainTipHeight tip := by
  have hsame : ∃ tip, w.registry = w.registry.setChainTipHeight tip := ⟨_, rfl⟩
  cases hs.move with
  | refused | proposed | voted => exact hsame
  | @ticked order uuid height horder =>
    have hnone : ripe w.service w.registry height order = [] := by
      refine List.eq_nil_iff_forall_not_mem.mpr fun p hp => ?_
      exact not_accepts hempty ((mem_ripe horder).mp hp).2.executable
    show ∃ tip, (w.service.tick _ _ _ w.registry).2 = _
    rw [tick_registry horder, hnone]
    exact hsame
  | changed hc =>
    cases hc with
    | refused => exact hsame
    | scheduled hacc => exact absurd hacc (not_accepts hempty)
    | tip height => exact ⟨height, rfl⟩
    | roles _ hrole =>
      have hlookup := lookup_of_checkRole hrole
      rw [hempty] at hlookup
      cases hlookup

/-- **A lock-out is final.** Once nobody is an administrator, no call of the
governance service or the registry changes a role again; once nobody has a role
either, the parameters of every height stay as they are. -/
theorem lockout_is_final (hno : NoAdmin w.registry) (hr : Run Mandate.Step w calls w') :
    w'.registry.roles = w.registry.roles ∧
    (w.registry.roles = ∅ → ∀ height,
      w'.registry.effectiveParametersAt height = w.registry.effectiveParametersAt height) := by
  have hroles : ∀ {w' : World}, Run Mandate.Step w calls w' →
      w'.registry.roles = w.registry.roles := by
    intro w' hr
    refine hr.invariant (I := fun w' => w'.registry.roles = w.registry.roles) rfl ?_
    intro w₁ c w₂ hkept hs
    have hstill : NoAdmin w₁.registry := fun n => hkept ▸ hno n
    exact (roles_step hstill hs).trans hkept
  refine ⟨hroles hr, ?_⟩
  intro hempty height
  refine (hr.invariant (I := fun w' => w'.registry.roles = ∅ ∧
    w'.registry.effectiveParametersAt height = w.registry.effectiveParametersAt height)
    ⟨hempty, rfl⟩ ?_).2
  intro w₁ c w₂ hkept hs
  obtain ⟨tip, htip⟩ := registry_step hkept.1 hs
  rw [htip]
  exact hkept

/-- The only administrator takes their own role away. -/
def resigned : World :=
  (World.start 5 (fromGenesisDocument keyed)).after (.registry (.revokeRole "admin_abc" "Admin_ABC"))

theorem lockout_is_final_resigned :
    NoAdmin resigned.registry ∧ resigned.registry.roles = ∅ ∧
      ∀ calls w, Run Mandate.Step resigned calls w →
        w.registry.effectiveParametersAt 106 = keyed.networkParameters := by
  have hempty : resigned.registry.roles = ∅ := AList.ext (by decide)
  have hno : NoAdmin resigned.registry := by
    intro n
    rw [hempty]
    simp
  refine ⟨hno, hempty, ?_⟩
  intro calls w hr
  exact ((lockout_is_final hno hr).2 hempty 106).trans (by decide)

end Axionvera.Node.ParameterAuthority

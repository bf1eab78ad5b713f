import Axionvera.Lib.Override
import Axionvera.Node.Registry

/-! # The activation schedule

The registry keeps its accepted upgrades twice: merged by activation height, which
is what parameters are read from, and as a log. Both say the same
(`parameters_replay_history`), and what they say of the heights below the
announcement delay is settled (`announced_parameters_final`). -/
namespace Axionvera.Node.Schedule
open Axionvera.Lib.Override Axionvera.Lib.Transition
open Axionvera.Node.ChainParams ChainParameterRegistry
open Axionvera.Node.Registry

variable {r r' : ChainParameterRegistry}

/-! ## Fields -/

/-- The parameters, each of which a patch sets by itself. -/
inductive Tunable where
  | maxBlockBodyBytes
  | minBaseFee
  | maxTransactionsPerBlock

namespace Tunable

abbrev Value : Tunable → Type
  | .maxBlockBodyBytes => UInt64
  | .minBaseFee => UInt64
  | .maxTransactionsPerBlock => UInt32

def param : (f : Tunable) → NetworkParameters → f.Value
  | .maxBlockBodyBytes, p => p.maxBlockBodyBytes
  | .minBaseFee, p => p.minBaseFee
  | .maxTransactionsPerBlock, p => p.maxTransactionsPerBlock

/-- What a patch sets the field to. -/
def change : (f : Tunable) → NetworkParametersPatch → Option f.Value
  | .maxBlockBodyBytes, patch => patch.maxBlockBodyBytes
  | .minBaseFee, patch => patch.minBaseFee
  | .maxTransactionsPerBlock, patch => patch.maxTransactionsPerBlock

theorem param_applyPatch (f : Tunable) (p : NetworkParameters) (patch : NetworkParametersPatch) :
    f.param (p.applyPatch patch) = (f.change patch).getD (f.param p) := by
  cases f <;> rfl

theorem change_mergePatches (f : Tunable) (into add : NetworkParametersPatch) :
    f.change (mergePatches into add) = (f.change add).or (f.change into) := by
  have hor : ∀ {α : Type} (a b : Option α), (if a.isSome then a else b) = a.or b := by
    intro α a b
    cases a <;> rfl
  cases f <;> exact hor _ _

theorem param_ext {p q : NetworkParameters} (h : ∀ f : Tunable, f.param p = f.param q) : p = q := by
  have hbytes := h .maxBlockBodyBytes
  have hfee := h .minBaseFee
  have hcount := h .maxTransactionsPerBlock
  cases p
  cases q
  simp only [param] at hbytes hfee hcount
  simp only [hbytes, hfee, hcount]

end Tunable

/-! ## The map of activations -/

/-- What the registry sets a field to at a height. -/
def settingAt (r : ChainParameterRegistry) (f : Tunable) (height : UInt64) : Option f.Value :=
  setting r.activations f.change height

theorem param_effectiveParametersAt (r : ChainParameterRegistry) (f : Tunable) (height : UInt64) :
    f.param (r.effectiveParametersAt height) =
      (inOrder r.activations f.change (· ≤ height)).getD (f.param r.genesisParameters) := by
  unfold effectiveParametersAt
  rw [Std.ExtTreeMap.foldl_eq_foldl_toList]
  refine read_foldl ?_ _ _
  intro p e
  split
  · exact f.param_applyPatch p e.2
  · rfl

/-- The parameters up to a height are read from the settings up to it. -/
theorem effectiveParametersAt_congr {height : UInt64}
    (hgenesis : r.genesisParameters = r'.genesisParameters)
    (h : ∀ (f : Tunable) (k : UInt64), k ≤ height → settingAt r f k = settingAt r' f k) :
    r.effectiveParametersAt height = r'.effectiveParametersAt height := by
  refine Tunable.param_ext fun f => ?_
  rw [param_effectiveParametersAt, param_effectiveParametersAt, hgenesis,
    inOrder_congr fun k hk => h f k hk]

theorem settingAt_schedule (r : ChainParameterRegistry) (uuid : Nat)
    (patch : NetworkParametersPatch) (activation : UInt64) (f : Tunable) (k : UInt64) :
    settingAt (r.schedule uuid patch activation) f k =
      (if activation = k then f.change patch else none).or (settingAt r f k) := by
  refine setting_alter r.activations f.change activation ?_ k
  unfold setting
  cases r.activations[activation]? with
  | none => simp
  | some into => simp [f.change_mergePatches]

/-! ## The log -/

/-- What a record of the history sets. -/
def recordChange (f : Tunable) (record : ScheduledUpgradeRecord) : Option f.Value :=
  f.change record.patch

/-- What the history sets a field to at a height. -/
def loggedAt (r : ChainParameterRegistry) (f : Tunable) (height : UInt64) : Option f.Value :=
  atRank ScheduledUpgradeRecord.activationEpochHeight (recordChange f) r.upgradeHistory height

/-- The map and the history set the same. -/
def Logged (r : ChainParameterRegistry) : Prop :=
  ∀ (f : Tunable) (height : UInt64),
    settingAt r f height = loggedAt r f height

theorem logged_genesis (doc : GenesisDocument) : Logged (fromGenesisDocument doc) := by
  intro f height
  have hempty : (∅ : Std.ExtTreeMap UInt64 NetworkParametersPatch)[height]? = none :=
    Std.ExtTreeMap.getElem?_empty
  show (∅ : Std.ExtTreeMap UInt64 NetworkParametersPatch)[height]?.bind f.change = none
  rw [hempty]
  rfl

theorem Logged.change {c : RegistryCall} (h : Logged r) (hc : Change r c r') : Logged r' := by
  intro f height
  cases hc with
  | refused => exact h f height
  | scheduled hacc =>
    rw [settingAt_schedule, h f height]
    unfold loggedAt schedule
    rw [atRank_concat]
    rfl
  | tip => exact h f height
  | roles => exact h f height

theorem logged_of_run {doc : GenesisDocument} {calls : List RegistryCall}
    (hr : Run Step (fromGenesisDocument doc) calls r) : Logged r :=
  hr.invariant (logged_genesis doc) fun _ _ _ h hs => h.change hs.change

theorem genesisParameters_of_run {doc : GenesisDocument} {calls : List RegistryCall}
    (hr : Run Step (fromGenesisDocument doc) calls r) :
    r.genesisParameters = doc.networkParameters :=
  hr.invariant (I := fun r => r.genesisParameters = doc.networkParameters) rfl
    fun _ _ _ h hs => hs.change.fixed.2.1.trans h

/-- The parameters that the chosen records of a history give, field by field. -/
def ReplaysHistory (genesis : NetworkParameters) (history : List ScheduledUpgradeRecord)
    (among : ScheduledUpgradeRecord → Prop) (x : NetworkParameters) : Prop :=
  ∀ f : Tunable, Replays (·.activationEpochHeight) among (recordChange f) (f.param genesis) history
    (f.param x)

theorem ReplaysHistory.congr {genesis x : NetworkParameters}
    {history : List ScheduledUpgradeRecord} {among among' : ScheduledUpgradeRecord → Prop}
    (h : ∀ record ∈ history, among record ↔ among' record)
    (hr : ReplaysHistory genesis history among x) : ReplaysHistory genesis history among' x :=
  fun f => (hr f).congr h

theorem Logged.replaysHistory (h : Logged r) (height : UInt64) :
    ReplaysHistory r.genesisParameters r.upgradeHistory
      (fun record => record.activationEpochHeight ≤ height) (r.effectiveParametersAt height) := by
  intro f
  rw [param_effectiveParametersAt]
  exact replays_inOrder (h f) (· ≤ height) _

theorem notMem_pendingUpgrades {record : ScheduledUpgradeRecord}
    (h : record ∈ r.upgradeHistory) :
    record.activationEpochHeight ≤ r.currentHeight ↔ record ∉ r.pendingUpgrades := by
  simp [pendingUpgrades, h]

/-- The effective parameters at each height are the replay of the records up to
it, and the active ones that of the records which are not pending. -/
theorem parameters_replay_history (doc : GenesisDocument) (calls : List RegistryCall)
    (r : ChainParameterRegistry) (hr : Run Step (fromGenesisDocument doc) calls r) :
    (∀ height, ReplaysHistory doc.networkParameters r.upgradeHistory
      (fun record => record.activationEpochHeight ≤ height) (r.effectiveParametersAt height)) ∧
    ReplaysHistory doc.networkParameters r.upgradeHistory
      (fun record => record ∉ r.pendingUpgrades) r.activeParameters := by
  have hlogged := logged_of_run hr
  rw [← genesisParameters_of_run hr]
  exact ⟨hlogged.replaysHistory,
    (hlogged.replaysHistory r.currentHeight).congr fun _ => notMem_pendingUpgrades⟩

/-- One administrator, and five blocks between an announcement and its effect. -/
def keyed : GenesisDocument where
  chainId := "test"
  networkParameters := ⟨1000000, 50, 500⟩
  parameterUpgradeGovernance := .adminKeys ["Admin_ABC"]
  minActivationDelayBlocks := 5

def keyedAt100 : ChainParameterRegistry := (fromGenesisDocument keyed).setChainTipHeight 100

def announceFee : RegistryCall :=
  .submitParameterUpgrade 1 { minBaseFee := some 99 } 106 "admin_abc" []

/-- A later announcement for the same height. -/
def announceFeeAndSize : RegistryCall :=
  .submitParameterUpgrade 2 { minBaseFee := some 70, maxBlockBodyBytes := some 2000000 } 106
    "admin_abc" []

def keyedUpgraded : ChainParameterRegistry := announceFeeAndSize.after (announceFee.after keyedAt100)

theorem keyed_run :
    Run Step (fromGenesisDocument keyed)
      [announceFeeAndSize, announceFee, .setChainTipHeight 100] keyedUpgraded :=
  .snoc (.snoc (.snoc .nil rfl) rfl) rfl

theorem parameters_replay_history_keyed :
    keyedUpgraded.effectiveParametersAt 106 = ⟨2000000, 70, 500⟩ ∧
      ReplaysHistory keyed.networkParameters keyedUpgraded.upgradeHistory
        (fun record => record.activationEpochHeight ≤ 106)
        (keyedUpgraded.effectiveParametersAt 106) :=
  ⟨by decide, (parameters_replay_history keyed _ keyedUpgraded keyed_run).1 106⟩

/-! ## The announcement delay -/

theorem toNat_saturatingAdd (a b : UInt64) :
    (saturatingAdd a b).toNat = min (a.toNat + b.toNat) 18446744073709551615 := by
  unfold saturatingAdd
  exact UInt64.toNat_ofNat_of_lt' (by simp only [UInt64.size]; omega)

theorem saturatingAdd_le {a a' : UInt64} (b : UInt64) (h : a ≤ a') :
    saturatingAdd a b ≤ saturatingAdd a' b := by
  rw [UInt64.le_iff_toNat_le] at h ⊢
  rw [toNat_saturatingAdd, toNat_saturatingAdd]
  omega

/-- A call that lowers the tip is not made. -/
def Raising (r : ChainParameterRegistry) (c : RegistryCall) (r' : ChainParameterRegistry) : Prop :=
  Step r c r' ∧ ∀ height, c = .setChainTipHeight height → r.currentHeight ≤ height

/-- What is announced once the tip has reached a height, and stays so. -/
structure Settled (s : ChainParameterRegistry) (r : ChainParameterRegistry) : Prop where
  tip : s.currentHeight ≤ r.currentHeight
  delay : r.minActivationDelayBlocks = s.minActivationDelayBlocks
  genesis : r.genesisParameters = s.genesisParameters
  settings : ∀ (f : Tunable) (k : UInt64),
    k < saturatingAdd s.currentHeight s.minActivationDelayBlocks → settingAt r f k = settingAt s f k

theorem Settled.step {s : ChainParameterRegistry} {c : RegistryCall} (h : Settled s r)
    (hs : Raising r c r') : Settled s r' := by
  obtain ⟨hstep, hraise⟩ := hs
  cases hstep.change with
  | refused => exact h
  | @scheduled uuid patch activation _ _ hacc =>
    refine ⟨h.tip, h.delay, h.genesis, ?_⟩
    intro f k hk
    -- an accepted upgrade lies behind the delay of the tip it is accepted at
    have hlate : saturatingAdd s.currentHeight s.minActivationDelayBlocks ≤ activation := by
      have hle := saturatingAdd_le s.minActivationDelayBlocks h.tip
      have hann := hacc.announced
      rw [h.delay] at hann
      exact UInt64.le_trans hle hann
    have hne : activation ≠ k := by grind
    rw [settingAt_schedule, if_neg hne, Option.none_or, h.settings f k hk]
  | tip height =>
    exact ⟨UInt64.le_trans h.tip (hraise height rfl), h.delay, h.genesis, h.settings⟩
  | roles => exact ⟨h.tip, h.delay, h.genesis, h.settings⟩

theorem settled_of_run {s : ChainParameterRegistry} {calls : List RegistryCall}
    (hr : Run Raising s calls r) : Settled s r :=
  hr.invariant (I := Settled s) ⟨UInt64.le_refl _, rfl, rfl, fun _ _ _ => rfl⟩
    fun _ _ _ h hs => h.step hs

theorem Settled.effectiveParametersAt {s : ChainParameterRegistry} {t height : UInt64}
    (h : Settled s r) (ht : t ≤ s.currentHeight)
    (hheight : height < saturatingAdd t s.minActivationDelayBlocks) :
    r.effectiveParametersAt height = s.effectiveParametersAt height := by
  refine effectiveParametersAt_congr h.genesis ?_
  intro f k hk
  have hle := saturatingAdd_le s.minActivationDelayBlocks ht
  exact h.settings f k (by grind)

/-- The accepted upgrades in their order. -/
def upgrades (r : ChainParameterRegistry) : List (UInt64 × NetworkParametersPatch) :=
  r.upgradeHistory.map fun record => (record.activationEpochHeight, record.patch)

theorem loggedAt_eq_upgrades (r : ChainParameterRegistry) (f : Tunable) (height : UInt64) :
    loggedAt r f height = atRank Prod.fst (fun u => f.change u.2) (upgrades r) height := by
  unfold upgrades atRank
  rw [latest_map]
  rfl

theorem effectiveParametersAt_of_upgrades (hlogged : Logged r) (hlogged' : Logged r')
    (hgenesis : r.genesisParameters = r'.genesisParameters) (h : upgrades r = upgrades r')
    (height : UInt64) : r.effectiveParametersAt height = r'.effectiveParametersAt height := by
  refine effectiveParametersAt_congr hgenesis ?_
  intro f k _
  rw [hlogged f k, hlogged' f k, loggedAt_eq_upgrades, loggedAt_eq_upgrades, h]

theorem minActivationDelayBlocks_of_run {doc : GenesisDocument} {calls : List RegistryCall}
    (hr : Run Step (fromGenesisDocument doc) calls r) :
    r.minActivationDelayBlocks = doc.minActivationDelayBlocks :=
  hr.invariant (I := fun r => r.minActivationDelayBlocks = doc.minActivationDelayBlocks) rfl
    fun _ _ _ h hs => hs.change.fixed.2.2.trans h

/-- Once the tip has reached `t`, the parameters of every height below `t` plus the
delay stay; so two registries with the same upgrades at that time agree on them
from then on. -/
theorem announced_parameters_final (doc : GenesisDocument) (t : UInt64) :
    (∀ (calls later : List RegistryCall) (r r' : ChainParameterRegistry),
      Run Raising (fromGenesisDocument doc) calls r → Run Raising r later r' →
      t ≤ r.currentHeight →
      ∀ height < saturatingAdd t doc.minActivationDelayBlocks,
        r'.effectiveParametersAt height = r.effectiveParametersAt height) ∧
    ∀ (calls later calls₂ later₂ : List RegistryCall) (r r' r₂ r₂' : ChainParameterRegistry),
      Run Raising (fromGenesisDocument doc) calls r → Run Raising r later r' →
      Run Raising (fromGenesisDocument doc) calls₂ r₂ → Run Raising r₂ later₂ r₂' →
      t ≤ r.currentHeight → t ≤ r₂.currentHeight → upgrades r = upgrades r₂ →
      ∀ height < saturatingAdd t doc.minActivationDelayBlocks,
        r'.effectiveParametersAt height = r₂'.effectiveParametersAt height := by
  have hstays : ∀ (calls later : List RegistryCall) (r r' : ChainParameterRegistry),
      Run Raising (fromGenesisDocument doc) calls r → Run Raising r later r' →
      t ≤ r.currentHeight →
      ∀ height < saturatingAdd t doc.minActivationDelayBlocks,
        r'.effectiveParametersAt height = r.effectiveParametersAt height := by
    intro calls later r r' hr hr' ht height hheight
    rw [← minActivationDelayBlocks_of_run (hr.mono fun _ _ _ h => h.1)] at hheight
    exact (settled_of_run hr').effectiveParametersAt ht hheight
  refine ⟨hstays, ?_⟩
  intro calls later calls₂ later₂ r r' r₂ r₂' hr hr' hr₂ hr₂' ht ht₂ hsame height hheight
  have hrun : Run Step _ calls r := hr.mono fun _ _ _ h => h.1
  have hrun₂ : Run Step _ calls₂ r₂ := hr₂.mono fun _ _ _ h => h.1
  rw [hstays calls later r r' hr hr' ht height hheight,
    hstays calls₂ later₂ r₂ r₂' hr₂ hr₂' ht₂ height hheight]
  exact effectiveParametersAt_of_upgrades (logged_of_run hrun) (logged_of_run hrun₂)
    ((genesisParameters_of_run hrun).trans (genesisParameters_of_run hrun₂).symm) hsame height

theorem keyedAt100_raising :
    Run Raising (fromGenesisDocument keyed) [.setChainTipHeight 100] keyedAt100 := by
  refine .snoc .nil ⟨rfl, ?_⟩
  intro height h
  cases h
  decide

theorem keyedUpgraded_raising :
    Run Raising keyedAt100 [announceFeeAndSize, announceFee] keyedUpgraded := by
  refine .snoc (.snoc .nil ⟨rfl, ?_⟩) ⟨rfl, ?_⟩ <;> intro height h <;> cases h

/-- Two upgrades accepted at tip 100 leave height 104 to the registry that
accepted none. -/
theorem announced_parameters_final_keyed :
    104 < saturatingAdd 100 keyed.minActivationDelayBlocks ∧
      keyedUpgraded.effectiveParametersAt 104 = keyedAt100.effectiveParametersAt 104 :=
  ⟨by decide, (announced_parameters_final keyed 100).2 _ _ _ _ keyedAt100 keyedUpgraded keyedAt100
    keyedAt100 keyedAt100_raising keyedUpgraded_raising keyedAt100_raising .nil (by decide)
    (by decide) rfl 104 (by decide)⟩

end Axionvera.Node.Schedule

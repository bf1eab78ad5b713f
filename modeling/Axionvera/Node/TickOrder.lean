import Axionvera.Node.Schedule
import Axionvera.Node.Service

/-! # The order of a tick

A tick schedules the upgrades of the proposals it executes in the order in which
the hash map yields them. That order is seen in the parameters exactly where two
of these proposals disagree on a field at one activation height. -/
namespace Axionvera.Node.TickOrder
open Axionvera.Lib.OwnKey Axionvera.Lib.Override Axionvera.Lib.Transition
open Axionvera.Node.ChainParams Axionvera.Node.Governance Axionvera.Node.Registry
open Axionvera.Node.Schedule Axionvera.Node.Service
open ChainParameterRegistry GovernanceService

variable {g : GovernanceService} {r : ChainParameterRegistry} {height : UInt64}
variable {order order' : List String} {p q : Proposal}

/-! ## What a sequence of submissions sets -/

/-- What a proposal sets a field to. -/
def proposalChange (f : Tunable) (p : Proposal) : Option f.Value := f.change p.patch

theorem settingAt_foldl (uuid : String → Nat) (r : ChainParameterRegistry) (ps : List Proposal)
    (f : Tunable) (k : UInt64) :
    settingAt (ps.foldl (scheduled uuid) r) f k =
      (atRank Proposal.activationHeight (proposalChange f) ps k).or (settingAt r f k) := by
  induction ps using List.reverseRecOn with
  | nil => rfl
  | append_singleton ps p ih =>
    rw [List.foldl_concat, atRank_concat, Option.or_assoc, ← ih]
    exact settingAt_schedule _ _ _ _ f k

theorem genesisParameters_foldl (uuid : String → Nat) (r : ChainParameterRegistry)
    (ps : List Proposal) :
    (ps.foldl (scheduled uuid) r).genesisParameters = r.genesisParameters := by
  obtain ⟨_, _, hfold⟩ := foldl_scheduled_eq uuid ps r
  rw [hfold]

/-- What is set at a height holds there. -/
theorem param_of_settingAt {f : Tunable} {k : UInt64} {v : f.Value}
    (h : settingAt r f k = some v) : f.param (r.effectiveParametersAt k) = v := by
  have hread : inOrder r.activations f.change (· ≤ k) = some v := by
    refine inOrder_eq_some_iff.mpr ⟨k, UInt64.le_refl k, h, ?_⟩
    intro i hi hlt
    grind
  rw [param_effectiveParametersAt, hread, Option.getD_some]

/-! ## The executed proposals -/

theorem ripe_perm (g : GovernanceService) (r : ChainParameterRegistry) (height : UInt64)
    (h : order.Perm order') : (ripe g r height order).Perm (ripe g r height order') :=
  (h.filterMap _).filter _

/-- Any proposal may come last. -/
theorem exists_order_last (hp : p ∈ g.proposals.values) :
    ∃ before, (before ++ [p.id]).Perm g.proposals.keys := by
  have hmem : p.id ∈ g.proposals.keys := List.mem_map_of_mem hp
  exact ⟨g.proposals.keys.erase p.id,
    (List.perm_append_singleton _ _).trans (List.perm_cons_erase hmem).symm⟩

theorem ripe_concat (hp : p ∈ g.proposals.values) (hripe : Ripe r height p) (before : List String) :
    ripe g r height (before ++ [p.id]) = ripe g r height before ++ [p] := by
  have hget : g.proposals.get p.id = some p := KeyedMap.get_eq_some_iff.mpr ⟨hp, rfl⟩
  simp [ripe, hget, hripe]

/-- The last proposal's value holds at its activation height. -/
theorem param_of_last (uuid : String → Nat) {before : List String}
    (horder : (before ++ [p.id]).Perm g.proposals.keys) (hp : p ∈ g.proposals.values)
    (hripe : Ripe r height p) {f : Tunable} {v : f.Value} (hv : f.change p.patch = some v) :
    f.param ((g.tick (before ++ [p.id]) uuid height r).2.effectiveParametersAt
      p.activationHeight) = v := by
  refine param_of_settingAt ?_
  rw [tick_registry horder, ripe_concat hp hripe, settingAt_foldl, atRank_concat, if_pos rfl]
  simp [proposalChange, hv]

/-! ## Agreement -/

/-- No field is set to two values. -/
def Compatible (a b : NetworkParametersPatch) : Prop :=
  ∀ (f : Tunable) (v w : f.Value), f.change a = some v → f.change b = some w → v = w

/-- Every order of a tick leads to the same parameters if and only if no two of
the proposals that it executes set one field to different values at one height. -/
theorem tick_order_agreement (g : GovernanceService) (r : ChainParameterRegistry)
    (height : UInt64) :
    (∀ (order order' : List String) (uuid uuid' : String → Nat),
      order.Perm g.proposals.keys → order'.Perm g.proposals.keys →
      ∀ h, (g.tick order uuid height r).2.effectiveParametersAt h =
        (g.tick order' uuid' height r).2.effectiveParametersAt h) ↔
    ∀ p ∈ g.proposals.values, ∀ q ∈ g.proposals.values,
      Ripe r height p → Ripe r height q → p.activationHeight = q.activationHeight →
      Compatible p.patch q.patch := by
  refine ⟨?_, ?_⟩
  · intro hagree p hp q hq hripe hripe' hheight f v w hv hw
    obtain ⟨before, horder⟩ := exists_order_last hp
    obtain ⟨before', horder'⟩ := exists_order_last hq
    have hlast := param_of_last (fun _ => 0) horder hp hripe hv
    have hlast' := param_of_last (fun _ => 0) horder' hq hripe' hw
    rw [hheight, hagree _ _ _ (fun _ => 0) horder horder'] at hlast
    exact hlast.symm.trans hlast'
  · intro hcompat order order' uuid uuid' horder horder' h
    rw [tick_registry horder, tick_registry horder']
    refine effectiveParametersAt_congr ?_ ?_
    · rw [genesisParameters_foldl, genesisParameters_foldl]
    · intro f k _
      have hperm := ripe_perm g r height (horder.trans horder'.symm)
      have hsame : atRank Proposal.activationHeight (proposalChange f) (ripe g r height order) k =
          atRank Proposal.activationHeight (proposalChange f) (ripe g r height order') k := by
        refine latest_perm hperm ?_
        intro p hp q hq v w hv hw
        obtain ⟨hp, hripe⟩ := (mem_ripe horder).mp hp
        obtain ⟨hq, hripe'⟩ := (mem_ripe horder).mp hq
        split at hv
        · split at hw
          · rename_i hk hk'
            exact hcompat p hp q hq hripe hripe' (hk.trans hk'.symm) f v w hv hw
          · cases hw
        · cases hv
      rw [settingAt_foldl, settingAt_foldl, hsame]

/-- A proposal of the administrator of `keyed` for the fee from height 106 on. -/
def feeMotion (id : String) (fee : UInt64) : Proposal where
  id := id
  proposer := "admin_abc"
  patch := { minBaseFee := some fee }
  activationHeight := 106
  status := .voting
  votes := .empty
  endHeight := 10

def motions (fee fee' : UInt64) : GovernanceService :=
  ((new 10).store (feeMotion "a" fee)).store (feeMotion "b" fee')

theorem tick_order_agreement_motions :
    ((motions 70 70).tick ["a", "b"] (fun _ => 0) 10 keyedAt100).2.effectiveParametersAt 106 =
      ((motions 70 70).tick ["b", "a"] (fun _ => 0) 10 keyedAt100).2.effectiveParametersAt 106 := by
  refine (tick_order_agreement (motions 70 70) keyedAt100 10).mpr ?_ ["a", "b"] ["b", "a"] _ _
    (by decide) (by decide) 106
  intro p hp q hq _ _ _
  have hpatch : ∀ p ∈ (motions 70 70).proposals.values, p.patch = { minBaseFee := some 70 } := by
    simp [motions, feeMotion, new, store, KeyedMap.insert, KeyedMap.empty]
  rw [hpatch p hp, hpatch q hq]
  intro f v w hv hw
  exact Option.some.inj (hv.symm.trans hw)

/-- Two proposals of one administrator mature together, and the fee depends on
the order in which the hash map yields them. -/
theorem motions_order_shows :
    (∃ out, (new 10).propose "a" "admin_abc" { minBaseFee := some 70 } 106 0 keyedAt100 =
        .ok out ∧ ∃ out', out.2.propose "b" "admin_abc" { minBaseFee := some 90 } 106 0 keyedAt100 =
        .ok out' ∧ out'.2 = motions 70 90) ∧
      ["a", "b"].Perm (motions 70 90).proposals.keys ∧
      ["b", "a"].Perm (motions 70 90).proposals.keys ∧
      (((motions 70 90).tick ["a", "b"] (fun _ => 0) 10 keyedAt100).2.effectiveParametersAt
        106).minBaseFee = 90 ∧
      (((motions 70 90).tick ["b", "a"] (fun _ => 0) 10 keyedAt100).2.effectiveParametersAt
        106).minBaseFee = 70 :=
  ⟨⟨_, rfl, _, rfl, rfl⟩, by decide, by decide, by decide, by decide⟩

end Axionvera.Node.TickOrder

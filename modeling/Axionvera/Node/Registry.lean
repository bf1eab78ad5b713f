import Axionvera.Lib.Transition
import Axionvera.Node.ChainParams
import Mathlib.Data.Finset.Card
import Mathlib.Data.Finset.Dedup

/-! # What the registry accepts

When each check of `submit_parameter_upgrade` passes, what a call of the registry
can change, and which submissions DAO governance lets through. -/
namespace Axionvera.Node.Registry
open Axionvera.Lib.Fallible Axionvera.Lib.Transition
open Axionvera.Node.ChainParams ChainParameterRegistry

variable {r : ChainParameterRegistry} {uuid : Nat} {patch : NetworkParametersPatch}
variable {activation : UInt64} {proposer : String} {voters : List String}

/-! ## Checks -/

theorem checkRole_operator (r : ChainParameterRegistry) (address : String) :
    r.checkRole address .operator = .ok () ↔
      (r.roles.lookup (normalizeId address)).isSome = true := by
  unfold checkRole
  cases r.roles.lookup (normalizeId address) with
  | none => simp
  | some role => cases role <;> simp

/-- The distinct ids of the voters who gave one. -/
def signers (voters : List String) : Finset String :=
  ((voters.map normalizeId).filter fun n => n ≠ "").toFinset

/-- Every voter who gave an id is a member. -/
def Endorsed (members voters : List String) : Prop :=
  ∀ v ∈ voters, normalizeId v = "" ∨ normalizeId v ∈ members.map normalizeId

instance (members voters : List String) : Decidable (Endorsed members voters) :=
  inferInstanceAs (Decidable (∀ v ∈ voters, _))

theorem signers_cons (v : String) (voters : List String) :
    signers (v :: voters) =
      if normalizeId v = "" then signers voters else insert (normalizeId v) (signers voters) := by
  unfold signers
  split <;> rename_i h <;> simp [h]

/-- One new id makes one more. -/
theorem card_insert_sdiff {n : String} {S : Finset String} {seen : List String} (h : n ∉ seen) :
    (insert n S \ seen.toFinset).card = 1 + (S \ (n :: seen).toFinset).card := by
  have hsplit : insert n S \ seen.toFinset = insert n (S \ (n :: seen).toFinset) := by
    ext x
    by_cases hx : x = n <;> simp [hx, h]
  rw [hsplit, Finset.card_insert_of_notMem (by simp), Nat.add_comm]

/-- The loop counts the ids that it has not seen before. -/
theorem countApprovals_of_endorsed {members : List String} (h : Endorsed members voters)
    (seen : List String) (valid : UInt32) :
    countApprovals (members.map normalizeId) seen valid voters =
      .ok (valid + UInt32.ofNat (signers voters \ seen.toFinset).card) := by
  induction voters generalizing seen valid with
  | nil => simp [countApprovals, signers]
  | cons v voters ih =>
    have ih := ih fun u hu => h u (List.mem_cons_of_mem v hu)
    rw [countApprovals, signers_cons]
    by_cases hblank : normalizeId v = ""
    · simp only [hblank, if_true, ih]
    · have hmem : normalizeId v ∈ members.map normalizeId :=
        (h v List.mem_cons_self).resolve_left hblank
      simp only [hblank, if_false, hmem, not_true]
      by_cases hseen : normalizeId v ∈ seen
      · rw [if_pos hseen, ih, Finset.insert_sdiff_of_mem _ (by simpa using hseen)]
      · rw [if_neg hseen, ih, card_insert_sdiff hseen, UInt32.ofNat_add, UInt32.add_assoc]
        rfl

/-- A voter who is not a member stops the loop. -/
theorem endorsed_of_countApprovals {members seen : List String} {valid out : UInt32}
    (h : countApprovals (members.map normalizeId) seen valid voters = .ok out) :
    Endorsed members voters := by
  induction voters generalizing seen valid with
  | nil => simp [Endorsed]
  | cons v voters ih =>
    rw [countApprovals] at h
    refine List.forall_mem_cons.mpr ?_
    split at h
    · exact ⟨Or.inl ‹_›, ih h⟩
    · split at h
      · cases h
      · rename_i hmem
        refine ⟨Or.inr (not_not.mp hmem), ?_⟩
        split at h <;> exact ih h

theorem authorizeUpgrade_dao {members : List String} {minApprovals : UInt32}
    (hg : r.governance = .dao members minApprovals) :
    r.authorizeUpgrade proposer voters = .ok () ↔
      minApprovals ≠ 0 ∧ Endorsed members voters ∧
        minApprovals ≤ UInt32.ofNat (signers voters).card := by
  simp only [authorizeUpgrade, hg, bind_eq_ok, failIf_eq_ok]
  refine ⟨?_, ?_⟩
  · intro h
    obtain ⟨-, hmin, valid, hcount, hvalid⟩ := h
    have hend := endorsed_of_countApprovals hcount
    rw [countApprovals_of_endorsed hend] at hcount
    cases hcount
    exact ⟨hmin, hend, by simpa using hvalid⟩
  · intro h
    obtain ⟨hmin, hend, hvalid⟩ := h
    exact ⟨(), hmin, _, countApprovals_of_endorsed hend [] 0, by simpa using hvalid⟩

theorem authorizeUpgrade_adminKeys {keys : List String} (hg : r.governance = .adminKeys keys) :
    r.authorizeUpgrade proposer voters = .ok () ↔
      (∀ v ∈ voters, v = "") ∧ normalizeId proposer ≠ "" ∧
        normalizeId proposer ∈ keys.map normalizeId := by
  simp [authorizeUpgrade, hg]

/-! ## Submissions -/

/-- What a submission needs to be accepted. -/
structure Accepts (r : ChainParameterRegistry) (patch : NetworkParametersPatch)
    (activation : UInt64) (proposer : String) (voters : List String) : Prop where
  changes : patchHasChanges patch = true
  permitted : r.checkRole proposer .operator = .ok ()
  authorized : r.authorizeUpgrade proposer voters = .ok ()
  announced : saturatingAdd r.currentHeight r.minActivationDelayBlocks ≤ activation

instance : Decidable (Accepts r patch activation proposer voters) :=
  decidable_of_iff
    (patchHasChanges patch = true ∧ r.checkRole proposer .operator = .ok () ∧
      r.authorizeUpgrade proposer voters = .ok () ∧
      saturatingAdd r.currentHeight r.minActivationDelayBlocks ≤ activation)
    ⟨fun h => ⟨h.1, h.2.1, h.2.2.1, h.2.2.2⟩,
      fun h => ⟨h.changes, h.permitted, h.authorized, h.announced⟩⟩

theorem submitParameterUpgrade_eq_ok {out : String × ChainParameterRegistry} :
    r.submitParameterUpgrade uuid patch activation proposer voters = .ok out ↔
      Accepts r patch activation proposer voters ∧
        out = (transactionId uuid, r.schedule uuid patch activation) := by
  simp only [submitParameterUpgrade, bind_eq_ok, failIf_eq_ok, mapError_eq_ok, pure_eq_ok,
    not_not, UInt64.not_lt]
  refine ⟨?_, ?_⟩
  · intro h
    obtain ⟨_, hchanges, _, hrole, _, hauth, _, hdelay, hout⟩ := h
    exact ⟨⟨hchanges, hrole, hauth, hdelay⟩, hout⟩
  · intro h
    obtain ⟨h, hout⟩ := h
    exact ⟨(), h.changes, (), h.permitted, (), h.authorized, (), h.announced, hout⟩

theorem submitParameterUpgrade_of_accepts (uuid : Nat)
    (h : Accepts r patch activation proposer voters) :
    r.submitParameterUpgrade uuid patch activation proposer voters =
      .ok (transactionId uuid, r.schedule uuid patch activation) :=
  submitParameterUpgrade_eq_ok.mpr ⟨h, rfl⟩

theorem submitParameterUpgrade_cases (r : ChainParameterRegistry) (uuid : Nat)
    (patch : NetworkParametersPatch) (activation : UInt64) (proposer : String)
    (voters : List String) :
    (Accepts r patch activation proposer voters ∧
      r.submitParameterUpgrade uuid patch activation proposer voters =
        .ok (transactionId uuid, r.schedule uuid patch activation)) ∨
    ¬ Accepts r patch activation proposer voters ∧
      ∃ e, r.submitParameterUpgrade uuid patch activation proposer voters = .error e := by
  cases h : r.submitParameterUpgrade uuid patch activation proposer voters with
  | ok out =>
    obtain ⟨hacc, rfl⟩ := submitParameterUpgrade_eq_ok.mp h
    exact Or.inl ⟨hacc, rfl⟩
  | error e =>
    refine Or.inr ⟨?_, e, rfl⟩
    intro hacc
    rw [submitParameterUpgrade_of_accepts uuid hacc] at h
    cases h

/-- Scheduling an upgrade changes nothing that decides on the next one. -/
theorem accepts_schedule {uuid' : Nat} {patch' : NetworkParametersPatch} {activation' : UInt64} :
    Accepts (r.schedule uuid' patch' activation') patch activation proposer voters ↔
      Accepts r patch activation proposer voters :=
  ⟨fun h => ⟨h.changes, h.permitted, h.authorized, h.announced⟩,
    fun h => ⟨h.changes, h.permitted, h.authorized, h.announced⟩⟩

/-! ## Calls -/

/-- The calls that change a registry. -/
inductive RegistryCall where
  | submitParameterUpgrade (uuid : Nat) (patch : NetworkParametersPatch) (activation : UInt64)
      (proposer : String) (voters : List String)
  | setChainTipHeight (height : UInt64)
  | grantRole (caller target : String) (role : Role)
  | revokeRole (caller target : String)

/-- The registry after a call, which a refused one leaves as it was. -/
def RegistryCall.after (r : ChainParameterRegistry) : RegistryCall → ChainParameterRegistry
  | .submitParameterUpgrade uuid patch activation proposer voters =>
    match r.submitParameterUpgrade uuid patch activation proposer voters with
    | .ok (_, r') => r'
    | .error _ => r
  | .setChainTipHeight height => r.setChainTipHeight height
  | .grantRole caller target role =>
    match r.grantRole caller target role with
    | .ok r' => r'
    | .error _ => r
  | .revokeRole caller target =>
    match r.revokeRole caller target with
    | .ok r' => r'
    | .error _ => r

def Step (r : ChainParameterRegistry) (c : RegistryCall) (r' : ChainParameterRegistry) : Prop :=
  r' = c.after r

/-- What a call of the registry can do. -/
inductive Change (r : ChainParameterRegistry) : RegistryCall → ChainParameterRegistry → Prop
  | refused (c : RegistryCall) : Change r c r
  | scheduled {uuid : Nat} {patch : NetworkParametersPatch} {activation : UInt64}
      {proposer : String} {voters : List String}
      (h : Accepts r patch activation proposer voters) :
      Change r (.submitParameterUpgrade uuid patch activation proposer voters)
        (r.schedule uuid patch activation)
  | tip (height : UInt64) : Change r (.setChainTipHeight height) (r.setChainTipHeight height)
  | roles {c : RegistryCall} {caller : String} (roles : AList fun _ : String => Role)
      (h : r.checkRole caller .admin = .ok ()) : Change r c { r with roles := roles }

theorem Step.change {c : RegistryCall} {r' : ChainParameterRegistry} (h : Step r c r') :
    Change r c r' := by
  subst h
  cases c with
  | submitParameterUpgrade uuid patch activation proposer voters =>
    simp only [RegistryCall.after]
    split
    · rename_i heq
      obtain ⟨hacc, hout⟩ := submitParameterUpgrade_eq_ok.mp heq
      cases hout
      exact .scheduled hacc
    · exact .refused _
  | setChainTipHeight height => exact .tip height
  | grantRole caller target role =>
    simp only [RegistryCall.after]
    split
    · rename_i heq
      simp only [grantRole, bind_eq_ok, pure_eq_ok] at heq
      obtain ⟨_, hrole, rfl⟩ := heq
      exact .roles _ hrole
    · exact .refused _
  | revokeRole caller target =>
    simp only [RegistryCall.after]
    split
    · rename_i heq
      simp only [revokeRole, bind_eq_ok] at heq
      obtain ⟨_, hrole, heq⟩ := heq
      split at heq
      · cases pure_eq_ok.mp heq
        exact .roles _ hrole
      · exact absurd heq throw_ne_ok
    · exact .refused _

/-- What no call changes. -/
theorem Change.fixed {c : RegistryCall} {r' : ChainParameterRegistry} (h : Change r c r') :
    r'.governance = r.governance ∧ r'.genesisParameters = r.genesisParameters ∧
      r'.minActivationDelayBlocks = r.minActivationDelayBlocks := by
  cases h <;> exact ⟨rfl, rfl, rfl⟩

/-! ## DAO governance -/

section Dao
variable {members : List String} {minApprovals : UInt32} {doc : GenesisDocument}
variable {calls : List RegistryCall}

/-- A genesis document with DAO governance seeds no role, and only an
administrator grants one. -/
theorem roles_empty (hg : doc.parameterUpgradeGovernance = .dao members minApprovals)
    (hr : Run Step (fromGenesisDocument doc) calls r) : r.roles = ∅ := by
  refine hr.invariant (I := fun r => r.roles = ∅) ?_ ?_
  · simp only [fromGenesisDocument, hg]
  · intro r c r' hroles hstep
    cases hstep.change with
    | refused => exact hroles
    | scheduled h => exact hroles
    | tip height => exact hroles
    | roles roles h => simp [checkRole, hroles] at h

theorem submitParameterUpgrade_of_roles_empty (hroles : r.roles = ∅)
    (hpatch : patchHasChanges patch = true) :
    r.submitParameterUpgrade uuid patch activation proposer voters =
      .error s!"Permission denied: Address {proposer} has no permissioned roles" := by
  have hcheck : r.checkRole proposer .operator =
      .error s!"Address {proposer} has no permissioned roles" := by
    simp [checkRole, hroles]
  have htext : "Permission denied: Address " = "Permission denied: " ++ "Address " := by decide
  simp only [submitParameterUpgrade, hcheck, hpatch, failIf, mapError_error, bind, Except.bind,
    not_true, if_false, toString, htext, String.append_assoc]

theorem accepts_dao (hg : r.governance = .dao members minApprovals) (hmin : 0 < minApprovals)
    (hpatch : patchHasChanges patch = true)
    (hdelay : saturatingAdd r.currentHeight r.minActivationDelayBlocks ≤ activation)
    (hend : Endorsed members voters) :
    Accepts r patch activation proposer voters ↔
      (r.roles.lookup (normalizeId proposer)).isSome = true ∧
        minApprovals ≤ UInt32.ofNat (signers voters).card := by
  refine ⟨?_, ?_⟩
  · intro h
    exact ⟨(checkRole_operator r proposer).mp h.permitted,
      ((authorizeUpgrade_dao hg).mp h.authorized).2.2⟩
  · intro h
    obtain ⟨hrole, hcount⟩ := h
    have hne : minApprovals ≠ 0 := by grind
    exact ⟨hpatch, (checkRole_operator r proposer).mpr hrole,
      (authorizeUpgrade_dao hg).mpr ⟨hne, hend, hcount⟩, hdelay⟩

/-- Under DAO governance an endorsed upgrade is accepted if and only if its
proposer holds a role and the number of its endorsers, kept in 32 bits, reaches
the minimum. No registry that the calls reach has given anyone a role. -/
theorem dao_submission_iff_role (r : ChainParameterRegistry) (members : List String)
    (minApprovals : UInt32) (uuid : Nat) (patch : NetworkParametersPatch) (activation : UInt64)
    (proposer : String) (voters : List String) (hg : r.governance = .dao members minApprovals)
    (hmin : 0 < minApprovals) (hpatch : patchHasChanges patch = true)
    (hdelay : saturatingAdd r.currentHeight r.minActivationDelayBlocks ≤ activation)
    (hend : Endorsed members voters) :
    ((∃ out, r.submitParameterUpgrade uuid patch activation proposer voters = .ok out) ↔
      (r.roles.lookup (normalizeId proposer)).isSome = true ∧
        minApprovals ≤ UInt32.ofNat (signers voters).card) ∧
    ∀ doc calls, doc.parameterUpgradeGovernance = .dao members minApprovals →
      Run Step (fromGenesisDocument doc) calls r →
      r.submitParameterUpgrade uuid patch activation proposer voters =
        .error s!"Permission denied: Address {proposer} has no permissioned roles" := by
  refine ⟨?_, ?_⟩
  · rw [← accepts_dao hg hmin hpatch hdelay hend]
    refine ⟨?_, ?_⟩
    · intro h
      obtain ⟨out, hout⟩ := h
      exact (submitParameterUpgrade_eq_ok.mp hout).1
    · intro h
      exact ⟨_, submitParameterUpgrade_of_accepts uuid h⟩
  · intro doc calls hdoc hr
    exact submitParameterUpgrade_of_roles_empty (roles_empty hdoc hr) hpatch

/-- Three members, any two of whom decide. -/
def council : GenesisDocument where
  chainId := "test-dao"
  networkParameters := ⟨1, 1, 1⟩
  parameterUpgradeGovernance := .dao ["m1", "m2", "m3"] 2
  minActivationDelayBlocks := 1

def councilRegistry : ChainParameterRegistry :=
  (fromGenesisDocument council).setChainTipHeight 10

def largerBlocks : NetworkParametersPatch := { maxBlockBodyBytes := some 999 }

/-- The same with roles for the members and for a guest. -/
def openCouncil : ChainParameterRegistry :=
  { councilRegistry with
    roles := (((AList.singleton "m1" Role.operator).insert "m2" .operator).insert "m3"
      .operator).insert "guest" .operator }

theorem council_run :
    Run Step (fromGenesisDocument council) [.setChainTipHeight 10] councilRegistry :=
  .snoc .nil rfl

theorem dao_submission_iff_role_council :
    (∃ out, openCouncil.submitParameterUpgrade 7 largerBlocks 12 "M3 " ["m1", "m2"] =
        .ok out) ∧
      councilRegistry.submitParameterUpgrade 7 largerBlocks 12 "" ["m1", "m2"] =
        .error "Permission denied: Address  has no permissioned roles" := by
  refine ⟨?_, ?_⟩
  · exact (dao_submission_iff_role openCouncil ["m1", "m2", "m3"] 2 7 largerBlocks 12 "M3 "
      ["m1", "m2"] rfl (by decide) (by decide) (by decide) (by decide)).1.mpr (by decide)
  · exact (dao_submission_iff_role councilRegistry ["m1", "m2", "m3"] 2 7 largerBlocks 12 ""
      ["m1", "m2"] rfl (by decide) (by decide) (by decide) (by decide)).2 council _ rfl council_run

/-- Two of three members endorse a well-formed upgrade in time, and the registry
refuses it. -/
theorem council_upgrade_refused :
    ∃ (calls : List RegistryCall) (r : ChainParameterRegistry),
      Run Step (fromGenesisDocument council) calls r ∧
      r.governance = .dao ["m1", "m2", "m3"] 2 ∧ (0 : UInt32) < 2 ∧
      patchHasChanges largerBlocks = true ∧
      saturatingAdd r.currentHeight r.minActivationDelayBlocks ≤ 12 ∧
      Endorsed ["m1", "m2", "m3"] ["m1", "m2"] ∧ 2 ≤ (signers ["m1", "m2"]).card ∧
      ∀ uuid, r.submitParameterUpgrade uuid largerBlocks 12 "" ["m1", "m2"] =
        .error "Permission denied: Address  has no permissioned roles" := by
  refine ⟨_, _, council_run, rfl, by decide, by decide, by decide, by decide, by decide, ?_⟩
  intro uuid
  exact submitParameterUpgrade_of_roles_empty (roles_empty rfl council_run) (by decide)

end Dao
end Axionvera.Node.Registry

import Axionvera.Vault.Authority
import Axionvera.Vault.Views

/-! # The second version of the contract

`vault-contract-v2/src/lib.rs` runs on the storage the first version leaves: a
key is the same key in both when its name and arguments are. What the second
version reads of a vault is compared with what the first one reads, and the
installed code is followed along runs in which either version may be installed. -/
namespace Axionvera.Vault.Upgrade
open Axionvera.Lib.Host Axionvera.Lib.KeyValue Axionvera.Lib.Transition
open Axionvera.Vault.Types Axionvera.Vault.Storage Axionvera.Vault.Contract Axionvera.Vault.Chain
open Axionvera.Vault.Accounts Axionvera.Vault.StorageSpec Axionvera.Vault.Effects
open Axionvera.Vault.Refinement Axionvera.Vault.Principal Axionvera.Vault.Authority
open Axionvera.Vault.Views

variable {τ : Type}

/-! ## The code -/

namespace V2

def version : VaultM τ Nat := return 2

def admin : VaultM τ Address := do
  let stored ← HostM.gets fun w => w.storage.admin
  match stored with
  | some address => return address
  | none => HostM.halt

def balance (user : Address) : VaultM τ Int :=
  HostM.gets fun w => w.storage.userBalance.getD user 0

def totalDeposits : VaultM τ Int := HostM.gets fun w => w.storage.totalDeposits.getD 0

def v2Greeting : VaultM τ String := return "hello"

/-- The address that has to sign is an argument. -/
def upgrade (admin : Address) (newWasmHash : WasmHash) : VaultM τ Unit := do
  requireAuth admin
  updateCurrentContractWasm newWasmHash

inductive Call where
  | version
  | admin
  | balance (user : Address)
  | totalDeposits
  | v2Greeting
  | upgrade (admin : Address) (newWasmHash : WasmHash)

inductive Value where
  | unit
  | nat (n : Nat)
  | int (x : Int)
  | address (a : Address)
  | symbol (text : String)
  deriving DecidableEq

def exec : Call → VaultM τ Value
  | .version => return .nat (← version)
  | .admin => return .address (← admin)
  | .balance user => return .int (← balance user)
  | .totalDeposits => return .int (← totalDeposits)
  | .v2Greeting => return .symbol (← v2Greeting)
  | .upgrade admin newWasmHash => do upgrade admin newWasmHash; return .unit

section Calls
variable {env : Env} {w w' : World τ} {value : Value} {user address : Address} {hash : WasmHash}

theorem admin_returns : Returns (exec .admin) env w value w' ↔
    ∃ a, w.storage.admin = some a ∧ value = .address a ∧ w' = w := by
  cases h : w.storage.admin with
  | none => simp [exec, admin, h]
  | some a => simp [exec, admin, h, and_comm]

theorem balance_returns : Returns (exec (.balance user)) env w value w' ↔
    value = .int (w.storage.userBalance.getD user 0) ∧ w' = w := by
  simp [exec, balance, and_comm]

theorem totalDeposits_returns : Returns (exec .totalDeposits) env w value w' ↔
    value = .int (w.storage.totalDeposits.getD 0) ∧ w' = w := by
  simp [exec, totalDeposits, and_comm]

theorem upgrade_returns : Returns (exec (.upgrade address hash)) env w value w' ↔
    value = .unit ∧ env.auths address = true ∧ env.uploaded hash = true ∧
      w' = { w with code := hash } := by
  simp only [exec, upgrade, updateCurrentContractWasm, returns_bind, requireAuth_returns,
    returns_ask, returns_ite, returns_modify, returns_halt, and_false, or_false, returns_pure,
    and_assoc, exists_and_left, ↓existsAndEq, exists_const, true_and]
  tauto

/-- Only an upgrade writes anything, and that is the code. -/
theorem eq_or_upgrade {call : Call} (h : Returns (exec call) env w value w') :
    w' = w ∨ ∃ address hash, call = .upgrade address hash ∧ env.auths address = true ∧
      w' = { w with code := hash } := by
  cases call with
  | admin =>
    obtain ⟨_, _, _, rfl⟩ := admin_returns.mp h
    exact Or.inl rfl
  | upgrade address hash =>
    obtain ⟨_, hauth, _, rfl⟩ := upgrade_returns.mp h
    exact Or.inr ⟨address, hash, rfl, hauth, rfl⟩
  | version => exact Or.inl (by simp [exec, version] at h; exact h.1)
  | balance => exact Or.inl (balance_returns.mp h).2
  | totalDeposits => exact Or.inl (totalDeposits_returns.mp h).2
  | v2Greeting => exact Or.inl (by simp [exec, v2Greeting] at h; exact h.1)

end Calls
end V2

/-! ## What the second version reads of the first one's storage -/

section Reading
variable {D : Deployment τ} {env : Env} {w w' : World τ} {e : Entry τ} {u : Address}

/-- The first version never writes the key that the second one reads balances
from. -/
theorem userBalance_of_effect {call : Call} {value : Value} (h : Effect D env w call value w') :
    w'.storage.userBalance = w.storage.userBalance := by
  cases h <;> rfl

theorem userBalance_of_reachable (hr : Reachable D w) : w.storage.userBalance = .empty := by
  obtain ⟨w₀, h, h0, hrun⟩ := hr
  refine hrun.induct (I := fun _ w => w.storage.userBalance = .empty) ?_ ?_
  · obtain ⟨_, _, _, _, _, _, _, hw⟩ := started_storage h0
    rw [hw]
    rfl
  · intro h w e w' hr ih hs
    cases stepEffect_of_step (ready_of_run h0 hr) hs with
    | call _ heff => rw [userBalance_of_effect heff, ih]
    | failed => exact ih
    | outside => exact ih

/-- The two versions answer a call each with one and the same number. -/
def SameInt (D : Deployment τ) (env : Env) (w : World τ) (v : View) (call : V2.Call) : Prop :=
  ∃ x, Returns (exec D.client (.view v)) env w (.int x) w ∧ Returns (V2.exec call) env w (.int x) w

/-- What an upgrade is to preserve: both versions give every balance, the total
and the administrator alike. -/
structure Preserved (D : Deployment τ) (env : Env) (w : World τ) : Prop where
  balance : ∀ u, SameInt D env w (.balance u) (.balance u)
  totalDeposits : SameInt D env w .totalDeposits .totalDeposits
  admin : ∃ a, Returns (exec D.client (.view .admin)) env w (.address a) w ∧
    Returns (V2.exec .admin) env w (.address a) w

theorem sameInt_balance_iff (hr : Reachable D w) : SameInt D env w (.balance u) (.balance u) ↔
    (position w.storage .legacy u).balance = 0 := by
  have hready := ready_of_reachable hr
  simp only [SameInt, view_returns, balance_answer hready, V2.balance_returns,
    userBalance_of_reachable hr, FinMap.getD_empty, Value.int.injEq, V2.Value.int.injEq, and_true,
    exists_eq_right]
  exact eq_comm

theorem sameInt_totalDeposits (hr : Reachable D w) :
    SameInt D env w .totalDeposits .totalDeposits :=
  ⟨_, view_returns.mpr ⟨(totalDeposits_answer (ready_of_reachable hr)).mpr ⟨rfl, rfl⟩, rfl⟩,
    V2.totalDeposits_returns.mpr ⟨rfl, rfl⟩⟩

/-- **What survives an upgrade.** The second version reads every balance as the
first one did exactly when nobody has deposited anything; the total and the
administrator it always reads alike. -/
theorem preserved_iff_no_deposits (hr : Reachable D w) :
    Preserved D env w ↔ w.storage.totalDeposits.getD 0 = 0 := by
  have hready := ready_of_reachable hr
  have hgood := hready.sound.good .legacy
  refine ⟨?_, ?_⟩
  · intro h
    have hzero : ∀ u, ((pool w.storage .legacy).account u).balance = 0 :=
      fun u => (sameInt_balance_iff hr).mp (h.balance u)
    have htotal := hgood.total_eq
    simp only [hzero, finsum_zero] at htotal
    exact htotal
  · intro h
    refine ⟨?_, sameInt_totalDeposits hr, ?_⟩
    · intro u
      have hle : (position w.storage .legacy u).balance ≤ w.storage.totalDeposits.getD 0 :=
        hready.sound.balance_le_total
      have hnn := hready.sound.balance_nonneg (p := .legacy) (u := u)
      exact (sameInt_balance_iff hr).mpr (by omega)
    · obtain ⟨st, hst⟩ := hready.state
      exact ⟨st.admin, view_returns.mpr ⟨(admin_answer hready).mpr ⟨_, hst.admin, rfl, rfl⟩, rfl⟩,
        V2.admin_returns.mpr ⟨_, hst.admin, rfl, rfl⟩⟩

/-- Everything that was deposited has been withdrawn again. -/
def emptiedSession : List (Entry Bank) × World Bank :=
  session 1000 plainOpening [(10, .deposit alice 100), (20, .withdraw alice 100)]

theorem preserved_iff_no_deposits_emptied :
    emptiedSession.2.storage.totalDeposits.getD 0 = 0 ∧ Preserved bank openEnv emptiedSession.2 := by
  have hzero : emptiedSession.2.storage.totalDeposits.getD 0 = 0 := rfl
  have hr := session_reachable 1000 plainOpening plainOpening_isOk
    [(10, .deposit alice 100), (20, .withdraw alice 100)]
  exact ⟨hzero, (preserved_iff_no_deposits hr).mpr hzero⟩

def depositedSession : List (Entry Bank) × World Bank :=
  session 1000 plainOpening [(10, .deposit alice 100)]

theorem depositedSession_reachable : Reachable bank depositedSession.2 :=
  session_reachable 1000 plainOpening plainOpening_isOk [(10, .deposit alice 100)]

/-- A deposit of 100 reads as a balance of zero after the upgrade. -/
theorem balance_lost_by_upgrade : ∃ w, Reachable bank w ∧
    Returns (exec bank.client (.view (.balance alice))) openEnv w (.int 100) w ∧
    Returns (V2.exec (.balance alice)) openEnv w (.int 0) w := by
  have hready := ready_of_reachable depositedSession_reachable
  have hbal : (position depositedSession.2.storage .legacy alice).balance = 100 := by
    rfl
  refine ⟨depositedSession.2, depositedSession_reachable, ?_, ?_⟩
  · refine view_returns.mpr ⟨(balance_answer hready).mpr ⟨?_, rfl⟩, rfl⟩
    rw [hbal]
  · refine V2.balance_returns.mpr ⟨?_, rfl⟩
    rw [userBalance_of_reachable depositedSession_reachable]
    rfl

end Reading

/-! ## Runs over both versions -/

/-- The hashes under which the two versions are uploaded. -/
structure Versions where
  v1 : WasmHash
  v2 : WasmHash
  distinct : v1 ≠ v2

/-- A call, to the version it is written for. -/
inductive Invocation where
  | first (call : Call)
  | second (call : V2.Call)

/-- A step of the chain, with the worlds before and after a call. -/
inductive Record (τ : Type) where
  | call (env : Env) (invocation : Invocation) (pre post : World τ)
  | outside

/-- The installed code answers the calls; a hash that is neither version's
answers none. -/
inductive VersionStep (D : Deployment τ) (V : Versions) : World τ → Record τ → World τ → Prop
  | first {w : World τ} {env : Env} {call : Call} : w.code = V.v1 →
      env.currentContract = D.contract →
      VersionStep D V w (.call env (.first call) w (invoke (exec D.client call) env w))
        (invoke (exec D.client call) env w)
  | second {w : World τ} {env : Env} {call : V2.Call} : w.code = V.v2 →
      env.currentContract = D.contract →
      VersionStep D V w (.call env (.second call) w (invoke (V2.exec call) env w))
        (invoke (V2.exec call) env w)
  | outside {w : World τ} {tokens : τ} {timestamp : Nat} : w.timestamp ≤ timestamp →
      (∀ k, D.balance w.tokens k D.contract ≤ D.balance tokens k D.contract) →
      VersionStep D V w .outside { w with tokens := tokens, timestamp := timestamp }

abbrev VersionRun (D : Deployment τ) (V : Versions) (w₀ : World τ) (h : List (Record τ))
    (w : World τ) : Prop := Run (VersionStep D V) w₀ h w

/-- If the call changed the code, the stored administrator had signed it. -/
def CodeSigned : Record τ → Prop
  | .call env _ pre post => post.code ≠ pre.code → AdminSigned env pre.storage
  | .outside => True

/-- An upgrade of the second version names the stored administrator, or
changes nothing: the vault signs no call, and the code may be the installed
one. -/
def NamesAdmin (D : Deployment τ) (V : Versions) (w : World τ) : Invocation → Prop
  | .second (.upgrade admin hash) =>
    w.code = V.v2 → w.storage.admin = some admin ∨ admin = D.contract ∨ hash = w.code
  | _ => True

section Runs
variable {D : Deployment τ} {V : Versions} {env : Env} {w₀ w w' : World τ}
variable {h : List (Record τ)} {e : Record τ}

/-- Neither version leaves the states between calls. -/
theorem ready_of_versionStep (hr : Ready w.storage) (hs : VersionStep D V w e w') :
    Ready w'.storage := by
  cases hs with
  | first =>
    rcases invoke_eq_or_returns _ _ _ with hsame | ⟨value, hret⟩
    · rw [hsame]
      exact hr
    · exact ready_of_effect hr (effect_of_returns hr hret)
  | second =>
    rcases invoke_eq_or_returns _ _ _ with hsame | ⟨value, hret⟩
    · rw [hsame]
      exact hr
    · rcases V2.eq_or_upgrade hret with heq | ⟨_, _, _, _, heq⟩
      · rw [heq]
        exact hr
      · rw [heq]
        exact hr
  | outside => exact hr

theorem ready_of_versionRun (h0 : Started D w₀) (hr : VersionRun D V w₀ h w) : Ready w.storage :=
  hr.invariant (I := fun w => Ready w.storage) (ready_of_started h0)
    fun _ _ _ hi hs => ready_of_versionStep hi hs

/-- The first version changes the code for the administrator only. -/
theorem signed_of_first (hr : Ready w.storage) (call : Call)
    (hcode : (invoke (exec D.client call) env w).code ≠ w.code) : AdminSigned env w.storage := by
  rcases invoke_eq_or_returns (exec D.client call) env w with hsame | ⟨value, hret⟩
  · exact absurd (congrArg World.code hsame) hcode
  · refine (adminRecord_or_auth (effect_of_returns hr hret)).resolve_left ?_
    intro hsame
    exact hcode (congrArg AdminRecord.code hsame)

/-- The second version changes the code for whom the call names. -/
theorem signed_of_second (hc : env.currentContract = D.contract) {call : V2.Call}
    (hn : NamesAdmin D V w (.second call)) (hv : w.code = V.v2)
    (hcode : (invoke (V2.exec call) env w).code ≠ w.code) : AdminSigned env w.storage := by
  rcases invoke_eq_or_returns (V2.exec call) env w with hsame | ⟨value, hret⟩
  · exact absurd (congrArg World.code hsame) hcode
  · rcases V2.eq_or_upgrade hret with heq | ⟨address, hash, rfl, hauth, heq⟩
    · exact absurd (congrArg World.code heq) hcode
    · rcases hn hv with hadmin | hself | hsame
      · exact ⟨address, hadmin, hauth⟩
      · exact absurd hself (ne_contract_of_auths hc hauth)
      · exact absurd ((congrArg World.code heq).trans hsame) hcode

/-- The condition on the calls of a run: each upgrade of the second version
names the administrator of the state it is made in. -/
def RecordNamesAdmin (D : Deployment τ) (V : Versions) : Record τ → Prop
  | .call _ invocation pre _ => NamesAdmin D V pre invocation
  | .outside => True

theorem codeSigned_of_step (hr : Ready w.storage) (hs : VersionStep D V w e w')
    (hn : RecordNamesAdmin D V e) : CodeSigned e := by
  cases hs with
  | first => exact signed_of_first hr _
  | second hv hc => exact signed_of_second hc hn hv
  | outside => trivial

/-- An upgrade that names another address is carried out for it. -/
theorem namesAdmin_of_signed {address : Address} {hash : WasmHash}
    (hsigned : ∀ env, env.currentContract = D.contract →
      CodeSigned (.call env (.second (.upgrade address hash)) w
        (invoke (V2.exec (.upgrade address hash)) env w))) :
    w.storage.admin = some address ∨ address = D.contract ∨ hash = w.code := by
  by_cases hself : address = D.contract
  · exact Or.inr (Or.inl hself)
  by_cases hsame : hash = w.code
  · exact Or.inr (Or.inr hsame)
  have hret : Returns (V2.exec (.upgrade address hash)) (signedBy D address hself) w .unit
      { w with code := hash } := V2.upgrade_returns.mpr ⟨rfl, decide_eq_true rfl, rfl, rfl⟩
  have hcode : (invoke (V2.exec (.upgrade address hash)) (signedBy D address hself) w).code ≠
      w.code := by
    rw [invoke_of_returns hret]
    exact hsame
  obtain ⟨admin, hadmin, hauth⟩ := hsigned (signedBy D address hself) rfl hcode
  obtain rfl : admin = address := of_decide_eq_true hauth
  exact Or.inl hadmin

/-- **Who installs code, over both versions.** Along every run whose
second-version upgrades name the stored administrator, the code changes only in
calls that the stored administrator signed. In any state that a run reaches, a
call keeps to that for every set of signers exactly when it meets the
condition. -/
theorem code_signed_iff_namesAdmin (h0 : Started D w₀) (hr : VersionRun D V w₀ h w) :
    ((∀ e ∈ h, RecordNamesAdmin D V e) → ∀ e ∈ h, CodeSigned e) ∧
    ∀ invocation, (∀ env w', VersionStep D V w (.call env invocation w w') w' →
      CodeSigned (.call env invocation w w')) ↔ NamesAdmin D V w invocation := by
  refine ⟨?_, ?_⟩
  · intro hn e he
    obtain ⟨earlier, hsuffix⟩ := exists_suffix_of_mem he
    obtain ⟨t, u, hrun, hstep⟩ := hr.step_of_suffix hsuffix
    exact codeSigned_of_step (ready_of_versionRun h0 hrun) hstep (hn e he)
  · intro invocation
    refine ⟨?_, ?_⟩
    · intro hsigned
      cases invocation with
      | first => trivial
      | second call =>
        cases call with
        | upgrade address hash =>
          intro hv
          exact namesAdmin_of_signed fun env hc => hsigned env _ (.second hv hc)
        | _ => trivial
    · intro hn env w' hstep
      exact codeSigned_of_step (ready_of_versionRun h0 hr) hstep hn

end Runs

/-! ## An upgrade and what may follow it -/

theorem hash_ne : (⟨0⟩ : WasmHash) ≠ ⟨1⟩ := by decide

def versions : Versions := ⟨⟨0⟩, ⟨1⟩, hash_ne⟩

/-- The administrator has installed the second version. -/
def upgradedWorld : World Bank :=
  invoke (exec bank.client (.upgrade ⟨1⟩)) openEnv (opened 1000 plainOpening)

/-- Then somebody asks the second version to install other code. -/
def replacedWorld (env : Env) (address : Address) : World Bank :=
  invoke (V2.exec (.upgrade address ⟨2⟩)) env upgradedWorld

def replacement (env : Env) (address : Address) : Record Bank :=
  .call env (.second (.upgrade address ⟨2⟩)) upgradedWorld (replacedWorld env address)

def upgradeHistory (env : Env) (address : Address) : List (Record Bank) :=
  [replacement env address,
    .call openEnv (.first (.upgrade ⟨1⟩)) (opened 1000 plainOpening) upgradedWorld]

theorem upgradedWorld_code : upgradedWorld.code = ⟨1⟩ := rfl

theorem upgradedWorld_admin : upgradedWorld.storage.admin = some adminAddress := rfl

theorem upgradeHistory_run {env : Env} (hc : env.currentContract = vaultAddress)
    (address : Address) : VersionRun bank versions (opened 1000 plainOpening)
      (upgradeHistory env address) (replacedWorld env address) := by
  have hfirst : (opened 1000 plainOpening).code = versions.v1 := rfl
  exact .snoc (.snoc .nil (.first hfirst rfl)) (.second upgradedWorld_code hc)

theorem code_signed_iff_namesAdmin_replaced :
    (replacedWorld openEnv adminAddress).code = ⟨2⟩ ∧
    ∀ e ∈ upgradeHistory openEnv adminAddress, CodeSigned e := by
  refine ⟨rfl, ?_⟩
  refine (code_signed_iff_namesAdmin (started_opened 1000 plainOpening plainOpening_isOk)
    (upgradeHistory_run rfl adminAddress)).1 ?_
  intro e he
  simp only [upgradeHistory, replacement, List.mem_cons, List.not_mem_nil, or_false] at he
  rcases he with rfl | rfl
  · intro _
    exact Or.inl upgradedWorld_admin
  · trivial

theorem bob_ne_vault : bob ≠ bank.contract := by decide

/-- Anybody can name themselves and replace the code of an upgraded vault. -/
theorem code_replaced_by_anybody : ∃ (w₀ w : World Bank) (h : List (Record Bank)) (e : Record Bank),
    Started bank w₀ ∧ w₀.code = versions.v1 ∧ VersionRun bank versions w₀ h w ∧ e ∈ h ∧
    ¬ CodeSigned e := by
  refine ⟨_, _, _, replacement (signedBy bank bob bob_ne_vault) bob,
    started_opened 1000 plainOpening plainOpening_isOk, rfl,
    upgradeHistory_run rfl bob, List.mem_cons_self, ?_⟩
  intro hsigned
  obtain ⟨admin, hadmin, hauth⟩ := hsigned (by decide +kernel)
  obtain rfl : adminAddress = admin := Option.some.inj (upgradedWorld_admin.symm.trans hadmin)
  exact absurd hauth (by decide)

end Axionvera.Vault.Upgrade

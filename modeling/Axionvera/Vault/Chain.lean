import Axionvera.Lib.Transition
import Axionvera.Vault.Contract

/-! # Runs of the deployed vault

A deployment is the vault's address and the behaviour of the token contracts.
The chain moves by calls to the vault, which are rolled back unless they
succeed, and by everything that happens outside it: time passes, and tokens
move between other holders or into the vault, but nobody else moves the vault's
own tokens. An `upgrade` changes the stored code hash; every run here is one of
this version's code. -/
namespace Axionvera.Vault.Chain
open Axionvera.Lib.Host Axionvera.Lib.KeyValue Axionvera.Lib.MachineInt Axionvera.Lib.Transition
open Axionvera.Vault.Errors Axionvera.Vault.Types Axionvera.Vault.Contract

/-- The vault's address and the token contracts around it. A `transfer` that is
`none` traps. -/
structure Deployment (τ : Type) where
  contract : Address
  transfer : τ → (token src dst : Address) → Int → Option τ
  balance : τ → (token holder : Address) → Int

/-- What is assumed of the tokens where tokens matter: a transfer moves exactly
its amount of its token, and no balance is negative. -/
structure Deployment.Lawful {τ : Type} (D : Deployment τ) : Prop where
  transfer_exact : ∀ t t' token src dst amount, D.transfer t token src dst amount = some t' →
    ∀ k a, D.balance t' k a = D.balance t k a +
      (if k = token ∧ a = dst then amount else 0) - (if k = token ∧ a = src then amount else 0)
  balance_nonneg : ∀ t k a, 0 ≤ D.balance t k a

variable {τ : Type}

/-- What the vault receives it has. -/
theorem Deployment.Lawful.incoming {D : Deployment τ} (hD : D.Lawful) {t t' : τ}
    {token src : Address} {amount : Int} (htr : D.transfer t token src D.contract amount = some t')
    (hsrc : src ≠ D.contract) (k : Address) : D.balance t' k D.contract =
      D.balance t k D.contract + if k = token then amount else 0 := by
  have hexact := hD.transfer_exact _ _ _ _ _ _ htr k D.contract
  simpa [hsrc.symm] using hexact

/-- What the vault sends it no longer has. -/
theorem Deployment.Lawful.outgoing {D : Deployment τ} (hD : D.Lawful) {t t' : τ}
    {token dst : Address} {amount : Int} (htr : D.transfer t token D.contract dst amount = some t')
    (hdst : dst ≠ D.contract) (k : Address) : D.balance t' k D.contract =
      D.balance t k D.contract - if k = token then amount else 0 := by
  have hexact := hD.transfer_exact _ _ _ _ _ _ htr k D.contract
  simpa [hdst.symm] using hexact

/-- Nobody who authorises a call of the vault is the vault. -/
theorem ne_contract_of_auths {D : Deployment τ} {env : Env} {a : Address}
    (hc : env.currentContract = D.contract) (h : env.auths a = true) : a ≠ D.contract := by
  intro ha
  rw [ha, ← hc, env.selfUnsigned] at h
  cases h

/-- Tokens do not call back into the vault: the host refuses re-entry into a
running contract. -/
def Deployment.client (D : Deployment τ) : TokenClient τ where
  transfer token src dst amount := fun _ w =>
    match D.transfer w.tokens token src dst amount with
    | some t => .ok () { w with tokens := t }
    | none => .trap
  balance token holder := fun _ w => .ok (D.balance w.tokens token holder) w

/-- A step of the chain, as the history of a run keeps it. -/
inductive Entry (τ : Type) where
  | ok (env : Env) (call : Call) (pre : World τ) (value : Value)
  | failed (env : Env) (call : Call)
  | outside

inductive ChainStep (D : Deployment τ) : World τ → Entry τ → World τ → Prop
  | ok {w w' : World τ} {env : Env} {call : Call} {value : Value} :
      env.currentContract = D.contract → Returns (exec D.client call) env w value w' →
      ChainStep D w (.ok env call w value) w'
  | failed {w : World τ} {env : Env} {call : Call} : env.currentContract = D.contract →
      (∀ value w', ¬ Returns (exec D.client call) env w value w') →
      ChainStep D w (.failed env call) (invoke (exec D.client call) env w)
  | outside {w : World τ} {tokens : τ} {timestamp : Nat} : w.timestamp ≤ timestamp →
      (∀ k, D.balance w.tokens k D.contract ≤ D.balance tokens k D.contract) →
      ChainStep D w .outside { w with tokens := tokens, timestamp := timestamp }

/-- The state a successful `initialize` of a freshly deployed vault leaves. -/
def Started (D : Deployment τ) (w₀ : World τ) : Prop :=
  ∃ (w : World τ) (env : Env) (admin depositToken rewardToken : Address) (vestingPeriod : UInt64)
    (targetDeposits : I128) (multipliers : List MultiplierPoint) (value : Value),
    w.storage = .fresh ∧ env.currentContract = D.contract ∧
    Returns (exec D.client (.initializeVault admin depositToken rewardToken vestingPeriod
      targetDeposits multipliers)) env w value w₀

/-- A run from a state, with its history, latest step first. -/
abbrev ChainRun (D : Deployment τ) (w₀ : World τ) (h : List (Entry τ)) (w : World τ) : Prop :=
  Run (ChainStep D) w₀ h w

def Reachable (D : Deployment τ) (w : World τ) : Prop :=
  ∃ w₀ h, Started D w₀ ∧ ChainRun D w₀ h w

theorem Reachable.step {D : Deployment τ} {w w' : World τ} {e : Entry τ} (h : Reachable D w)
    (hs : ChainStep D w e w') : Reachable D w' := by
  obtain ⟨w₀, hist, h0, hr⟩ := h
  exact ⟨w₀, e :: hist, h0, .snoc hr hs⟩

theorem Reachable.run {D : Deployment τ} {w w' : World τ} {hist : List (Entry τ)}
    (h : Reachable D w) (hr : ChainRun D w hist w') : Reachable D w' := by
  obtain ⟨w₀, hist₀, h0, hr₀⟩ := h
  exact ⟨w₀, hist ++ hist₀, h0, hr₀.trans hr⟩

/-! ## Running calls -/

/-- A call made at the given ledger time. -/
structure Request where
  env : Env
  timestamp : Nat
  call : Call

/-- Let time pass up to a request, then run its call. Time never runs
backwards. -/
def runRequest (D : Deployment τ) (w : World τ) (q : Request) : World τ :=
  invoke (exec D.client q.call) q.env { w with timestamp := max w.timestamp q.timestamp }

/-- The history entry that `runRequest` adds after the passage of time. -/
def requestEntry (D : Deployment τ) (w : World τ) (q : Request) : Entry τ :=
  let w₁ := { w with timestamp := max w.timestamp q.timestamp }
  match exec D.client q.call q.env w₁ with
  | .ok value _ => .ok q.env q.call w₁ value
  | .err _ _ => .failed q.env q.call
  | .trap => .failed q.env q.call

/-- The history and the last state of a run of requests. -/
def runRequests (D : Deployment τ) : List (Entry τ) → World τ → List Request →
    List (Entry τ) × World τ
  | h, w, [] => (h, w)
  | h, w, q :: qs =>
    runRequests D (requestEntry D w q :: .outside :: h) (runRequest D w q) qs

theorem runRequest_step (D : Deployment τ) (w : World τ) (q : Request)
    (hc : q.env.currentContract = D.contract) :
    ChainStep D { w with timestamp := max w.timestamp q.timestamp } (requestEntry D w q)
      (runRequest D w q) := by
  unfold requestEntry runRequest
  cases ho : exec D.client q.call q.env { w with timestamp := max w.timestamp q.timestamp } with
  | ok value w' =>
    simp only [ho]
    rw [invoke_of_returns ho]
    exact .ok hc ho
  | err e w' =>
    simp only [ho]
    exact .failed hc fun v u hr => by rw [Returns, ho] at hr; cases hr
  | trap =>
    simp only [ho]
    exact .failed hc fun v u hr => by rw [Returns, ho] at hr; cases hr

/-- Requests run one after the other are a run of the chain. -/
theorem runRequests_run (D : Deployment τ) {w₀ : World τ} (qs : List Request)
    (hc : ∀ q ∈ qs, q.env.currentContract = D.contract) {h : List (Entry τ)} {w : World τ}
    (hr : ChainRun D w₀ h w) :
    ChainRun D w₀ (runRequests D h w qs).1 (runRequests D h w qs).2 := by
  induction qs generalizing h w with
  | nil => exact hr
  | cons q qs ih =>
    have hwait : ChainStep D w .outside { w with timestamp := max w.timestamp q.timestamp } :=
      .outside (le_max_left _ _) fun _ => le_rfl
    have hcall := runRequest_step D w q (hc q (by simp))
    exact ih (fun p hp => hc p (by simp [hp])) ((hr.snoc hwait).snoc hcall)

/-! ## Tokens kept as plain balances -/

/-- Balances of holders, for each token. -/
structure Bank where
  balance : Address → Address → Nat

/-- Move an amount if the holder has it. -/
def Bank.transfer (b : Bank) (token src dst : Address) (amount : Int) : Option Bank :=
  if 0 ≤ amount ∧ amount.toNat ≤ b.balance token src then
    let taken : Bank := ⟨fun k a =>
      if k = token ∧ a = src then b.balance k a - amount.toNat else b.balance k a⟩
    some ⟨fun k a => if k = token ∧ a = dst then taken.balance k a + amount.toNat
      else taken.balance k a⟩
  else none

/-- The vault at `contract` among such tokens. -/
def bankDeployment (contract : Address) : Deployment Bank where
  contract := contract
  transfer := Bank.transfer
  balance b token holder := b.balance token holder

theorem bankDeployment_lawful (contract : Address) : (bankDeployment contract).Lawful where
  transfer_exact := by
    intro t t' token src dst amount ht k a
    simp only [bankDeployment, Bank.transfer] at ht
    split at ht
    · rename_i hamount
      obtain ⟨h0, hle⟩ := hamount
      obtain rfl := Option.some.inj ht
      simp only [bankDeployment]
      by_cases hk : k = token <;> by_cases hd : a = dst <;> by_cases hs : a = src <;>
        subst_vars <;> simp_all
    · cases ht
  balance_nonneg := by
    intro t k a
    exact Int.natCast_nonneg _

/-! ## A small deployment

One vault among bank tokens, with everybody signing every call but the vault
itself, so that a session is given by its calls and their times. -/

def vaultAddress : Address := ⟨0⟩
def adminAddress : Address := ⟨1⟩
def depositToken : Address := ⟨2⟩
def rewardToken : Address := ⟨3⟩
def alice : Address := ⟨4⟩
def bob : Address := ⟨5⟩

def openEnv : Env where
  currentContract := vaultAddress
  auths a := decide (a ≠ vaultAddress)
  selfUnsigned := by decide
  uploaded _ := true

def bank : Deployment Bank := bankDeployment vaultAddress

/-- Everybody but the vault holds the same amount of every token. -/
def unopened (wealth : Nat) : World Bank where
  storage := .fresh
  tokens := ⟨fun _ a => if a = vaultAddress then 0 else wealth⟩
  timestamp := 0
  code := ⟨0⟩
  events := []

/-- The arguments of `initialize` that differ between sessions. -/
structure Opening where
  vestingPeriod : UInt64
  targetDeposits : I128
  multipliers : List MultiplierPoint

def Opening.call (o : Opening) : Call :=
  .initializeVault adminAddress depositToken rewardToken o.vestingPeriod o.targetDeposits o.multipliers

def opened (wealth : Nat) (o : Opening) : World Bank :=
  invoke (exec bank.client o.call) openEnv (unopened wealth)

theorem started_opened (wealth : Nat) (o : Opening)
    (h : (exec bank.client o.call openEnv (unopened wealth)).isOk = true) :
    Started bank (opened wealth o) := by
  obtain ⟨value, hret⟩ := returns_of_isOk h
  exact ⟨_, openEnv, _, _, _, _, _, _, value, rfl, rfl, hret⟩

/-- The calls of a session, each with its ledger time. -/
def session (wealth : Nat) (o : Opening) (calls : List (Nat × Call)) :
    List (Entry Bank) × World Bank :=
  runRequests bank [] (opened wealth o) (calls.map fun c => ⟨openEnv, c.1, c.2⟩)

theorem session_run (wealth : Nat) (o : Opening) (calls : List (Nat × Call)) :
    ChainRun bank (opened wealth o) (session wealth o calls).1 (session wealth o calls).2 := by
  refine runRequests_run bank _ ?_ .nil
  intro q hq
  obtain ⟨c, _, rfl⟩ := List.mem_map.mp hq
  rfl

theorem session_reachable (wealth : Nat) (o : Opening)
    (h : (exec bank.client o.call openEnv (unopened wealth)).isOk = true)
    (calls : List (Nat × Call)) : Reachable bank (session wealth o calls).2 :=
  ⟨_, _, started_opened wealth o h, session_run wealth o calls⟩

end Axionvera.Vault.Chain

import Axionvera.Vault.Plans

/-! # The guard against re-entry

Runs of the vault among tokens that call back. Every top-level call starts from
a vault that is ready for it, so each successful call is its plan carried out,
and two families of tokens that let one plan through leave the same books. -/
namespace Axionvera.Vault.Reentrancy
open Axionvera.Lib.Host Axionvera.Lib.MachineInt Axionvera.Lib.Transition
open Axionvera.Vault.Types Axionvera.Vault.Contract Axionvera.Vault.Chain
open Axionvera.Vault.Accounts Axionvera.Vault.StorageSpec Axionvera.Vault.Effects
open Axionvera.Vault.Refinement Axionvera.Vault.Principal
open Axionvera.Vault.Callbacks Axionvera.Vault.Plans

variable {τ : Type}

/-! ## What an outer call leaves -/

section Outer
variable {T T' : TokenClient τ} {env : Env} {w w' w'' : World τ} {call : Call} {plan plan' : Plan}
variable {value value' : Value} {s t : Storage}

/-- The plan does not depend on the tokens. -/
theorem planOf_unique (h : PlanOf env w call plan) (h' : PlanOf env w call plan') : plan = plan' := by
  have hsome : ∀ {o : Option Address} {x y : Address}, o = some x → o = some y → x = y :=
    fun hx hy => Option.some.inj (hx.symm.trans hy)
  cases h with
  | deposit _ _ _ htok => cases h' with | deposit _ _ _ htok' => rw [hsome htok htok']
  | withdraw _ _ _ htok => cases h' with | withdraw _ _ _ htok' => rw [hsome htok htok']
  | distributeRewards _ ha _ htok =>
    cases h' with
    | distributeRewards _ ha' _ htok' => rw [hsome ha ha', hsome htok htok']
  | claimRewards _ _ _ _ htok => cases h' with | claimRewards _ _ _ _ htok' => rw [hsome htok htok']
  | depositAsset => cases h' with | depositAsset => rfl
  | withdrawAsset => cases h' with | withdrawAsset => rfl
  | distributeRewardsForAsset _ _ _ _ htok =>
    cases h' with
    | distributeRewardsForAsset _ _ _ _ htok' => rw [hsome htok htok']
  | claimRewardsForAsset _ _ _ _ _ htok =>
    cases h' with
    | claimRewardsForAsset _ _ _ _ _ htok' => rw [hsome htok htok']

theorem interfered_last (h : PlanOf env w call plan) (hi : Interfered s t) :
    Interfered (plan.last s) (plan.last t) := by
  cases h with
  | deposit => exact interfered_afterDeposit hi
  | distributeRewards => exact interfered_afterDistribution hi
  | depositAsset => exact interfered_afterAssetMove hi
  | distributeRewardsForAsset => exact interfered_afterAssetDistribution hi
  | withdraw | claimRewards | withdrawAsset | claimRewardsForAsset => exact hi

/-- A plan that is carried out leaves what it would have left without
interference, up to interference. -/
theorem interfered_of_carried (hT : Adversarial T env.currentContract) (hr : Ready w.storage)
    (h : PlanOf env w call plan) (hcar : Carried T env w plan w') :
    Interfered (plan.last (plan.first w.storage)) w'.storage := by
  obtain ⟨w₁, hd, rfl⟩ := hcar
  have hi := interfered_last h (interfered_of_dealt hT hd (closed_inner hr h)).1
  have hcycle : setGuard false (plan.last (plan.first (setGuard true w.storage))) =
      plan.last (plan.first w.storage) := by
    refine setGuard_cycle (F := fun s => plan.last (plan.first s)) (fun b s => ?_) hr.idle
    rw [first_setGuard h, last_setGuard h]
  rw [← hcycle]
  exact hi.setGuard false

/-- Between calls the vault is ready for the next one. -/
theorem ready_of_returns (hT : Adversarial T env.currentContract) (hr : Ready w.storage)
    (h : Returns (exec T call) env w value w') : Ready w'.storage := by
  by_cases hc : UsesTokens call
  · obtain ⟨plan, hplan, _, hcar⟩ := planOf_of_returns hT hr hc h
    obtain ⟨w₁, heff, hw₁, _⟩ := effect_of_planOf hr.sound hplan fun _ => rfl
    have hready := ready_of_effect hr heff
    rw [hw₁] at hready
    exact (interfered_of_carried hT hr hplan hcar).ready hready
  · rw [exec_of_not_usesTokens hc T (compliant env.currentContract w.tokens).client] at h
    exact ready_of_effect hr (effect_of_returns hr h)

/-- Two families of tokens under which a call succeeds leave the same books and
give the same answer. -/
theorem sameBooks_of_returns (hT : Adversarial T env.currentContract)
    (hT' : Adversarial T' env.currentContract) (hr : Ready w.storage)
    (h : Returns (exec T call) env w value w') (h' : Returns (exec T' call) env w value' w'') :
    value' = value ∧ SameBooks w''.storage w'.storage := by
  by_cases hc : UsesTokens call
  · obtain ⟨plan, hplan, rfl, hcar⟩ := planOf_of_returns hT hr hc h
    obtain ⟨plan', hplan', rfl, hcar'⟩ := planOf_of_returns hT' hr hc h'
    obtain rfl := planOf_unique hplan hplan'
    have hi := interfered_of_carried hT hr hplan hcar
    have hi' := interfered_of_carried hT' hr hplan' hcar'
    refine ⟨rfl, fun p => ?_, fun u => ?_, fun u => ?_⟩
    · rw [hi.pools, hi'.pools]
    · rw [hi.liquid, hi'.liquid]
    · rw [hi.locks, hi'.locks]
  · rw [exec_of_not_usesTokens hc T' T] at h'
    obtain ⟨rfl, rfl⟩ := h.det h'
    exact ⟨rfl, fun _ => rfl, fun _ => rfl, fun _ => rfl⟩

theorem tokens_of_nil (h : Carried T env w plan w') (hnil : plan.asks = []) :
    w'.tokens = w.tokens := by
  obtain ⟨w₁, hd, rfl⟩ := h
  rw [hnil] at hd
  cases hd
  rfl

/-- Tokens that do not call back could have led to the same end. -/
theorem exists_quiet (hT : Adversarial T env.currentContract) (hr : Ready w.storage)
    (h : Returns (exec T call) env w value w') :
    ∃ (D : Deployment τ) (w'' : World τ), D.contract = env.currentContract ∧
      Returns (exec D.client call) env w value w'' ∧ w''.tokens = w'.tokens := by
  by_cases hc : UsesTokens call
  · obtain ⟨plan, hplan, rfl, hcar⟩ := planOf_of_returns hT hr hc h
    obtain ⟨w₁, heff, _, htokens⟩ := effect_of_planOf hr.sound hplan (tokens_of_nil hcar)
    exact ⟨_, w₁, rfl, returns_of_effect hr heff, htokens⟩
  · rw [exec_of_not_usesTokens hc T (compliant env.currentContract w.tokens).client] at h
    exact ⟨_, w', rfl, h, rfl⟩

end Outer

/-! ## Tokens with and without their callbacks -/

/-- `T` is `D` with callbacks: it lets through what `D` lets through, with the
same effect on the tokens, but may call the vault before it answers. -/
structure Wraps (T : TokenClient τ) (D : Deployment τ) : Prop where
  refuses : ∀ token src dst amount env w, env.currentContract = D.contract →
    D.transfer w.tokens token src dst amount = none →
    T.transfer token src dst amount env w = .trap
  transfer : ∀ token src dst amount env w tokens, env.currentContract = D.contract →
    D.transfer w.tokens token src dst amount = some tokens →
    ∃ log w', T.transfer token src dst amount env w = .ok () w' ∧ Nested T D.contract w log w' ∧
      w'.tokens = tokens
  balance : ∀ token holder env w, env.currentContract = D.contract →
    ∃ log w', T.balance token holder env w = .ok (D.balance w.tokens token holder) w' ∧
      Nested T D.contract w log w' ∧ w'.tokens = w.tokens

section Wrapped
variable {T : TokenClient τ} {D : Deployment τ} {env : Env} {w v w' : World τ} {call : Call}
variable {value : Value} {asks : List Ask}

theorem Wraps.adversarial (h : Wraps T D) : Adversarial T D.contract where
  transfer token src dst amount env w hc := by
    cases htr : D.transfer w.tokens token src dst amount with
    | none => exact Or.inl (h.refuses _ _ _ _ _ _ hc htr)
    | some tokens =>
      obtain ⟨log, w', hok, hn, _⟩ := h.transfer _ _ _ _ _ _ _ hc htr
      exact Or.inr ⟨log, w', hok, hn⟩
  balance token holder env w hc := by
    obtain ⟨log, w', hok, hn, _⟩ := h.balance token holder env w hc
    exact Or.inr ⟨_, log, w', hok, hn⟩

/-- The tokens are left alike, with or without callbacks. -/
theorem dealt_of_wraps (h : Wraps T D) (hc : env.currentContract = D.contract)
    (hd : Dealt T env w asks w') (hv : v.tokens = w.tokens) :
    ∃ v', Dealt D.client env v asks v' ∧ v'.tokens = w'.tokens := by
  induction hd generalizing v with
  | done => exact ⟨v, .done, hv⟩
  | @transfer w w₁ w' token src dst amount asks htr _ ih =>
    cases hD : D.transfer w.tokens token src dst amount with
    | none =>
      rw [Returns, h.refuses _ _ _ _ _ _ hc hD] at htr
      cases htr
    | some tokens =>
      obtain ⟨_, w₂, hok, _, ht⟩ := h.transfer _ _ _ _ _ _ _ hc hD
      obtain ⟨_, rfl⟩ := Returns.det htr hok
      obtain ⟨v', hv', ht'⟩ := ih (v := { v with tokens := tokens }) ht.symm
      exact ⟨v', .transfer (transfer_returns.mpr ⟨tokens, hv ▸ hD, rfl⟩) hv', ht'⟩
  | @funds w w₁ w' token holder amount x asks hb hle _ ih =>
    obtain ⟨_, w₂, hok, _, ht⟩ := h.balance token holder env w hc
    obtain ⟨rfl, rfl⟩ := Returns.det hb hok
    obtain ⟨v', hv', ht'⟩ := ih (hv.trans ht.symm)
    exact ⟨v', .funds (balance_returns.mpr ⟨rfl, rfl⟩) (hv ▸ hle) hv', ht'⟩

theorem wraps_of_dealt (h : Wraps T D) (hc : env.currentContract = D.contract)
    (hd : Dealt D.client env v asks w') (hv : v.tokens = w.tokens) :
    ∃ w₁, Dealt T env w asks w₁ := by
  induction hd generalizing w with
  | done => exact ⟨w, .done⟩
  | @transfer v v₁ _ token src dst amount asks htr _ ih =>
    obtain ⟨tokens, hD, rfl⟩ := transfer_returns.mp htr
    obtain ⟨_, w₂, hok, _, ht⟩ := h.transfer _ _ _ _ env w _ hc (hv ▸ hD)
    obtain ⟨w₁, hd⟩ := ih (w := w₂) ht.symm
    exact ⟨w₁, .transfer hok hd⟩
  | @funds v v₁ _ token holder amount x asks hb hle _ ih =>
    obtain ⟨rfl, rfl⟩ := balance_returns.mp hb
    obtain ⟨_, w₂, hok, _, ht⟩ := h.balance token holder env w hc
    obtain ⟨w₁, hd⟩ := ih (w := w₂) (hv.trans ht.symm)
    exact ⟨w₁, .funds hok (hv ▸ hle) hd⟩

theorem client_returns_of_wraps (h : Wraps T D) (hc : env.currentContract = D.contract)
    (hr : Ready w.storage) (hret : Returns (exec T call) env w value w') :
    ∃ v, Returns (exec D.client call) env w value v ∧ v.tokens = w'.tokens := by
  by_cases hu : UsesTokens call
  · obtain ⟨plan, hplan, rfl, w₁, hd, rfl⟩ := planOf_of_returns (hc ▸ h.adversarial) hr hu hret
    obtain ⟨v₁, hd', ht⟩ := dealt_of_wraps (v := plan.inner w) h hc hd rfl
    exact ⟨_, returns_of_planOf (hc ▸ adversarial_client D) hr hplan ⟨v₁, hd', rfl⟩, ht⟩
  · rw [exec_of_not_usesTokens hu T D.client] at hret
    exact ⟨w', hret, rfl⟩

theorem wraps_returns_of_client (h : Wraps T D) (hc : env.currentContract = D.contract)
    (hr : Ready w.storage) (hret : Returns (exec D.client call) env w value w') :
    ∃ v, Returns (exec T call) env w value v := by
  by_cases hu : UsesTokens call
  · obtain ⟨plan, hplan, rfl, w₁, hd, rfl⟩ := planOf_of_returns (hc ▸ adversarial_client D) hr hu hret
    obtain ⟨v₁, hd'⟩ := wraps_of_dealt (w := plan.inner w) h hc hd rfl
    exact ⟨_, returns_of_planOf (hc ▸ h.adversarial) hr hplan ⟨v₁, hd', rfl⟩⟩
  · rw [exec_of_not_usesTokens hu D.client T] at hret
    exact ⟨w', hret⟩

/-- With or without callbacks a call ends alike. -/
theorem wraps_agree (h : Wraps T D) (hc : env.currentContract = D.contract) (hr : Ready w.storage) :
    (exec T call env w).value = (exec D.client call env w).value ∧
      SameBooks (invoke (exec D.client call) env w).storage (invoke (exec T call) env w).storage ∧
      (invoke (exec T call) env w).tokens = (invoke (exec D.client call) env w).tokens := by
  refine ⟨Option.ext fun value => ?_, ?_⟩
  · rw [value_eq_some, value_eq_some]
    refine ⟨?_, ?_⟩
    · intro hret
      obtain ⟨w', hret⟩ := hret
      obtain ⟨v, hret', _⟩ := client_returns_of_wraps h hc hr hret
      exact ⟨v, hret'⟩
    · intro hret
      obtain ⟨w', hret⟩ := hret
      exact wraps_returns_of_client h hc hr hret
  · by_cases hret : ∃ value w', Returns (exec T call) env w value w'
    · obtain ⟨value, w', hret⟩ := hret
      obtain ⟨v, hret', ht⟩ := client_returns_of_wraps h hc hr hret
      rw [invoke_of_returns hret, invoke_of_returns hret']
      exact ⟨(sameBooks_of_returns (hc ▸ h.adversarial) (hc ▸ adversarial_client D) hr hret hret').2,
        ht.symm⟩
    · -- neither returns, so both leave the world as it was
      have hnone : ∀ value w', ¬ Returns (exec D.client call) env w value w' := by
        intro value w' hret'
        obtain ⟨v, hv⟩ := wraps_returns_of_client h hc hr hret'
        exact hret ⟨value, v, hv⟩
      rw [invoke_of_not_returns hnone,
        invoke_of_not_returns fun value w' hv => hret ⟨value, w', hv⟩]
      exact ⟨⟨fun _ => rfl, fun _ => rfl, fun _ => rfl⟩, rfl⟩

end Wrapped

/-! ## Runs -/

/-- A step of the chain with such tokens: a call of the vault, rolled back unless
it succeeds, or anything that happens outside it. -/
inductive HostileStep (T : TokenClient τ) (contract : Address) :
    World τ → Option (Env × Call) → World τ → Prop
  | call {w : World τ} {env : Env} {call : Call} : env.currentContract = contract →
      HostileStep T contract w (some (env, call)) (invoke (exec T call) env w)
  | outside {w : World τ} {tokens : τ} {timestamp : Nat} : w.timestamp ≤ timestamp →
      HostileStep T contract w none { w with tokens := tokens, timestamp := timestamp }

/-- A state between two top-level calls of a run that begins with a successful
`initialize`. -/
def HostileReachable (T : TokenClient τ) (contract : Address) (w : World τ) : Prop :=
  ∃ (w₀ w₁ : World τ) (env : Env) (admin depositToken rewardToken : Address)
    (vestingPeriod : UInt64) (targetDeposits : I128) (multipliers : List MultiplierPoint)
    (value : Value) (h : List (Option (Env × Call))),
    w₀.storage = .fresh ∧ env.currentContract = contract ∧
    Returns (exec T (.initializeVault admin depositToken rewardToken vestingPeriod
      targetDeposits multipliers)) env w₀ value w₁ ∧
    Run (HostileStep T contract) w₁ h w

section Runs
variable {T : TokenClient τ} {contract : Address} {env : Env} {w w' : World τ} {call : Call}

theorem ready_of_hostile_step (hT : Adversarial T contract) (hr : Ready w.storage)
    {l : Option (Env × Call)} (hs : HostileStep T contract w l w') : Ready w'.storage := by
  cases hs with
  | @call env call hc =>
    subst hc
    rcases invoke_eq_or_returns (exec T call) env w with heq | ⟨value, hret⟩
    · rw [heq]
      exact hr
    · exact ready_of_returns hT hr hret
  | outside => exact hr

theorem ready_of_hostile (hT : Adversarial T contract) (hw : HostileReachable T contract w) :
    Ready w.storage := by
  obtain ⟨w₀, w₁, env, admin, deposit, reward, period, target, points, value, h, hfresh, hc, hret,
    hrun⟩ := hw
  have hstart : Started (compliant contract w₁.tokens) w₁ :=
    ⟨w₀, env, admin, deposit, reward, period, target, points, value, hfresh, hc, hret⟩
  exact hrun.invariant (I := fun w => Ready w.storage) (ready_of_started hstart)
    fun _ _ _ hi hs => ready_of_hostile_step hT hi hs

/-- The guard keeps tokens that call back out: no nested call of a guarded entry
point succeeds, the guard is free between top-level calls, and a successful call
leaves the books that it leaves with tokens that do not call back. -/
theorem guard_contains_callbacks (hT : Adversarial T contract)
    (hw : HostileReachable T contract w) :
    w.storage.reentrancyGuard = some false ∧
    (∀ (env : Env) (call : Call) (inner w' : World τ) (log : List (Attempt τ)),
      env.currentContract = contract → Enters T env w call inner → Nested T contract inner log w' →
      ∀ a ∈ log, Guarded a.call → ∀ value w'', ¬ Returns (exec T a.call) a.env a.pre value w'') ∧
    (∀ (env : Env) (call : Call) (value : Value) (w' : World τ), env.currentContract = contract →
      Returns (exec T call) env w value w' →
      (∃ (D : Deployment τ) (w'' : World τ), D.contract = contract ∧
        Returns (exec D.client call) env w value w'' ∧ w''.tokens = w'.tokens) ∧
      ∀ (D : Deployment τ) (value' : Value) (w'' : World τ), D.contract = contract →
        Returns (exec D.client call) env w value' w'' →
        value' = value ∧ SameBooks w''.storage w'.storage) ∧
    ∀ (D : Deployment τ) (env : Env) (call : Call), D.contract = contract → Wraps T D →
      env.currentContract = contract →
      (exec T call env w).value = (exec D.client call env w).value ∧
      SameBooks (invoke (exec D.client call) env w).storage (invoke (exec T call) env w).storage ∧
      (invoke (exec T call) env w).tokens = (invoke (exec D.client call) env w).tokens := by
  have hr := ready_of_hostile hT hw
  refine ⟨hr.idle, ?_, ?_, ?_⟩
  · intro env call inner w' log hc henters hnested a ha hg value w''
    subst hc
    exact refused_of_nested hnested (entered_of_enters hT henters) ha hg
  · intro env call value w' hc hret
    subst hc
    refine ⟨exists_quiet hT hr hret, fun D value' w'' hD hret' => ?_⟩
    exact sameBooks_of_returns hT (hD ▸ adversarial_client D) hr hret hret'
  · intro D env call hD hwraps hc
    subst hD
    exact wraps_agree hwraps hc hr

end Runs

/-! A token that tries to lock a part of what is being deposited, which is
refused, and pauses the vault, which succeeds. -/

def meddle (w : World Bank) : World Bank :=
  invoke (exec bank.client .pauseContract) openEnv
    (invoke (exec bank.client (.lock alice 1 10)) openEnv w)

def meddling : TokenClient Bank where
  transfer token src dst amount := fun _ w =>
    match bank.transfer w.tokens token src dst amount with
    | some tokens => .ok () { meddle w with tokens := tokens }
    | none => .trap
  balance := bank.client.balance

/-- The two nested calls take no token code, so they are nested calls of any
client. -/
theorem nested_meddle (T : TokenClient Bank) (w : World Bank) (tokens : Bank) :
    Nested T vaultAddress w
      [⟨openEnv, .pauseContract, invoke (exec T (.lock alice 1 10)) openEnv w⟩,
        ⟨openEnv, .lock alice 1 10, w⟩] { meddle w with tokens := tokens } := by
  have hlock : Nested T vaultAddress w [⟨openEnv, .lock alice 1 10, w⟩] _ :=
    .call .done rfl fun _ h => Call.noConfusion h
  exact .tokens (.call hlock rfl fun _ h => Call.noConfusion h)

theorem wraps_meddling : Wraps meddling bank where
  refuses token src dst amount env w _ h := by simp [meddling, h]
  transfer token src dst amount env w tokens _ h :=
    ⟨_, _, by simp only [meddling, h], nested_meddle _ w tokens, rfl⟩
  balance token holder env w _ := ⟨[], w, rfl, .done, rfl⟩

/-- The same token, but refusing every transfer in one world. -/
noncomputable def refusing (inner : World Bank) : TokenClient Bank where
  transfer token src dst amount := fun env w =>
    open Classical in if w = inner then .trap else meddling.transfer token src dst amount env w
  balance := bank.client.balance

theorem adversarial_refusing (inner : World Bank) : Adversarial (refusing inner) vaultAddress where
  transfer token src dst amount env w _ := by
    by_cases hw : w = inner
    · exact Or.inl (if_pos hw)
    · cases h : bank.transfer w.tokens token src dst amount with
      | none => exact Or.inl (by simp [refusing, meddling, hw, h])
      | some tokens =>
        exact Or.inr ⟨_, _, by simp only [refusing, meddling, if_neg hw, h], nested_meddle _ w tokens⟩
  balance token holder env w _ := Or.inr ⟨_, [], w, rfl, .done⟩

/-- A deposit enters the token's code with the guard held. -/
theorem enters_meddling : Enters meddling openEnv (opened 1000 plainOpening) (.deposit alice 100)
    (guarded true (opened 1000 plainOpening)) := by
  refine ⟨refusing _, fun _ _ _ _ _ _ h => if_neg h, fun _ _ _ _ _ => rfl, fun heq => ?_⟩
  have hready := ready_of_started (started_opened 1000 plainOpening plainOpening_isOk)
  have hok : (exec meddling (.deposit alice 100) openEnv (opened 1000 plainOpening)).isOk = true := by
    rfl
  rw [← heq] at hok
  obtain ⟨value, hret⟩ := returns_of_isOk hok
  obtain ⟨plan, hplan, _, w₁, hd, _⟩ :=
    planOf_of_returns (adversarial_refusing _) hready (show UsesTokens (.deposit _ _) from trivial) hret
  cases hplan with
  | deposit =>
    rw [inner_eq_guarded rfl rfl] at hd
    have htrap := (dealt_transfer.mp hd).symm.trans (if_pos rfl)
    cases htrap

theorem guard_contains_callbacks_meddling :
    (exec meddling (.deposit alice 100) openEnv (opened 1000 plainOpening)).value = some .unit ∧
    (invoke (exec meddling (.deposit alice 100)) openEnv (opened 1000 plainOpening)).storage.isPaused =
      some true ∧
    (∀ value w', ¬ Returns (exec meddling (.lock alice 1 10)) openEnv
      (guarded true (opened 1000 plainOpening)) value w') ∧
    SameBooks (invoke (exec bank.client (.deposit alice 100)) openEnv (opened 1000 plainOpening)).storage
      (invoke (exec meddling (.deposit alice 100)) openEnv (opened 1000 plainOpening)).storage := by
  obtain ⟨value, hret⟩ := returns_of_isOk plainOpening_isOk
  have hw : HostileReachable meddling vaultAddress (opened 1000 plainOpening) :=
    ⟨_, _, openEnv, _, _, _, _, _, _, value, [], rfl, rfl, hret, .nil⟩
  obtain ⟨_, hrefused, _, hsame⟩ := guard_contains_callbacks wraps_meddling.adversarial hw
  refine ⟨rfl, rfl, ?_, ?_⟩
  · exact hrefused openEnv _ _ _ _ rfl enters_meddling (nested_meddle _ _ ⟨fun _ _ => 0⟩)
      ⟨openEnv, .lock alice 1 10, _⟩ (.tail _ (.head _)) trivial
  · exact (hsame bank openEnv _ rfl wraps_meddling rfl).2.1

end Axionvera.Vault.Reentrancy

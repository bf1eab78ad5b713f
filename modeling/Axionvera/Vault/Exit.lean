import Axionvera.Vault.Principal

/-! # Exit liquidity

`withdraw` pays no rewards, but it settles those of the user first, with checked
arithmetic. So whether a withdrawal that is due goes through depends on the
reward state in one way: the settlement has to fit the machine's integers. -/
namespace Axionvera.Vault.Exit
open Axionvera.Lib.Host Axionvera.Lib.MachineInt
open Axionvera.Vault.Types Axionvera.Vault.Storage Axionvera.Vault.Contract Axionvera.Vault.Chain
open Axionvera.Vault.Accounts Axionvera.Vault.StorageSpec Axionvera.Vault.Effects
open Axionvera.Vault.Refinement Axionvera.Vault.Principal

variable {τ : Type}

/-- Two states of one vault that differ in nothing but rewards: reward indices,
accrued rewards and reward timestamps are not mentioned. -/
structure SamePrincipal (w₁ w₂ : World τ) : Prop where
  liquid : ∀ u, liquid w₁.storage u = liquid w₂.storage u
  locks : ∀ u, locks w₁.storage u = locks w₂.storage u
  assetBalance : ∀ a u, (position w₁.storage (.asset a) u).balance =
    (position w₂.storage (.asset a) u).balance
  total : ∀ p, poolTotal w₁.storage p = poolTotal w₂.storage p
  depositToken : w₁.storage.depositToken = w₂.storage.depositToken
  tokens : w₁.tokens = w₂.tokens
  timestamp : w₁.timestamp = w₂.timestamp

/-- The withdrawal is due: asked for by the user, covered by what is liquid or
expired, and the deposit token makes the transfer. -/
structure Due (D : Deployment τ) (env : Env) (w : World τ) (u : Address) (amount : Int) : Prop where
  positive : 0 < amount
  signed : env.auths u = true
  covered : amount ≤ withdrawable w.timestamp w.storage u
  transfers : ∃ token tokens, w.storage.depositToken = some token ∧
    D.transfer w.tokens token env.currentContract u amount = some tokens

/-- The call succeeds. -/
def Succeeds (D : Deployment τ) (env : Env) (w : World τ) (call : Call) : Prop :=
  ∃ value w', Returns (exec D.client call) env w value w'

section Withdrawals
variable {D : Deployment τ} {env : Env} {w w' w₁ w₂ : World τ} {u : Address} {amount : I128}

theorem withdraw_succeeds_iff (hr : Ready w.storage) (hp : w.storage.isPaused ≠ some true) :
    Succeeds D env w (.withdraw u amount) ↔
      Due D env w u amount.val ∧ AccrualFits w.storage .legacy u := by
  refine ⟨?_, ?_⟩
  · intro hsucc
    obtain ⟨value, w', hret⟩ := hsucc
    cases effect_of_returns hr hret with
    | withdraw _ h0 hauth htok hfit hle htr => exact ⟨⟨h0, hauth, hle, _, _, htok, htr⟩, hfit⟩
  · intro hdue
    obtain ⟨⟨h0, hauth, hle, token, tokens, htok, htr⟩, hfit⟩ := hdue
    exact ⟨_, _, returns_of_effect hr (.withdraw hp h0 hauth htok hfit hle htr)⟩

theorem SamePrincipal.withdrawable (h : SamePrincipal w₁ w₂) (u : Address) :
    Accounts.withdrawable w₁.timestamp w₁.storage u =
      Accounts.withdrawable w₂.timestamp w₂.storage u := by
  unfold Accounts.withdrawable
  rw [h.liquid, h.locks, h.timestamp]

theorem SamePrincipal.due_iff (h : SamePrincipal w₁ w₂) {amount : Int} :
    Due D env w₁ u amount ↔ Due D env w₂ u amount := by
  have hw := h.withdrawable u
  refine ⟨?_, ?_⟩
  · intro hdue
    obtain ⟨h0, hauth, hle, htr⟩ := hdue
    rw [h.tokens, h.depositToken] at htr
    exact ⟨h0, hauth, hw ▸ hle, htr⟩
  · intro hdue
    obtain ⟨h0, hauth, hle, htr⟩ := hdue
    rw [← h.tokens, ← h.depositToken] at htr
    exact ⟨h0, hauth, hw ▸ hle, htr⟩

/-- What a withdrawal leaves is fixed by the principal it finds. -/
theorem SamePrincipal.of_withdraw (h : SamePrincipal w₁ w₂) {v₁ v₂ : Value} {w₁' w₂' : World τ}
    (h₁ : Effect D env w₁ (.withdraw u amount) v₁ w₁')
    (h₂ : Effect D env w₂ (.withdraw u amount) v₂ w₂') : SamePrincipal w₁' w₂' := by
  have hw := h.withdrawable u
  have hlegacy := h.total .legacy
  have hconfig₁ := congrArg Config.depositToken (configOf_of_effect h₁)
  have hconfig₂ := congrArg Config.depositToken (configOf_of_effect h₂)
  have htoken : w₁'.storage.depositToken = w₂'.storage.depositToken :=
    hconfig₁.trans (h.depositToken.trans hconfig₂.symm)
  cases h₁ with
  | @withdraw _ token₁ _ tokens₁ _ _ _ htok₁ _ _ htr₁ =>
  cases h₂ with
  | @withdraw _ token₂ _ tokens₂ _ _ _ htok₂ _ _ htr₂ =>
  -- the asset pools are out of a withdrawal's reach
  refine ⟨?_, ?_, h.assetBalance, ?_, htoken, ?_, h.timestamp⟩
  · intro v
    simp only [moved, liquid_afterWithdraw, hw, h.liquid]
  · intro v
    simp only [moved, locks_afterWithdraw, h.locks, h.timestamp]
  · intro p
    cases p with
    | legacy => exact congrArg (· - amount.val) hlegacy
    | asset a => exact h.total (.asset a)
  · obtain rfl : token₁ = token₂ :=
      Option.some.inj (htok₁.symm.trans (h.depositToken.trans htok₂))
    rw [h.tokens] at htr₁
    exact Option.some.inj (htr₁.symm.trans htr₂)

/-- Two reachable states with the same principal, both paused or neither. -/
structure Twins (D : Deployment τ) (w₁ w₂ : World τ) : Prop where
  left : Reachable D w₁
  right : Reachable D w₂
  same : SamePrincipal w₁ w₂
  paused : w₁.storage.isPaused = w₂.storage.isPaused

/-- Tokens that are distributed could have been sent to the vault undistributed,
with the same principal after it. -/
theorem Twins.distribute (hD : D.Lawful) (h : Twins D w₁ w₂) {value : Value}
    (hc : env.currentContract = D.contract)
    (hret : Returns (exec D.client (.distributeRewards amount)) env w₁ value w') :
    Twins D w' { w₂ with tokens := w'.tokens } := by
  have hsame := h.same
  have hstep : ChainStep D w₁ _ w' := .ok hc hret
  have heff := effect_of_returns (ready_of_reachable h.left) hret
  have hbalance : ∀ k, D.balance w₂.tokens k D.contract ≤ D.balance w'.tokens k D.contract := by
    intro k
    cases heff with
    | @distributeRewards admin token _ tokens hmin _ hauth _ htr =>
      have h0 : 0 ≤ amount.val := le_trans (by decide) hmin
      rw [hc] at htr
      have hin := hD.incoming htr (ne_contract_of_auths hc hauth) k
      rw [hsame.tokens] at hin
      refine (le_add_of_nonneg_right ?_).trans_eq hin.symm
      split
      · exact h0
      · exact le_rfl
  have hright : ChainStep D w₂ .outside { w₂ with tokens := w'.tokens } :=
    .outside le_rfl hbalance
  refine ⟨h.left.step hstep, h.right.step hright, ?_, ?_⟩
  · cases heff with
    | distributeRewards =>
      exact ⟨hsame.liquid, hsame.locks, hsame.assetBalance, hsame.total, hsame.depositToken, rfl,
        hsame.timestamp⟩
  · cases heff with
    | distributeRewards => exact h.paused

end Withdrawals

/-- Two units deposited, with much to distribute. -/
def stakedWorld : World Bank :=
  (session (10 ^ 30) plainOpening [(10, .deposit alice 2)]).2

/-- The vault after a distribution that the two units earn. -/
def distributeTo (w : World Bank) : World Bank :=
  invoke (exec bank.client (.distributeRewards 100000000000000000000000000000)) openEnv w

theorem twins_distributeTo {w₁ w₂ : World Bank} (h : Twins bank w₁ w₂)
    (hok : (exec bank.client (.distributeRewards 100000000000000000000000000000) openEnv w₁).isOk = true) :
    Twins bank (distributeTo w₁) { w₂ with tokens := (distributeTo w₁).tokens } := by
  obtain ⟨_, hret⟩ := returns_of_isOk hok
  exact h.distribute (bankDeployment_lawful vaultAddress) rfl hret

theorem twins_staked : Twins bank stakedWorld stakedWorld := by
  have hreach := session_reachable (10 ^ 30) plainOpening (rfl)
    [(10, .deposit alice 2)]
  exact ⟨hreach, hreach, ⟨fun _ => rfl, fun _ => rfl, fun _ _ => rfl, fun _ => rfl, rfl, rfl, rfl⟩, rfl⟩

theorem twins_once : Twins bank (distributeTo stakedWorld)
    { stakedWorld with tokens := (distributeTo stakedWorld).tokens } :=
  twins_distributeTo twins_staked (rfl)

section Independence
variable {D : Deployment τ} {w₁ w₂ : World τ}

/-- **When a withdrawal is independent of the reward state.** In two reachable,
unpaused states with the same principal it succeeds in both or in neither, with
the same effect on the principal, exactly when the settlement of the user fits
in both states or in neither, or the withdrawal is not due anyway. -/
theorem withdraw_independent_iff (h₁ : Reachable D w₁) (h₂ : Reachable D w₂)
    (hp₁ : w₁.storage.isPaused ≠ some true) (hp₂ : w₂.storage.isPaused ≠ some true)
    (h : SamePrincipal w₁ w₂) (env : Env) (u : Address) (amount : I128) :
    ((Succeeds D env w₁ (.withdraw u amount) ↔ Succeeds D env w₂ (.withdraw u amount)) ∧
      ∀ v₁ w₁' v₂ w₂', Returns (exec D.client (.withdraw u amount)) env w₁ v₁ w₁' →
        Returns (exec D.client (.withdraw u amount)) env w₂ v₂ w₂' → SamePrincipal w₁' w₂') ↔
    ((AccrualFits w₁.storage .legacy u ↔ AccrualFits w₂.storage .legacy u) ∨
      ¬ Due D env w₁ u amount.val) := by
  have hr₁ := ready_of_reachable h₁
  have hr₂ := ready_of_reachable h₂
  have hsame : ∀ v₁ w₁' v₂ w₂', Returns (exec D.client (.withdraw u amount)) env w₁ v₁ w₁' →
      Returns (exec D.client (.withdraw u amount)) env w₂ v₂ w₂' → SamePrincipal w₁' w₂' := by
    intro v₁ w₁' v₂ w₂' hret₁ hret₂
    exact h.of_withdraw (effect_of_returns hr₁ hret₁) (effect_of_returns hr₂ hret₂)
  rw [and_iff_left hsame, withdraw_succeeds_iff hr₁ hp₁, withdraw_succeeds_iff hr₂ hp₂,
    ← h.due_iff]
  by_cases hdue : Due D env w₁ u amount.val
  · simp only [hdue, true_and, not_true_eq_false, or_false]
  · simp only [hdue, false_and, not_false_eq_true, or_true]

end Independence

/-- One distribution leaves the withdrawal as it was. -/
theorem withdraw_independent_iff_once :
    pending (distributeTo stakedWorld).storage .legacy alice = 10 ^ 29 ∧
    (Succeeds bank openEnv (distributeTo stakedWorld) (.withdraw alice 1) ↔
      Succeeds bank openEnv { stakedWorld with tokens := (distributeTo stakedWorld).tokens }
        (.withdraw alice 1)) := by
  have h := twins_once
  have hfits₁ : AccrualFits (distributeTo stakedWorld).storage .legacy alice :=
    ⟨by decide +kernel, by decide +kernel⟩
  have hfits₂ : AccrualFits stakedWorld.storage .legacy alice :=
    ⟨by decide +kernel, by decide +kernel⟩
  refine ⟨rfl, ?_⟩
  exact ((withdraw_independent_iff h.left h.right (by decide +kernel) (by decide +kernel) h.same
    openEnv alice 1).mpr (Or.inl (iff_of_true hfits₁ hfits₂))).1

/-- After a second distribution the settlement does not fit and the withdrawal
fails, though nothing but rewards has changed. -/
theorem withdraw_blocked_by_rewards : ∃ w₁ w₂ : World Bank, Reachable bank w₁ ∧ Reachable bank w₂ ∧
    w₁.storage.isPaused ≠ some true ∧ w₂.storage.isPaused ≠ some true ∧ SamePrincipal w₁ w₂ ∧
    Succeeds bank openEnv w₂ (.withdraw alice 1) ∧
    ¬ Succeeds bank openEnv w₁ (.withdraw alice 1) := by
  have h := twins_distributeTo twins_once (by decide +kernel)
  refine ⟨_, _, h.left, h.right, by decide +kernel, by decide +kernel, h.same, ?_, ?_⟩
  · obtain ⟨value, hret⟩ := returns_of_isOk
      (show (exec bank.client (.withdraw alice 1) openEnv { stakedWorld with
        tokens := (distributeTo (distributeTo stakedWorld)).tokens }).isOk = true from rfl)
    exact ⟨value, _, hret⟩
  · intro hsucc
    obtain ⟨value, w', hret⟩ := hsucc
    have hfails : (exec bank.client (.withdraw alice 1) openEnv
        (distributeTo (distributeTo stakedWorld))).isOk = false := rfl
    rw [hret] at hfails
    cases hfails

/-! ## Why a withdrawal fails -/

section Outcomes
variable {D : Deployment τ} {w : World τ}

/-- **The two errors of a withdrawal.** In a reachable state it overflows exactly
when the settlement of the user does, lacks balance exactly when what is liquid
and the first five expired locks do not cover it, and is made otherwise: no other
checked operation on its way can fail. -/
theorem store_withdraw_outcome (hr : Reachable D w) (now : Nat) (u : Address) (amount : I128)
    (h0 : 0 < amount.val) :
    let s := w.storage
    let b := liquid s u + locked s u
    let d := s.rewardIndex.getD 0 - s.userRewardIndex.getD u 0
    let c := b * d / 1000000000
    let accrued := s.userAccruedRewards.getD u 0
    let expired := (locks s u).filter fun l => decide (l.unlockTimestamp ≤ now)
    let avail := liquid s u + lockSum (expired.take 5)
    let overflows := i128Max < b * d ∨ i128Max < accrued + c
    ((∃ t, storeWithdraw u amount.val now s = .err .mathOverflow t) ↔ overflows) ∧
    (¬ overflows →
      ((∃ t, storeWithdraw u amount.val now s = .err .insufficientBalance t) ↔ avail < amount.val) ∧
      (amount.val ≤ avail → ∃ state position t,
        storeWithdraw u amount.val now s = .ok (state, position) t ∧
        liquid t u = avail - amount.val ∧
        liquid t u + locked t u = b - amount.val ∧ position.balance = b - amount.val ∧
        t.totalDeposits = some (s.totalDeposits.getD 0 - amount.val) ∧
        state.totalDeposits = s.totalDeposits.getD 0 - amount.val)) := by
  intro s b d c accrued expired avail overflows
  have hready := ready_of_reachable hr
  obtain ⟨st, hst⟩ := hready.state
  have havail : avail = withdrawable now s u := by
    show liquid s u + lockSum (expired.take 5) = _
    rw [withdrawable, released_eq_take]
    rfl
  have hfits : ¬ overflows ↔ AccrualFits s .legacy u := by
    refine ⟨?_, ?_⟩
    · intro h
      obtain ⟨hproduct, hpending⟩ := not_or.mp h
      exact ⟨not_lt.mp hproduct, not_lt.mp hpending⟩
    · intro h hover
      rcases hover with hover | hover
      · exact absurd h.product (not_le.mpr hover)
      · exact absurd h.pending (not_le.mpr hover)
  rw [havail]
  rcases storeWithdraw_cases hready.sound hst h0.le now u with
    ⟨hfit, heq⟩ | ⟨hfit, hlt, heq⟩ | ⟨hfit, hle, heq⟩
  · have hover : overflows := not_not.mp (mt hfits.mp hfit)
    exact ⟨iff_of_true ⟨_, heq⟩ hover, fun hnot => absurd hover hnot⟩
  · refine ⟨iff_of_false ?_ (hfits.mpr hfit), fun _ => ⟨iff_of_true ⟨_, heq⟩ hlt, ?_⟩⟩
    · intro h
      obtain ⟨t, h⟩ := h
      cases heq.symm.trans h
    · intro hle
      exact absurd hlt (not_lt.mpr hle)
  · refine ⟨iff_of_false ?_ (hfits.mpr hfit), fun _ => ⟨iff_of_false ?_ (not_lt.mpr hle), fun _ => ?_⟩⟩
    · intro h
      obtain ⟨t, h⟩ := h
      cases heq.symm.trans h
    · intro h
      obtain ⟨t, h⟩ := h
      cases heq.symm.trans h
    · refine ⟨_, _, _, heq, ?_, balance_afterWithdraw, rfl, rfl, rfl⟩
      rw [liquid_afterWithdraw, if_pos rfl]

end Outcomes

/-- Ten units, six of them behind a lock that has expired when nine are asked
for. -/
theorem store_withdraw_outcome_expired : ∃ w : World Bank, liquid w.storage alice = 4 ∧
    ∃ state position t, storeWithdraw alice 9 16 w.storage = .ok (state, position) t ∧
      liquid t alice = 1 := by
  have hreach := session_reachable 1000 plainOpening plainOpening_isOk
    [(10, .deposit alice 10), (11, .lock alice 6 5)]
  obtain ⟨state, position, t, heq, hliquid, _⟩ :=
    ((store_withdraw_outcome hreach 16 alice 9 (by decide)).2 (by decide +kernel)).2
      (by decide +kernel)
  exact ⟨_, rfl, state, position, t, heq, hliquid.trans (rfl)⟩

end Axionvera.Vault.Exit

import Axionvera.Vault.BankRun
import Axionvera.Vault.Ordering

/-! # Nothing is gained on the way through

What a user has of a token is what they hold outside the vault and what the
vault owes them (`wealth`). Over every run in which tokens move through the vault
only, it changes by rewards alone: by those paid to the user and those that the
user, as the administrator, has distributed (`wealth_conserved`). Within one
ledger, what a user puts into a pool and takes out counts by its sum only
(`batch_nets`), and what was just put in can be taken out again (`roundtrip`). -/
namespace Axionvera.Vault.Wealth
open Axionvera.Lib.Host Axionvera.Lib.KeyValue Axionvera.Lib.MachineInt Axionvera.Lib.Transition
open Axionvera.Lib.RewardPool
open Axionvera.Vault.Types Axionvera.Vault.Storage Axionvera.Vault.Contract Axionvera.Vault.Chain
open Axionvera.Vault.Accounts Axionvera.Vault.StorageSpec Axionvera.Vault.Effects
open Axionvera.Vault.Refinement Axionvera.Vault.Principal Axionvera.Vault.BankRun
open Axionvera.Vault.Ordering (shift balance_of_transfer)

variable {τ : Type} {D : Deployment τ} {env : Env} {w w₁ w' : World τ} {h : List (Entry τ)}
variable {call : Call} {value : Value} {e : Entry τ} {p : PoolId} {u t : Address}

/-! ## Rewards are the only income -/

/-- The reward tokens that a step of the chain brings to `u`, and those that `u`
spends on it as the administrator. -/
def income (u : Address) : Entry τ → Int
  | .ok _ (.claimRewards v) _ value => if v = u then amountOf value else 0
  | .ok _ (.claimRewardsForAsset v _) _ value => if v = u then amountOf value else 0
  | .ok _ (.distributeRewards amount) pre _ => if pre.storage.admin = some u then -amount.val else 0
  | .ok _ (.distributeRewardsForAsset admin _ amount) _ _ => if admin = u then -amount.val else 0
  | _ => 0

/-- A step of the chain in which tokens move through the vault only. -/
def ClosedStep (D : Deployment τ) (w : World τ) (e : Entry τ) (w' : World τ) : Prop :=
  ChainStep D w e w' ∧ (e = .outside → w'.tokens = w.tokens)

theorem owed_of_effect (hs : Sound w.storage) (heff : Effect D env w call value w') (t u : Address) :
    owed w'.storage t u = owed w.storage t u +
      ((if w.storage.depositToken = some t then (callMove w value .legacy call).staked u else 0) +
        (callMove w value (.asset t) call).staked u) := by
  have hbalance : ∀ p, (position w'.storage p u).balance = (position w.storage p u).balance +
      (callMove w value p call).staked u := fun p => (effect_step hs heff p).balance_eq u
  have hconfig : w'.storage.depositToken = w.storage.depositToken :=
    congrArg Config.depositToken (configOf_of_effect heff)
  rw [owed, owed, hconfig, hbalance, hbalance]
  split
  · omega
  · omega

/-- What a transfer between a user and the vault does to the user. -/
theorem balance_of_incoming (hD : D.Lawful) (hu : u ≠ D.contract) {tokens tokens' : τ}
    {token v : Address} {amount : Int} {o : Option Address} (ho : o = some token)
    (htr : D.transfer tokens token v D.contract amount = some tokens') (t : Address) :
    D.balance tokens' t u = D.balance tokens t u - if o = some t then if v = u then amount else 0 else 0 := by
  rw [hD.transfer_exact _ _ _ _ _ _ htr t u, if_neg fun hk => hu hk.2, ho]
  simp only [Option.some.injEq, eq_comm (a := token), eq_comm (a := v), ite_and, add_zero]

theorem balance_of_outgoing (hD : D.Lawful) (hu : u ≠ D.contract) {tokens tokens' : τ}
    {token v : Address} {amount : Int} {o : Option Address} (ho : o = some token)
    (htr : D.transfer tokens token D.contract v amount = some tokens') (t : Address) :
    D.balance tokens' t u = D.balance tokens t u + if o = some t then if v = u then amount else 0 else 0 := by
  rw [hD.transfer_exact _ _ _ _ _ _ htr t u, if_neg (fun hk => hu hk.2 : ¬ (t = token ∧ u = D.contract)),
    ho, sub_zero]
  simp only [Option.some.injEq, eq_comm (a := token), eq_comm (a := v), ite_and]

theorem balance_of_paid (hD : D.Lawful) (hu : u ≠ D.contract) (hc : env.currentContract = D.contract)
    {v : Address} {paid : Int} {tokens : τ} (hpay : Pays D env w v paid tokens) (t : Address) :
    D.balance tokens t u = D.balance w.tokens t u +
      if w.storage.rewardToken = some t then if v = u then paid else 0 else 0 := by
  cases hpay with
  | nothing => simp
  | payout _ htok _ htr => exact balance_of_outgoing hD hu htok (hc ▸ htr) t

section Books
attribute [local simp] moved callMove income

/-- **A call moves wealth by rewards only.** -/
theorem wealth_of_effect (hD : D.Lawful) (hs : Sound w.storage) (hu : u ≠ D.contract)
    (hc : env.currentContract = D.contract) (heff : Effect D env w call value w') (t : Address) :
    wealth D w' t u = wealth D w t u +
      if w.storage.rewardToken = some t then income u (.ok env call w value) else 0 := by
  rw [wealth, wealth, owed_of_effect hs heff]
  cases heff with
  | deposit _ _ _ htok htr =>
    have hin := balance_of_incoming hD hu htok (hc ▸ htr) t
    simp [hin]
  | withdraw _ _ _ htok _ _ htr =>
    have hout := balance_of_outgoing hD hu htok (hc ▸ htr) t
    simp only [moved, hout, callMove, if_true, Move.staked_touch, reduceCtorEq, if_false,
      Move.staked_idle, add_zero, income, ite_self]
    split_ifs <;> omega
  | depositAsset _ _ _ _ htr =>
    have hin := balance_of_incoming hD hu rfl (hc ▸ htr) t
    simp [hin, eq_comm (a := t)]
  | withdrawAsset _ _ _ _ _ _ htr =>
    have hout := balance_of_outgoing hD hu rfl (hc ▸ htr) t
    simp only [moved, hout, Option.some.injEq, callMove, reduceCtorEq, if_false, Move.staked_idle,
      ite_self, PoolId.asset.injEq, eq_comm (a := t), Move.staked_ite, Move.staked_touch, zero_add,
      income, add_zero]
    split_ifs <;> omega
  | distributeRewards _ ha _ htok htr =>
    have hin := balance_of_incoming hD hu htok (hc ▸ htr) t
    simp only [moved, hin, callMove, if_true, Move.staked_distribute, ite_self, reduceCtorEq,
      if_false, Move.staked_idle, add_zero, income, ha, Option.some.injEq]
    split_ifs <;> omega
  | distributeRewardsForAsset _ _ _ _ htok htr =>
    have hin := balance_of_incoming hD hu htok (hc ▸ htr) t
    simp only [moved, hin, callMove, reduceCtorEq, if_false, Move.staked_idle, ite_self,
      PoolId.asset.injEq, Move.staked_ite, Move.staked_distribute, add_zero, income]
    split_ifs <;> omega
  | claimRewards _ _ _ _ _ hpay =>
    have hout := balance_of_paid hD hu hc hpay t
    simp only [moved, hout, callMove, if_true, amountOf, Move.staked_touch, ite_self, reduceCtorEq,
      if_false, Move.staked_idle, add_zero, income]
    omega
  | claimRewardsForAsset _ _ _ _ _ _ hpay =>
    have hout := balance_of_paid hD hu hc hpay t
    simp only [moved, hout, callMove, reduceCtorEq, if_false, Move.staked_idle, ite_self,
      PoolId.asset.injEq, amountOf, Move.staked_ite, Move.staked_touch, add_zero, income]
    omega
  | _ => simp

end Books

theorem wealth_of_step (hD : D.Lawful) (hr : Ready w.storage) (hu : u ≠ D.contract)
    (hs : ClosedStep D w e w') (t : Address) : wealth D w' t u = wealth D w t u +
      if w.storage.rewardToken = some t then income u e else 0 := by
  obtain ⟨hs, hclosed⟩ := hs
  cases stepEffect_of_step hr hs with
  | call hc heff => exact wealth_of_effect hD hr.sound hu hc heff t
  | failed => simp [income]
  | outside =>
    have htokens := hclosed rfl
    simp only at htokens
    simp [income, wealth, htokens]

/-- **Rewards are the only income.** In a run in which tokens move through the
vault only, what a user holds and is owed of a token changes by nothing but the
rewards that are paid to them and that they distribute as the administrator. -/
theorem wealth_conserved (hD : D.Lawful) (hr : Reachable D w) (hu : u ≠ D.contract)
    (hrun : Run (ClosedStep D) w h w') (t : Address) : wealth D w' t u = wealth D w t u +
      if w.storage.rewardToken = some t then (h.map (income u)).sum else 0 := by
  have hchain : ∀ {h : List (Entry τ)} {w' : World τ}, Run (ClosedStep D) w h w' →
      Ready w'.storage ∧ w'.storage.rewardToken = w.storage.rewardToken := by
    intro h w' hrun
    refine hrun.invariant (I := fun w' => Ready w'.storage ∧
      w'.storage.rewardToken = w.storage.rewardToken) ⟨ready_of_reachable hr, rfl⟩ ?_
    intro w₁ e w₂ hw₁ hs
    have hconfig := congrArg Config.rewardToken (configOf_of_step hw₁.1 hs.1)
    exact ⟨ready_of_step hw₁.1 hs.1, hconfig.trans hw₁.2⟩
  induction hrun with
  | nil => simp
  | snoc hrun hs ih =>
    obtain ⟨hready, htoken⟩ := hchain hrun
    rw [wealth_of_step hD hready hu hs, htoken, ih, List.map_cons, List.sum_cons]
    split
    · omega
    · omega

theorem requestEntry_ne_outside (w : World τ) (q : Request) : requestEntry D w q ≠ .outside := by
  unfold requestEntry
  intro h
  simp only at h
  split at h
  · cases h
  · cases h
  · cases h

/-- Between requests nothing happens but time. -/
theorem runRequests_closed {w₀ : World τ} (qs : List Request)
    (hc : ∀ q ∈ qs, q.env.currentContract = D.contract) (hr : Run (ClosedStep D) w₀ h w) :
    Run (ClosedStep D) w₀ (runRequests D h w qs).1 (runRequests D h w qs).2 := by
  induction qs generalizing h w with
  | nil => exact hr
  | cons q qs ih =>
    have hwait : ClosedStep D w .outside { w with timestamp := max w.timestamp q.timestamp } :=
      ⟨.outside (le_max_left _ _) fun _ => le_rfl, fun _ => rfl⟩
    have hcall : ClosedStep D _ (requestEntry D w q) (runRequest D w q) :=
      ⟨runRequest_step D w q (hc q List.mem_cons_self), fun he => absurd he (requestEntry_ne_outside w q)⟩
    exact ih (fun q' hq' => hc q' (List.mem_cons_of_mem q hq')) ((hr.snoc hwait).snoc hcall)

/-- Alice stakes, earns, claims and takes part of the stake out. -/
def stakingCalls : List (Nat × Call) :=
  [(10, .deposit alice 100), (20, .deposit bob 50), (30, .distributeRewards 150000),
    (40, .claimRewards alice), (50, .withdraw alice 30)]

theorem wealth_conserved_staking :
    let w' := (session 1000000 plainOpening stakingCalls).2
    bank.balance w'.tokens depositToken alice = 999930 ∧
      wealth bank w' depositToken alice = 1000000 ∧ wealth bank w' rewardToken alice = 1100000 ∧
      wealth bank w' rewardToken adminAddress = 850000 := by
  have hrun : Run (ClosedStep bank) (opened 1000000 plainOpening) _ _ :=
    runRequests_closed (stakingCalls.map fun c => ⟨openEnv, c.1, c.2⟩) (by
      intro q hq
      obtain ⟨c, _, rfl⟩ := List.mem_map.mp hq
      rfl) .nil
  have hr : Reachable bank (opened 1000000 plainOpening) :=
    session_reachable 1000000 plainOpening rfl []
  have hwealth := fun u hu => wealth_conserved (u := u) (bankDeployment_lawful _) hr hu hrun
  exact ⟨rfl, (hwealth alice (by decide) depositToken).trans rfl,
    (hwealth alice (by decide) rewardToken).trans rfl,
    (hwealth adminAddress (by decide) rewardToken).trans rfl⟩

/-! ## Deposits and withdrawals in one ledger -/

def depositCall : PoolId → Address → I128 → Call
  | .legacy, u, amount => .deposit u amount
  | .asset a, u, amount => .depositAsset u a amount

def withdrawCall : PoolId → Address → I128 → Call
  | .legacy, u, amount => .withdraw u amount
  | .asset a, u, amount => .withdrawAsset u a amount

/-- What was deposited or withdrawn at one time by one user. -/
inductive Shift (D : Deployment τ) (p : PoolId) (u : Address) (w : World τ) : Int → World τ → Prop
  | deposit {env : Env} {amount : I128} {value : Value} {w' : World τ} :
      env.currentContract = D.contract →
      Returns (exec D.client (depositCall p u amount)) env w value w' → Shift D p u w amount.val w'
  | withdraw {env : Env} {amount : I128} {value : Value} {w' : World τ} :
      env.currentContract = D.contract →
      Returns (exec D.client (withdrawCall p u amount)) env w value w' →
      Shift D p u w (-amount.val) w'

/-- What is moved in one ledger: a pool is touched once, and one token changes
hands. -/
structure Moved (D : Deployment τ) (p : PoolId) (u : Address) (amount : Int) (w w' : World τ) :
    Prop where
  pool : pool w'.storage p = (pool w.storage p).touch REWARD_INDEX_SCALE u amount 0 w.timestamp
  others : ∀ q, q ≠ p → Accounts.pool w'.storage q = Accounts.pool w.storage q
  token : tokenOf w'.storage p = tokenOf w.storage p
  balance : ∀ k a, D.balance w'.tokens k a =
    D.balance w.tokens k a + shift (tokenOf w.storage p) u D.contract amount k a
  timestamp : w'.timestamp = w.timestamp

theorem shift_neg (o : Option Address) (src dst : Address) (amount : Int) (k a : Address) :
    shift o src dst (-amount) k a = shift o dst src amount k a := by
  unfold shift
  split_ifs <;> omega

theorem shift_add (o : Option Address) (src dst : Address) (x y : Int) (k a : Address) :
    shift o src dst x k a + shift o src dst y k a = shift o src dst (x + y) k a := by
  unfold shift
  split_ifs <;> omega

theorem Moved.trans {x y : Int} {w₂ : World τ} (h : Moved D p u x w w₁) (h' : Moved D p u y w₁ w₂) :
    Moved D p u (x + y) w w₂ where
  pool := by rw [h'.pool, h.pool, h.timestamp, touch_touch]
  others q hq := (h'.others q hq).trans (h.others q hq)
  token := h'.token.trans h.token
  balance k a := by rw [h'.balance, h.balance, h.token, add_assoc, shift_add]
  timestamp := h'.timestamp.trans h.timestamp

theorem moved_of_deposit (hD : D.Lawful) (hr : Ready w.storage) {amount : I128}
    (hc : env.currentContract = D.contract)
    (hret : Returns (exec D.client (depositCall p u amount)) env w value w') :
    Moved D p u amount.val w w' := by
  cases p with
  | legacy =>
    cases effect_of_returns hr hret with
    | deposit _ _ _ htok htr =>
      rw [hc] at htr
      exact ⟨pool_afterDeposit, other_of_legacy fun _ => rfl, rfl, balance_of_transfer hD htok htr, rfl⟩
  | asset a =>
    cases effect_of_returns hr hret with
    | depositAsset _ _ _ _ htr =>
      rw [hc] at htr
      exact ⟨pool_afterAssetMove, other_of_asset rfl fun _ => pool_afterAssetMove_other, rfl,
        balance_of_transfer hD rfl htr, rfl⟩

theorem moved_of_withdraw (hD : D.Lawful) (hr : Ready w.storage) {amount : I128}
    (hc : env.currentContract = D.contract)
    (hret : Returns (exec D.client (withdrawCall p u amount)) env w value w') :
    Moved D p u (-amount.val) w w' := by
  cases p with
  | legacy =>
    cases effect_of_returns hr hret with
    | withdraw _ _ _ htok _ _ htr =>
      rw [hc] at htr
      refine ⟨pool_afterWithdraw, other_of_legacy fun _ => rfl, rfl, fun k a => ?_, rfl⟩
      rw [shift_neg]
      exact balance_of_transfer hD htok htr k a
  | asset a =>
    cases effect_of_returns hr hret with
    | withdrawAsset _ _ _ _ _ _ htr =>
      rw [hc] at htr
      refine ⟨pool_afterAssetMove, other_of_asset rfl fun _ => pool_afterAssetMove_other, rfl,
        fun k b => ?_, rfl⟩
      rw [shift_neg]
      exact balance_of_transfer hD rfl htr k b

theorem moved_of_shift (hD : D.Lawful) (hr : Ready w.storage) {amount : Int}
    (hs : Shift D p u w amount w') : Moved D p u amount w w' := by
  cases hs with
  | deposit hc hret => exact moved_of_deposit hD hr hc hret
  | withdraw hc hret => exact moved_of_withdraw hD hr hc hret

theorem reachable_of_shift (hr : Reachable D w) {amount : Int} (hs : Shift D p u w amount w') :
    Reachable D w' := by
  cases hs with
  | deposit hc hret => exact hr.step (.ok hc hret)
  | withdraw hc hret => exact hr.step (.ok hc hret)

/-- **Only the net amount counts.** However a user splits what they put into a
pool and take out of it in one ledger, it is one move of the sum: the pool is
settled and moved once, the other pools stay, and the sum changes hands. -/
theorem batch_nets (hD : D.Lawful) (hr : Reachable D w) {amounts : List Int} (hne : amounts ≠ [])
    (hrun : Run (Shift D p u) w amounts w') : Moved D p u amounts.sum w w' := by
  induction hrun with
  | nil => exact absurd rfl hne
  | @snoc earlier w₁ w₂ amount hrun hs ih =>
    have hr₁ : Reachable D w₁ := hrun.invariant hr fun _ _ _ hi hs => reachable_of_shift hi hs
    have hlast := moved_of_shift hD (ready_of_reachable hr₁) hs
    rw [List.sum_cons]
    cases earlier with
    | nil =>
      cases hrun
      rwa [List.sum_nil, add_zero]
    | cons x rest =>
      rw [add_comm]
      exact (ih (List.cons_ne_nil x rest)).trans hlast

/-- Alice and bob have a stake and rewards. -/
def earning : World Bank :=
  (session 1000000 plainOpening [(10, .deposit bob 50), (20, .deposit alice 100),
    (30, .distributeRewards 150000)]).2

def afterCall (call : Call) (w : World Bank) : World Bank := invoke (exec bank.client call) openEnv w

theorem batch_nets_split :
    (position earning.storage .legacy alice).accruedRewards = 0 ∧
    Moved bank .legacy alice 50 earning
      (afterCall (.withdraw alice 20) (afterCall (.deposit alice 70) earning)) := by
  obtain ⟨_, h₁⟩ := returns_of_isOk (m := exec bank.client (.deposit alice 70)) (r := openEnv)
    (s := earning) rfl
  obtain ⟨_, h₂⟩ := returns_of_isOk (m := exec bank.client (.withdraw alice 20)) (r := openEnv)
    (s := afterCall (.deposit alice 70) earning) rfl
  have hin : Shift bank .legacy alice earning (70 : I128).val _ := .deposit rfl h₁
  have hout : Shift bank .legacy alice _ (-(20 : I128).val) _ := .withdraw rfl h₂
  have hmoved := batch_nets (bankDeployment_lawful _) (session_reachable 1000000 plainOpening rfl _)
    (List.cons_ne_nil _ _) (.snoc (.snoc .nil hin) hout)
  have hsum : [-(20 : I128).val, (70 : I128).val].sum = 50 := by decide
  rw [hsum] at hmoved
  exact ⟨rfl, hmoved⟩

/-! ## In and out again -/

/-- A state that differs from another of the same time in settlements only. -/
structure Restored (D : Deployment τ) (w w' : World τ) : Prop where
  total : ∀ q, poolTotal w'.storage q = poolTotal w.storage q
  index : ∀ q, poolIndex w'.storage q = poolIndex w.storage q
  settled : ∀ q v, settled w.timestamp w'.storage q v = settled w.timestamp w.storage q v
  balance : ∀ k a, D.balance w'.tokens k a = D.balance w.tokens k a

theorem toAccount_settled (now : Nat) (s : Storage) (p : PoolId) (u : Address) :
    toAccount (settled now s p u) =
      ((pool s p).account u).settle REWARD_INDEX_SCALE (pool s p).index now := rfl

theorem Moved.restored (h : Moved D p u 0 w w') : Restored D w w' where
  total q := by
    by_cases hq : q = p
    · subst hq
      exact (congrArg Pool.total h.pool).trans (add_zero _)
    · exact congrArg Pool.total (h.others q hq)
  index q := by
    by_cases hq : q = p
    · subst hq
      exact congrArg Pool.index h.pool
    · exact congrArg Pool.index (h.others q hq)
  settled q v := by
    refine toAccount_injective ?_
    rw [toAccount_settled, toAccount_settled]
    by_cases hq : q = p
    · subst hq
      rw [h.pool, settle_touch_zero]
    · rw [h.others q hq]
  balance k a := by
    rw [h.balance, shift]
    simp

/-- A settled account has room for its settlement. -/
theorem fits_of_moved {amount : Int} (hfit : AccrualFits w.storage p u)
    (hm : Moved D p u amount w w') : AccrualFits w'.storage p u := by
  have haccount := congrArg (fun P => P.account u) hm.pool
  rw [touch_account_self] at haccount
  have hindex : (position w'.storage p u).rewardIndex = poolIndex w.storage p :=
    congrArg Account.index haccount
  have hpool : poolIndex w'.storage p = poolIndex w.storage p := congrArg Pool.index hm.pool
  have hpending : pending w'.storage p u = pending w.storage p u := by
    rw [pending, hm.pool, pending_touch_self, sub_zero]
    rfl
  refine ⟨?_, hpending.trans_le hfit.pending⟩
  rw [hindex, hpool, sub_self, mul_zero]
  decide

/-- What has come in for a deposit can be sent back. -/
theorem sendable_of_deposit (hD : D.Lawful) (hsend : Sends D) {tokens tokens' : τ}
    {token : Address} {amount : I128} (h0 : 0 < amount.val) (hu : u ≠ D.contract)
    (htr : D.transfer tokens token u D.contract amount.val = some tokens') :
    ∃ tokens'', D.transfer tokens' token D.contract u amount.val = some tokens'' := by
  refine hsend tokens' token u amount.val h0.le ?_
  have hheld := hD.balance_nonneg tokens token D.contract
  rw [hD.incoming htr hu token, if_pos rfl]
  omega

/-- **What was just put in can be taken out again.** After a successful deposit
the same user's withdrawal of the same amount in the same ledger succeeds, unless
the token refuses, and leaves every token balance, every pool and every settled
position as they were. -/
theorem roundtrip (hD : D.Lawful) (hsend : Sends D) (hr : Reachable D w)
    (hc : env.currentContract = D.contract) {amount : I128}
    (hdeposit : Returns (exec D.client (depositCall p u amount)) env w value w₁) :
    ∃ w₂, Returns (exec D.client (withdrawCall p u amount)) env w₁ .unit w₂ ∧ Restored D w w₂ := by
  have hready := ready_of_reachable hr
  have hready₁ := ready_of_reachable (hr.step (.ok hc hdeposit))
  have hin := moved_of_deposit hD hready hc hdeposit
  have hwithdraw : ∃ w₂, Returns (exec D.client (withdrawCall p u amount)) env w₁ .unit w₂ := by
    have heff := effect_of_returns hready hdeposit
    cases p with
    | legacy =>
      cases heff with
      | deposit hp h0 hauth htok htr hfit =>
        rw [hc] at htr
        obtain ⟨tokens, hback⟩ := sendable_of_deposit hD hsend h0 (ne_contract_of_auths hc hauth) htr
        have hle : amount.val ≤ withdrawable w.timestamp
            (afterDeposit w.timestamp u amount.val w.storage) u := by
          have hliquid := hready.sound.liquid_nonneg u
          have hreleased := lockSum_nonneg fun l hl => hready₁.sound.lock_pos u l
            (@mem_of_mem_released w.timestamp WITHDRAW_UNLOCK_LIMIT _ l hl)
          rw [withdrawable, liquid_afterDeposit, if_pos rfl]
          simp only [moved] at hreleased
          omega
        rw [← hc] at hback
        exact ⟨_, returns_of_effect hready₁
          (.withdraw hp h0 hauth htok (fits_of_moved hfit hin) hle hback)⟩
    | asset a =>
      cases heff with
      | depositAsset hp h0 hauth hsup htr hfit =>
        rw [hc] at htr
        obtain ⟨tokens, hback⟩ := sendable_of_deposit hD hsend h0 (ne_contract_of_auths hc hauth) htr
        have hle : amount.val ≤ (position (afterAssetMove w.timestamp u a amount.val w.storage)
            (.asset a) u).balance := by
          have hbalance := hready.sound.balance_nonneg (p := .asset a) (u := u)
          have haccount := congrArg (fun P => (P.account u).balance) hin.pool
          rw [touch_account_self] at haccount
          have hsum : (position (afterAssetMove w.timestamp u a amount.val w.storage)
              (.asset a) u).balance = (position w.storage (.asset a) u).balance + amount.val :=
            haccount
          omega
        rw [← hc] at hback
        exact ⟨_, returns_of_effect hready₁
          (.withdrawAsset hp h0 hauth hsup (fits_of_moved hfit hin) hle hback)⟩
  obtain ⟨w₂, hret⟩ := hwithdraw
  have hback := hin.trans (moved_of_withdraw hD hready₁ hc hret)
  rw [add_neg_cancel] at hback
  exact ⟨w₂, hret, hback.restored⟩

theorem roundtrip_asset :
    let w := (session 1000000 plainOpening [(10, .addAsset adminAddress alice),
      (20, .depositAsset bob alice 50), (30, .distributeRewardsForAsset adminAddress alice 150000)]).2
    ∃ w₁ w₂, Returns (exec bank.client (.depositAsset bob alice 70)) openEnv w .unit w₁ ∧
      Returns (exec bank.client (.withdrawAsset bob alice 70)) openEnv w₁ .unit w₂ ∧
      Restored bank w w₂ := by
  intro w
  obtain ⟨_, h₁⟩ := returns_of_isOk (m := exec bank.client (.depositAsset bob alice 70)) (r := openEnv)
    (s := w) rfl
  obtain ⟨w₂, h₂, hrestored⟩ := roundtrip (p := .asset alice) (bankDeployment_lawful _) bank_sends
    (session_reachable 1000000 plainOpening rfl _) rfl h₁
  obtain ⟨rfl, _⟩ := returns_then.mp h₁
  exact ⟨_, w₂, h₁, h₂, hrestored⟩

end Axionvera.Vault.Wealth

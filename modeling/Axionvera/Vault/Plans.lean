import Axionvera.Vault.Callbacks

/-! # What a call asks of token contracts

A call that turns to token contracts has a `Plan`, read off the world before the
call: what it writes first, what it asks, and what it writes once the tokens
have answered. The call is the plan carried out, also by tokens that call back:
what they can change in between changes nothing the plan depends on. -/
namespace Axionvera.Vault.Plans
open Axionvera.Lib.Host Axionvera.Lib.KeyValue Axionvera.Lib.MachineInt Axionvera.Lib.RewardPool
open Axionvera.Vault.Types Axionvera.Vault.Storage Axionvera.Vault.Contract Axionvera.Vault.Chain
open Axionvera.Vault.Accounts Axionvera.Vault.StorageSpec Axionvera.Vault.Effects
open Axionvera.Vault.Refinement Axionvera.Vault.Isolation Axionvera.Vault.Callbacks

variable {τ : Type}

/-! ## What interference leaves of the accounts -/

section Reading
variable {s t : Storage} {p : PoolId} {u a : Address} {now : Nat} {amount : Int}
variable (h : Interfered s t)
include h

theorem total_eq : poolTotal t p = poolTotal s p := congrArg Pool.total (h.pools p)

theorem index_eq : poolIndex t p = poolIndex s p := congrArg Pool.index (h.pools p)

theorem position_eq : position t p u = position s p u :=
  position_of_account (congrArg (fun P => P.account u) (h.pools p))

theorem pending_eq : pending t p u = pending s p u :=
  congrArg (fun P => P.pending REWARD_INDEX_SCALE u) (h.pools p)

theorem accrualFits_iff : AccrualFits t p u ↔ AccrualFits s p u := by
  refine ⟨?_, ?_⟩
  · intro hf
    exact ⟨by simpa only [position_eq h, index_eq h] using hf.product,
      by simpa only [pending_eq h] using hf.pending⟩
  · intro hf
    exact ⟨by simpa only [position_eq h, index_eq h] using hf.product,
      by simpa only [pending_eq h] using hf.pending⟩

theorem increment_eq : increment t p amount = increment s p amount := by
  simp only [increment, total_eq h]

theorem distributes_iff : Distributes t p amount ↔ Distributes s p amount := by
  refine ⟨?_, ?_⟩
  · intro hd
    exact ⟨by simpa only [total_eq h] using hd.total_pos, hd.product,
      by simpa only [increment_eq h] using hd.raises,
      by simpa only [increment_eq h, index_eq h] using hd.fits⟩
  · intro hd
    exact ⟨by simpa only [total_eq h] using hd.total_pos, hd.product,
      by simpa only [increment_eq h] using hd.raises,
      by simpa only [increment_eq h, index_eq h] using hd.fits⟩

theorem multiplier_eq : multiplier t = multiplier s := by
  have ht := congrArg (·.targetDeposits) h.config
  have hm := congrArg (·.utilizationMultipliers) h.config
  simp only [configOf] at ht hm
  simp only [multiplier, total_eq h, ht, hm]

theorem multiplierBps_eq : multiplierBps t = multiplierBps s := by
  simp only [multiplierBps, multiplier_eq h]

theorem effective_eq : effective t amount = effective s amount := by
  simp only [effective, multiplierBps_eq h]

/-! Writes made after interference. -/

theorem interfered_afterDeposit :
    Interfered (afterDeposit now u amount s) (afterDeposit now u amount t) where
  pools p := by
    cases p with
    | legacy => rw [pool_afterDeposit, pool_afterDeposit, h.pools]
    | asset b => exact h.pools (.asset b)
  liquid v := by rw [liquid_afterDeposit, liquid_afterDeposit, h.liquid, h.liquid]
  locks := h.locks
  config := h.config
  listed := h.listed
  admin := h.admin

theorem interfered_afterDistribution :
    Interfered (afterDistribution amount s) (afterDistribution amount t) where
  pools p := by
    cases p with
    | legacy => rw [pool_afterDistribution, pool_afterDistribution, h.pools]
    | asset b => exact h.pools (.asset b)
  liquid := h.liquid
  locks := h.locks
  config := h.config
  listed := h.listed
  admin := h.admin

theorem interfered_afterAssetMove :
    Interfered (afterAssetMove now u a amount s) (afterAssetMove now u a amount t) where
  pools p := by
    cases p with
    | legacy => exact h.pools .legacy
    | asset b =>
      by_cases hb : b = a
      · rw [hb, pool_afterAssetMove, pool_afterAssetMove, h.pools]
      · rw [pool_afterAssetMove_other hb, pool_afterAssetMove_other hb, h.pools]
  liquid := h.liquid
  locks := h.locks
  config := h.config
  listed := h.listed
  admin := h.admin

theorem interfered_afterAssetDistribution :
    Interfered (afterAssetDistribution a amount s) (afterAssetDistribution a amount t) where
  pools p := by
    cases p with
    | legacy => exact h.pools .legacy
    | asset b =>
      by_cases hb : b = a
      · rw [hb, pool_afterAssetDistribution, pool_afterAssetDistribution, h.pools]
      · rw [pool_afterAssetDistribution_other hb, pool_afterAssetDistribution_other hb, h.pools]
  liquid := h.liquid
  locks := h.locks
  config := h.config
  listed := h.listed
  admin := h.admin

end Reading

/-! ## Plans -/

/-- What the vault asks of token contracts. -/
inductive Ask where
  | transfer (token src dst : Address) (amount : Int)
  | funds (token holder : Address) (amount : Int)

/-- A call to be made: what it answers, what it writes before it turns to the
tokens, what it asks of them, and what it writes once they have answered. -/
structure Plan where
  value : Value
  first : Storage → Storage
  before : List Event
  asks : List Ask
  last : Storage → Storage
  after : List Event

/-- The tokens are asked one thing after the other, and each lets the call go
on. -/
inductive Dealt (T : TokenClient τ) (env : Env) : World τ → List Ask → World τ → Prop
  | done {w : World τ} : Dealt T env w [] w
  | transfer {w w₁ w' : World τ} {token src dst : Address} {amount : Int} {asks : List Ask} :
      Returns (T.transfer token src dst amount) env w () w₁ → Dealt T env w₁ asks w' →
      Dealt T env w (.transfer token src dst amount :: asks) w'
  | funds {w w₁ w' : World τ} {token holder : Address} {amount x : Int} {asks : List Ask} :
      Returns (T.balance token holder) env w x w₁ → amount ≤ x → Dealt T env w₁ asks w' →
      Dealt T env w (.funds token holder amount :: asks) w'

/-- The world in which the tokens are asked. -/
def Plan.inner (plan : Plan) (w : World τ) : World τ :=
  { w with storage := plan.first (setGuard true w.storage), events := w.events ++ plan.before }

/-- The world the call leaves, from the one the tokens leave. -/
def Plan.outer (plan : Plan) (w : World τ) : World τ :=
  { w with storage := setGuard false (plan.last w.storage), events := w.events ++ plan.after }

/-- The plan is carried out. -/
def Carried (T : TokenClient τ) (env : Env) (w : World τ) (plan : Plan) (w' : World τ) : Prop :=
  ∃ w₁, Dealt T env (plan.inner w) plan.asks w₁ ∧ w' = plan.outer w₁

/-! The plans of the calls that turn to token contracts: incoming tokens are
asked for before the books are written, outgoing tokens afterwards. -/

/-- A claim asks for nothing if nothing is due. -/
def payout (token contract u : Address) (paid : Int) : List Ask :=
  if paid = 0 then [] else [.funds token contract paid, .transfer token contract u paid]

def depositPlan (env : Env) (w : World τ) (u token : Address) (amount : Int) : Plan where
  value := .unit
  first := id
  before := []
  asks := [.transfer token u env.currentContract amount]
  last := afterDeposit w.timestamp u amount
  after := [.deposit u amount w.timestamp]

def withdrawPlan (env : Env) (w : World τ) (u token : Address) (amount : Int) : Plan where
  value := .unit
  first := afterWithdraw w.timestamp u amount
  before := [.withdraw u amount ((position w.storage .legacy u).balance - amount) w.timestamp]
  asks := [.transfer token env.currentContract u amount]
  last := id
  after := []

def distributePlan (env : Env) (w : World τ) (admin token : Address) (amount : Int) : Plan where
  value := .int (poolIndex w.storage .legacy +
    increment w.storage .legacy (effective w.storage amount))
  first := id
  before := []
  asks := [.transfer token admin env.currentContract amount]
  last := afterDistribution (effective w.storage amount)
  after := [.distribute admin amount w.timestamp]

def claimPlan (env : Env) (w : World τ) (u token : Address) (paid : Int) : Plan where
  value := .int paid
  first := afterClaim w.timestamp u paid
  before := []
  asks := payout token env.currentContract u paid
  last := id
  after := claimEvents paid (.claim u paid w.timestamp)

def depositAssetPlan (env : Env) (w : World τ) (u a : Address) (amount : Int) : Plan where
  value := .unit
  first := id
  before := []
  asks := [.transfer a u env.currentContract amount]
  last := afterAssetMove w.timestamp u a amount
  after := [.assetDeposit u a amount w.timestamp]

def withdrawAssetPlan (env : Env) (w : World τ) (u a : Address) (amount : Int) : Plan where
  value := .unit
  first := afterAssetMove w.timestamp u a (-amount)
  before := [.assetWithdraw u a amount ((position w.storage (.asset a) u).balance - amount) w.timestamp]
  asks := [.transfer a env.currentContract u amount]
  last := id
  after := []

def distributeAssetPlan (env : Env) (w : World τ) (admin a token : Address) (amount : Int) :
    Plan where
  value := .int (poolIndex w.storage (.asset a) + increment w.storage (.asset a) amount)
  first := id
  before := []
  asks := [.transfer token admin env.currentContract amount]
  last := afterAssetDistribution a amount
  after := [.assetDistribute admin a amount w.timestamp]

def claimAssetPlan (env : Env) (w : World τ) (u a token : Address) (paid : Int) : Plan where
  value := .int paid
  first := afterAssetClaim w.timestamp u a paid
  before := []
  asks := payout token env.currentContract u paid
  last := id
  after := claimEvents paid (.assetClaim u a paid w.timestamp)

/-- When such a call gets as far as its plan. -/
inductive PlanOf (env : Env) (w : World τ) : Call → Plan → Prop
  | deposit {u token : Address} {amount : I128} : w.storage.isPaused ≠ some true →
      0 < amount.val → env.auths u = true → w.storage.depositToken = some token →
      AccrualFits w.storage .legacy u → poolTotal w.storage .legacy + amount.val ≤ i128Max →
      PlanOf env w (.deposit u amount) (depositPlan env w u token amount.val)
  | withdraw {u token : Address} {amount : I128} : w.storage.isPaused ≠ some true →
      0 < amount.val → env.auths u = true → w.storage.depositToken = some token →
      AccrualFits w.storage .legacy u → amount.val ≤ withdrawable w.timestamp w.storage u →
      PlanOf env w (.withdraw u amount) (withdrawPlan env w u token amount.val)
  | distributeRewards {admin token : Address} {amount : I128} :
      MIN_REWARD_DISTRIBUTION ≤ amount.val → w.storage.admin = some admin →
      env.auths admin = true → w.storage.rewardToken = some token →
      (∃ m, multiplier w.storage = .ok m) → amount.val * multiplierBps w.storage < u128Size →
      Distributes w.storage .legacy (effective w.storage amount.val) →
      PlanOf env w (.distributeRewards amount) (distributePlan env w admin token amount.val)
  | claimRewards {u token : Address} : w.storage.isPaused ≠ some true →
      env.auths u = true → AccrualFits w.storage .legacy u →
      VestingFits w.timestamp (vestingPeriod w.storage) (settled w.timestamp w.storage .legacy u) →
      w.storage.rewardToken = some token →
      PlanOf env w (.claimRewards u)
        (claimPlan env w u token (claimable w.timestamp w.storage .legacy u))
  | depositAsset {u a : Address} {amount : I128} : w.storage.isPaused ≠ some true →
      0 < amount.val → env.auths u = true → supported w.storage a = true →
      AccrualFits w.storage (.asset a) u → poolTotal w.storage (.asset a) + amount.val ≤ i128Max →
      PlanOf env w (.depositAsset u a amount) (depositAssetPlan env w u a amount.val)
  | withdrawAsset {u a : Address} {amount : I128} : w.storage.isPaused ≠ some true →
      0 < amount.val → env.auths u = true → supported w.storage a = true →
      AccrualFits w.storage (.asset a) u →
      amount.val ≤ (position w.storage (.asset a) u).balance →
      PlanOf env w (.withdrawAsset u a amount) (withdrawAssetPlan env w u a amount.val)
  | distributeRewardsForAsset {admin a token : Address} {amount : I128} :
      MIN_REWARD_DISTRIBUTION ≤ amount.val → supported w.storage a = true →
      w.storage.admin = some admin → env.auths admin = true →
      w.storage.rewardToken = some token → Distributes w.storage (.asset a) amount.val →
      PlanOf env w (.distributeRewardsForAsset admin a amount)
        (distributeAssetPlan env w admin a token amount.val)
  | claimRewardsForAsset {u a token : Address} : w.storage.isPaused ≠ some true →
      env.auths u = true → supported w.storage a = true → AccrualFits w.storage (.asset a) u →
      VestingFits w.timestamp (vestingPeriod w.storage)
        (settled w.timestamp w.storage (.asset a) u) →
      w.storage.rewardToken = some token →
      PlanOf env w (.claimRewardsForAsset u a)
        (claimAssetPlan env w u a token (claimable w.timestamp w.storage (.asset a) u))

section Plans
variable {T : TokenClient τ} {env : Env} {w w₁ w' : World τ} {u a token : Address} {amount : Int}
variable {call : Call} {plan : Plan} {value : Value} {asks : List Ask}

theorem dealt_transfer {src dst : Address} :
    Dealt T env w [.transfer token src dst amount] w' ↔
      Returns (T.transfer token src dst amount) env w () w' := by
  refine ⟨?_, ?_⟩
  · intro h
    cases h with
    | transfer h hdone =>
      cases hdone
      exact h
  · intro h
    exact .transfer h .done

theorem dealt_payout {contract : Address} (h0 : amount ≠ 0) :
    Dealt T env w (payout token contract u amount) w' ↔
      ∃ x w₁, Returns (T.balance token contract) env w x w₁ ∧ amount ≤ x ∧
        Returns (T.transfer token contract u amount) env w₁ () w' := by
  rw [payout, if_neg h0]
  refine ⟨?_, ?_⟩
  · intro h
    cases h with
    | funds hb hle h => exact ⟨_, _, hb, hle, dealt_transfer.mp h⟩
  · intro h
    obtain ⟨x, w₁, hb, hle, h⟩ := h
    exact .funds hb hle (dealt_transfer.mpr h)

/-- The storage of a vault that waits for token contracts. -/
structure Closed (s : Storage) : Prop where
  held : s.reentrancyGuard = some true
  sound : Sound s
  state : ∃ st, StateOf s st

theorem Closed.entered (hw : Closed w.storage) : Entered w := by
  obtain ⟨st, hst⟩ := hw.state
  exact ⟨hw.held, hst.initialized⟩

theorem Closed.interfered {s t : Storage} (hs : Closed s) (hi : Interfered s t) : Closed t :=
  ⟨(congrArg Config.reentrancyGuard hi.config).trans hs.held, hi.sound hs.sound, hi.state hs.state⟩

theorem closed_setGuard {s : Storage} (hr : Ready s) : Closed (setGuard true s) := by
  obtain ⟨hs, ⟨st, hst⟩, _⟩ := hr
  exact ⟨rfl, sound_setGuard hs, st, stateOf_setGuard hst⟩

theorem interfered_of_transfer (hT : Adversarial T env.currentContract) (hw : Closed w.storage)
    {src dst : Address} {x : Unit} (h : Returns (T.transfer token src dst amount) env w x w₁) :
    Interfered w.storage w₁.storage ∧ w₁.timestamp = w.timestamp := by
  unfold Returns at h
  rcases hT.transfer token src dst amount env w rfl with htrap | ⟨log, w₂, hok, hn⟩
  · rw [htrap] at h
    cases h
  · rw [hok] at h
    cases h
    exact interfered_of_nested hn hw.entered hw.sound hw.state

theorem interfered_of_balance (hT : Adversarial T env.currentContract) (hw : Closed w.storage)
    {holder : Address} {x : Int} (h : Returns (T.balance token holder) env w x w₁) :
    Interfered w.storage w₁.storage ∧ w₁.timestamp = w.timestamp := by
  unfold Returns at h
  rcases hT.balance token holder env w rfl with htrap | ⟨y, log, w₂, hok, hn⟩
  · rw [htrap] at h
    cases h
  · rw [hok] at h
    cases h
    exact interfered_of_nested hn hw.entered hw.sound hw.state

theorem interfered_of_dealt (hT : Adversarial T env.currentContract) (h : Dealt T env w asks w')
    (hw : Closed w.storage) : Interfered w.storage w'.storage ∧ w'.timestamp = w.timestamp := by
  induction h with
  | done => exact ⟨.refl _, rfl⟩
  | transfer htr _ ih =>
    obtain ⟨hi, ht⟩ := interfered_of_transfer hT hw htr
    obtain ⟨hi', ht'⟩ := ih (hw.interfered hi)
    exact ⟨hi.trans hi', ht'.trans ht⟩
  | funds hb _ _ ih =>
    obtain ⟨hi, ht⟩ := interfered_of_balance hT hw hb
    obtain ⟨hi', ht'⟩ := ih (hw.interfered hi)
    exact ⟨hi.trans hi', ht'.trans ht⟩

theorem inner_eq_guarded (hf : plan.first = id) (hb : plan.before = []) :
    plan.inner w = guarded true w := by
  rw [Plan.inner, hf, hb, List.append_nil]
  rfl

/-- A call that asks for tokens before it writes: what follows the transfer
starts from an interfered vault. -/
theorem carried_of_transfer (hT : Adversarial T env.currentContract) (hw : Closed (setGuard true w.storage))
    {src dst : Address} {A : World τ → Prop} {P : Prop} (hf : plan.first = id)
    (hb : plan.before = []) (hasks : plan.asks = [.transfer token src dst amount])
    (h : ∀ w₁, Interfered (setGuard true w.storage) w₁.storage → w₁.timestamp = w.timestamp →
      (A w₁ ↔ P ∧ w' = plan.outer w₁)) :
    (∃ (x : Unit) (w₁ : World τ),
      Returns (T.transfer token src dst amount) env (guarded true w) x w₁ ∧ A w₁) ↔
      P ∧ Carried T env w plan w' := by
  unfold Carried
  simp only [inner_eq_guarded hf hb, hasks, dealt_transfer]
  refine ⟨?_, ?_⟩
  · intro hA
    obtain ⟨x, w₁, htr, hA⟩ := hA
    obtain ⟨hi, ht⟩ := interfered_of_transfer hT hw htr
    obtain ⟨hP, hB⟩ := (h w₁ hi ht).mp hA
    exact ⟨hP, w₁, htr, hB⟩
  · intro hB
    obtain ⟨hP, w₁, htr, hB⟩ := hB
    obtain ⟨hi, ht⟩ := interfered_of_transfer hT hw htr
    exact ⟨(), w₁, htr, (h w₁ hi ht).mpr ⟨hP, hB⟩⟩

/-- Tokens that let everything through and end in a given state. -/
def compliant (contract : Address) (tokens : τ) : Deployment τ where
  contract := contract
  transfer _ _ _ _ _ := some tokens
  balance _ _ _ := i128Max

theorem pays_compliant {contract : Address} {tokens : τ} (h0 : 0 ≤ amount) (hmax : amount ≤ i128Max)
    (htok : w.storage.rewardToken = some token) (hnone : amount = 0 → tokens = w.tokens) :
    Pays (compliant contract tokens) env w u amount tokens := by
  by_cases hz : amount = 0
  · rw [hz, hnone hz]
    exact .nothing
  · exact .payout (by omega) htok hmax rfl

/-- A plan is carried out as it stands when the tokens do no more than let it
through. -/
theorem effect_of_planOf (hs : Sound w.storage) (h : PlanOf env w call plan) {tokens : τ}
    (hnone : plan.asks = [] → tokens = w.tokens) :
    ∃ w₁, Effect (compliant env.currentContract tokens) env w call plan.value w₁ ∧
      w₁.storage = plan.last (plan.first w.storage) ∧ w₁.tokens = tokens := by
  cases h with
  | deposit hp h0 hauth htok hfit htot =>
    exact ⟨_, .deposit hp h0 hauth htok rfl hfit htot, rfl, rfl⟩
  | withdraw hp h0 hauth htok hfit hle =>
    exact ⟨_, .withdraw hp h0 hauth htok hfit hle rfl, rfl, rfl⟩
  | distributeRewards hmin ha hauth htok hm hlt hd =>
    exact ⟨_, .distributeRewards hmin ha hauth htok rfl hm hlt hd, rfl, rfl⟩
  | @claimRewards u _ hp hauth hfit hv htok =>
    have hpay : Pays (compliant env.currentContract tokens) env w u _ tokens :=
      pays_compliant (claimable_nonneg hs w.timestamp .legacy u)
        ((claimable_le hs w.timestamp .legacy u).trans hfit.pending) htok fun h0 => hnone (if_pos h0)
    exact ⟨_, .claimRewards hp hauth hfit hv rfl hpay, rfl, rfl⟩
  | depositAsset hp h0 hauth hsup hfit htot =>
    exact ⟨_, .depositAsset hp h0 hauth hsup rfl hfit htot, rfl, rfl⟩
  | withdrawAsset hp h0 hauth hsup hfit hle =>
    exact ⟨_, .withdrawAsset hp h0 hauth hsup hfit hle rfl, rfl, rfl⟩
  | distributeRewardsForAsset hmin hsup ha hauth htok hd =>
    exact ⟨_, .distributeRewardsForAsset hmin hsup ha hauth htok rfl hd, rfl, rfl⟩
  | @claimRewardsForAsset u a _ hp hauth hsup hfit hv htok =>
    have hpay : Pays (compliant env.currentContract tokens) env w u _ tokens :=
      pays_compliant (claimable_nonneg hs w.timestamp (.asset a) u)
        ((claimable_le hs w.timestamp (.asset a) u).trans hfit.pending) htok
        fun h0 => hnone (if_pos h0)
    exact ⟨_, .claimRewardsForAsset hp hauth hsup hfit hv rfl hpay, rfl, rfl⟩

theorem first_setGuard (h : PlanOf env w call plan) (b : Bool) (s : Storage) :
    plan.first (setGuard b s) = setGuard b (plan.first s) := by
  cases h <;> rfl

theorem last_setGuard (h : PlanOf env w call plan) (b : Bool) (s : Storage) :
    plan.last (setGuard b s) = setGuard b (plan.last s) := by
  cases h <;> rfl

/-- One of the two writes of a plan does nothing. -/
theorem first_or_last (h : PlanOf env w call plan) : plan.first = id ∨ plan.last = id := by
  cases h with
  | withdraw | claimRewards | withdrawAsset | claimRewardsForAsset => exact Or.inr rfl
  | _ => exact Or.inl rfl

/-- The vault is well-formed while it waits for the tokens. -/
theorem closed_inner (hr : Ready w.storage) (h : PlanOf env w call plan) :
    Closed (plan.inner w).storage := by
  have hready : Ready (plan.first w.storage) := by
    rcases first_or_last h with hid | hid
    · rw [hid]
      exact hr
    · obtain ⟨w₁, heff, hw₁, _⟩ := effect_of_planOf hr.sound h fun _ => rfl
      rw [hid, id] at hw₁
      rw [← hw₁]
      exact ready_of_effect hr heff
  change Closed (plan.first (setGuard true w.storage))
  rw [first_setGuard h]
  exact closed_setGuard hready

/-! ## The calls are their plans -/

theorem deposit_asks (hT : Adversarial T env.currentContract) (hr : Ready w.storage) {x : Unit} :
    Returns (deposit T u amount) env w x w' ↔
      w.storage.isPaused ≠ some true ∧ 0 < amount ∧ env.auths u = true ∧
      ∃ token, w.storage.depositToken = some token ∧
        (AccrualFits w.storage .legacy u ∧ poolTotal w.storage .legacy + amount ≤ i128Max) ∧
        Carried T env w (depositPlan env w u token amount) w' := by
  refine (deposit_opens hr).trans ?_
  have hclosed := closed_setGuard hr
  refine and_congr_right fun _ => and_congr_right fun h0 => and_congr_right fun _ => ?_
  refine exists_congr fun token => and_congr_right fun _ => ?_
  refine carried_of_transfer hT hclosed rfl rfl rfl fun w₁ hi ht => ?_
  obtain ⟨st₁, hst₁⟩ := hi.state hclosed.state
  simp only [storeDeposit_returns (hi.sound hclosed.sound) hst₁ h0.le, accrualFits_iff hi,
    total_eq hi, ht, and_assoc, exists_and_left, ↓existsAndEq, true_and, accrualFits_setGuard,
    poolTotal_setGuard, closing, Plan.outer, depositPlan]

theorem withdraw_asks (hr : Ready w.storage) {x : Unit} :
    Returns (withdraw T u amount) env w x w' ↔
      w.storage.isPaused ≠ some true ∧ 0 < amount ∧ env.auths u = true ∧
      ∃ token, w.storage.depositToken = some token ∧
        AccrualFits w.storage .legacy u ∧ amount ≤ withdrawable w.timestamp w.storage u ∧
        Carried T env w (withdrawPlan env w u token amount) w' := by
  refine (withdraw_opens hr).trans ?_
  simp only [Carried, withdrawPlan, Plan.inner, Plan.outer, dealt_transfer, List.append_nil, id,
    moved, guarded]

theorem distributeRewards_asks (hT : Adversarial T env.currentContract) (hr : Ready w.storage)
    (hm : amount ≤ i128Max) {x : Int} :
    Returns (distributeRewards T amount) env w x w' ↔
      MIN_REWARD_DISTRIBUTION ≤ amount ∧
      ∃ admin token, w.storage.admin = some admin ∧ env.auths admin = true ∧
        w.storage.rewardToken = some token ∧
        ((∃ m, multiplier w.storage = .ok m) ∧ amount * multiplierBps w.storage < u128Size ∧
        Distributes w.storage .legacy (effective w.storage amount) ∧
        x = poolIndex w.storage .legacy +
          increment w.storage .legacy (effective w.storage amount)) ∧
        Carried T env w (distributePlan env w admin token amount) w' := by
  refine (distributeRewards_opens hr).trans ?_
  have hclosed := closed_setGuard hr
  have hmin : 0 < MIN_REWARD_DISTRIBUTION := by decide
  refine and_congr_right fun hle => exists_congr fun admin => exists_congr fun token => ?_
  refine and_congr_right fun _ => and_congr_right fun _ => and_congr_right fun _ => ?_
  refine carried_of_transfer hT hclosed rfl rfl rfl fun w₁ hi ht => ?_
  obtain ⟨st₁, hst₁⟩ := hi.state hclosed.state
  simp only [storeRewardDistribution_returns (hi.sound hclosed.sound) hst₁ (hmin.le.trans hle) hm,
    distributes_iff hi, multiplier_eq hi, multiplierBps_eq hi, effective_eq hi, index_eq hi,
    increment_eq hi, ht, and_assoc, exists_and_left, ↓existsAndEq, true_and,
    poolIndex_setGuard, distributes_setGuard, multiplier_setGuard, multiplierBps_setGuard,
    effective_setGuard, increment_setGuard, closing, Plan.outer, distributePlan]

/-- The end of both claims. -/
theorem payRewards_asks (hT : Adversarial T env.currentContract) (hw : Closed w.storage)
    (htok : w.storage.rewardToken = some token) (h0 : 0 ≤ amount) {e : Nat → Event} {x : Int} :
    Returns (payRewards T u amount e) env w x w' ↔
      x = amount ∧ ∃ w₁, Dealt T env w (payout token env.currentContract u amount) w₁ ∧
        w' = { w₁ with events := w₁.events ++ claimEvents amount (e w.timestamp) } := by
  obtain ⟨st, hst⟩ := hw.state
  obtain rfl : st.rewardToken = token := Option.some.inj (hst.rewardToken.symm.trans htok)
  by_cases hz : amount = 0
  · subst hz
    simp only [payRewards, le_refl, if_true, returns_pure, payout, claimEvents, List.append_nil]
    refine and_congr_right fun _ => ?_
    refine ⟨?_, ?_⟩
    · intro h
      exact ⟨w, .done, h⟩
    · intro h
      obtain ⟨_, hd, rfl⟩ := h
      cases hd
      rfl
  · simp only [payRewards, if_neg (show ¬ amount ≤ 0 by omega), getRewardToken, returns_bind,
      onStorage_returns, getState_returns, hst.iff, and_assoc, exists_and_left, ↓existsAndEq,
      exists_eq_left, exists_const, returns_pure, currentContractAddress_returns, returns_lift,
      ensureContractBalance_eq_ok, emit_returns, true_and, dealt_payout hz, claimEvents, if_neg hz]
    refine ⟨?_, ?_⟩
    · intro h
      obtain ⟨y, w₁, hb, hle, _, w₂, htr, rfl, rfl⟩ := h
      obtain ⟨hi, ht⟩ := interfered_of_balance hT hw hb
      obtain ⟨_, ht'⟩ := interfered_of_transfer hT (hw.interfered hi) htr
      refine ⟨rfl, w₂, ⟨y, w₁, hb, hle, htr⟩, ?_⟩
      rw [ht', ht]
    · intro h
      obtain ⟨rfl, w₂, ⟨y, w₁, hb, hle, htr⟩, rfl⟩ := h
      obtain ⟨hi, ht⟩ := interfered_of_balance hT hw hb
      obtain ⟨_, ht'⟩ := interfered_of_transfer hT (hw.interfered hi) htr
      refine ⟨y, w₁, hb, hle, (), w₂, htr, rfl, ?_⟩
      rw [ht', ht]

/-- A claim that has written the books, and what is left of it. -/
theorem carried_of_payRewards (hT : Adversarial T env.currentContract)
    (hw : Closed (plan.first (setGuard true w.storage)))
    (htok : (plan.first (setGuard true w.storage)).rewardToken = some token) (h0 : 0 ≤ amount)
    {e : Nat → Event} {x : Int} (hb : plan.before = [])
    (hasks : plan.asks = payout token env.currentContract u amount) (hl : plan.last = id)
    (ha : plan.after = claimEvents amount (e w.timestamp)) :
    (∃ w₁, Returns (payRewards T u amount e) env
        { w with storage := plan.first (setGuard true w.storage) } x w₁ ∧ w' = guarded false w₁) ↔
      x = amount ∧ Carried T env w plan w' := by
  simp only [payRewards_asks (w := { w with storage := plan.first (setGuard true w.storage) }) hT hw
    htok h0, Carried, Plan.inner, Plan.outer, hb, hasks, hl, ha, List.append_nil, id, guarded]
  refine ⟨?_, ?_⟩
  · intro h
    obtain ⟨_, ⟨rfl, w₁, hd, rfl⟩, rfl⟩ := h
    exact ⟨rfl, w₁, hd, rfl⟩
  · intro h
    obtain ⟨rfl, w₁, hd, rfl⟩ := h
    exact ⟨_, ⟨rfl, w₁, hd, rfl⟩, rfl⟩

theorem claimRewards_asks (hT : Adversarial T env.currentContract) (hr : Ready w.storage)
    (htok : w.storage.rewardToken = some token) {x : Int} :
    Returns (claimRewards T u) env w x w' ↔
      w.storage.isPaused ≠ some true ∧ env.auths u = true ∧ AccrualFits w.storage .legacy u ∧
      VestingFits w.timestamp (vestingPeriod w.storage) (settled w.timestamp w.storage .legacy u) ∧
      x = claimable w.timestamp w.storage .legacy u ∧
      Carried T env w (claimPlan env w u token (claimable w.timestamp w.storage .legacy u)) w' := by
  refine (claimRewards_opens hr).trans ?_
  refine and_congr_right fun hp => and_congr_right fun hauth => and_congr_right fun hfit =>
    and_congr_right fun hv => ?_
  have hplan : PlanOf env w (.claimRewards u) (claimPlan env w u token _) :=
    .claimRewards hp hauth hfit hv htok
  exact carried_of_payRewards hT (closed_inner hr hplan) htok
    (claimable_nonneg hr.sound w.timestamp .legacy u) rfl rfl rfl rfl

theorem depositAsset_asks (hT : Adversarial T env.currentContract) (hr : Ready w.storage)
    {x : Unit} :
    Returns (depositAsset T u a amount) env w x w' ↔
      w.storage.isPaused ≠ some true ∧ 0 < amount ∧ env.auths u = true ∧
      supported w.storage a = true ∧
      (AccrualFits w.storage (.asset a) u ∧ poolTotal w.storage (.asset a) + amount ≤ i128Max) ∧
      Carried T env w (depositAssetPlan env w u a amount) w' := by
  refine (depositAsset_opens hr).trans ?_
  have hclosed := closed_setGuard hr
  refine and_congr_right fun _ => and_congr_right fun h0 => and_congr_right fun _ =>
    and_congr_right fun ha => ?_
  refine carried_of_transfer hT hclosed rfl rfl rfl fun w₁ hi ht => ?_
  simp only [storeAssetDeposit_returns (hi.sound hclosed.sound) h0.le, accrualFits_iff hi,
    total_eq hi, hi.listed a ha, ht, and_assoc, exists_and_left, ↓existsAndEq, true_and,
    accrualFits_setGuard, poolTotal_setGuard, closing, Plan.outer, depositAssetPlan]

theorem withdrawAsset_asks (hr : Ready w.storage) {x : Unit} :
    Returns (withdrawAsset T u a amount) env w x w' ↔
      w.storage.isPaused ≠ some true ∧ 0 < amount ∧ env.auths u = true ∧
      supported w.storage a = true ∧ AccrualFits w.storage (.asset a) u ∧
      amount ≤ (position w.storage (.asset a) u).balance ∧
      Carried T env w (withdrawAssetPlan env w u a amount) w' := by
  refine (withdrawAsset_opens hr).trans ?_
  simp only [Carried, withdrawAssetPlan, Plan.inner, Plan.outer, dealt_transfer, List.append_nil,
    id, moved, guarded]

theorem distributeRewardsForAsset_asks {admin : Address} (hT : Adversarial T env.currentContract)
    (hr : Ready w.storage) {x : Int} :
    Returns (distributeRewardsForAsset T admin a amount) env w x w' ↔
      MIN_REWARD_DISTRIBUTION ≤ amount ∧ supported w.storage a = true ∧
      w.storage.admin = some admin ∧ env.auths admin = true ∧
      ∃ token, w.storage.rewardToken = some token ∧
        (Distributes w.storage (.asset a) amount ∧
        x = poolIndex w.storage (.asset a) + increment w.storage (.asset a) amount) ∧
        Carried T env w (distributeAssetPlan env w admin a token amount) w' := by
  refine (distributeRewardsForAsset_opens hr).trans ?_
  have hclosed := closed_setGuard hr
  have hmin : 0 < MIN_REWARD_DISTRIBUTION := by decide
  refine and_congr_right fun hle => and_congr_right fun ha => and_congr_right fun _ =>
    and_congr_right fun _ => exists_congr fun token => and_congr_right fun _ => ?_
  refine carried_of_transfer hT hclosed rfl rfl rfl fun w₁ hi ht => ?_
  simp only [storeAssetRewardDistribution_returns (hi.sound hclosed.sound) (hmin.le.trans hle),
    distributes_iff hi, index_eq hi, increment_eq hi, hi.listed a ha, ht, and_assoc,
    exists_and_left, ↓existsAndEq, true_and, poolIndex_setGuard, distributes_setGuard,
    increment_setGuard, closing, Plan.outer, distributeAssetPlan]

theorem claimRewardsForAsset_asks (hT : Adversarial T env.currentContract) (hr : Ready w.storage)
    (htok : w.storage.rewardToken = some token) {x : Int} :
    Returns (claimRewardsForAsset T u a) env w x w' ↔
      w.storage.isPaused ≠ some true ∧ env.auths u = true ∧ supported w.storage a = true ∧
      AccrualFits w.storage (.asset a) u ∧
      VestingFits w.timestamp (vestingPeriod w.storage)
        (settled w.timestamp w.storage (.asset a) u) ∧
      x = claimable w.timestamp w.storage (.asset a) u ∧
      Carried T env w
        (claimAssetPlan env w u a token (claimable w.timestamp w.storage (.asset a) u)) w' := by
  refine (claimRewardsForAsset_opens hr).trans ?_
  refine and_congr_right fun hp => and_congr_right fun hauth => and_congr_right fun ha =>
    and_congr_right fun hfit => and_congr_right fun hv => ?_
  have hplan : PlanOf env w (.claimRewardsForAsset u a) (claimAssetPlan env w u a token _) :=
    .claimRewardsForAsset hp hauth ha hfit hv htok
  exact carried_of_payRewards hT (closed_inner hr hplan) htok
    (claimable_nonneg hr.sound w.timestamp (.asset a) u) rfl rfl rfl rfl

/-- The calls that turn to token contracts. -/
def UsesTokens : Call → Prop
  | .deposit _ _ => True
  | .withdraw _ _ => True
  | .distributeRewards _ => True
  | .claimRewards _ => True
  | .depositAsset _ _ _ => True
  | .withdrawAsset _ _ _ => True
  | .distributeRewardsForAsset _ _ _ => True
  | .claimRewardsForAsset _ _ => True
  | _ => False

/-- **Every call is one of its plans, or does not look at the tokens.** -/
theorem planOf_of_returns (hT : Adversarial T env.currentContract) (hr : Ready w.storage)
    (hc : UsesTokens call) (h : Returns (exec T call) env w value w') :
    ∃ plan, PlanOf env w call plan ∧ value = plan.value ∧ Carried T env w plan w' := by
  obtain ⟨st, hst⟩ := hr.state
  have htok := hst.rewardToken
  cases call with
  | deposit =>
    obtain ⟨rfl, hret⟩ := returns_then.mp h
    obtain ⟨hp, h0, hauth, _, htok, ⟨hfit, htot⟩, hcar⟩ := (deposit_asks hT hr).mp hret
    exact ⟨_, .deposit hp h0 hauth htok hfit htot, rfl, hcar⟩
  | withdraw =>
    obtain ⟨rfl, hret⟩ := returns_then.mp h
    obtain ⟨hp, h0, hauth, _, htok, hfit, hle, hcar⟩ := (withdraw_asks hr).mp hret
    exact ⟨_, .withdraw hp h0 hauth htok hfit hle, rfl, hcar⟩
  | distributeRewards amount =>
    obtain ⟨_, rfl, hret⟩ := returns_int.mp h
    obtain ⟨hmin, _, _, ha, hauth, htok, ⟨hm, hlt, hd, rfl⟩, hcar⟩ :=
      (distributeRewards_asks hT hr amount.inRange.2).mp hret
    exact ⟨_, .distributeRewards hmin ha hauth htok hm hlt hd, rfl, hcar⟩
  | claimRewards =>
    obtain ⟨_, rfl, hret⟩ := returns_int.mp h
    obtain ⟨hp, hauth, hfit, hv, rfl, hcar⟩ := (claimRewards_asks hT hr htok).mp hret
    exact ⟨_, .claimRewards hp hauth hfit hv htok, rfl, hcar⟩
  | depositAsset =>
    obtain ⟨rfl, hret⟩ := returns_then.mp h
    obtain ⟨hp, h0, hauth, hsup, ⟨hfit, htot⟩, hcar⟩ := (depositAsset_asks hT hr).mp hret
    exact ⟨_, .depositAsset hp h0 hauth hsup hfit htot, rfl, hcar⟩
  | withdrawAsset =>
    obtain ⟨rfl, hret⟩ := returns_then.mp h
    obtain ⟨hp, h0, hauth, hsup, hfit, hle, hcar⟩ := (withdrawAsset_asks hr).mp hret
    exact ⟨_, .withdrawAsset hp h0 hauth hsup hfit hle, rfl, hcar⟩
  | distributeRewardsForAsset =>
    obtain ⟨_, rfl, hret⟩ := returns_int.mp h
    obtain ⟨hmin, hsup, ha, hauth, _, htok, ⟨hd, rfl⟩, hcar⟩ :=
      (distributeRewardsForAsset_asks hT hr).mp hret
    exact ⟨_, .distributeRewardsForAsset hmin hsup ha hauth htok hd, rfl, hcar⟩
  | claimRewardsForAsset =>
    obtain ⟨_, rfl, hret⟩ := returns_int.mp h
    obtain ⟨hp, hauth, hsup, hfit, hv, rfl, hcar⟩ := (claimRewardsForAsset_asks hT hr htok).mp hret
    exact ⟨_, .claimRewardsForAsset hp hauth hsup hfit hv htok, rfl, hcar⟩
  | _ => exact hc.elim

theorem returns_of_planOf (hT : Adversarial T env.currentContract) (hr : Ready w.storage)
    (h : PlanOf env w call plan) (hcar : Carried T env w plan w') :
    Returns (exec T call) env w plan.value w' := by
  cases h with
  | deposit hp h0 hauth htok hfit htot =>
    exact returns_then.mpr ⟨rfl,
      (deposit_asks hT hr).mpr ⟨hp, h0, hauth, _, htok, ⟨hfit, htot⟩, hcar⟩⟩
  | withdraw hp h0 hauth htok hfit hle =>
    exact returns_then.mpr ⟨rfl,
      (withdraw_asks hr).mpr ⟨hp, h0, hauth, _, htok, hfit, hle, hcar⟩⟩
  | distributeRewards hmin ha hauth htok hm hlt hd =>
    exact returns_int.mpr ⟨_, rfl, (distributeRewards_asks hT hr (I128.inRange _).2).mpr
      ⟨hmin, _, _, ha, hauth, htok, ⟨hm, hlt, hd, rfl⟩, hcar⟩⟩
  | claimRewards hp hauth hfit hv htok =>
    exact returns_int.mpr ⟨_, rfl,
      (claimRewards_asks hT hr htok).mpr ⟨hp, hauth, hfit, hv, rfl, hcar⟩⟩
  | depositAsset hp h0 hauth hsup hfit htot =>
    exact returns_then.mpr ⟨rfl,
      (depositAsset_asks hT hr).mpr ⟨hp, h0, hauth, hsup, ⟨hfit, htot⟩, hcar⟩⟩
  | withdrawAsset hp h0 hauth hsup hfit hle =>
    exact returns_then.mpr ⟨rfl,
      (withdrawAsset_asks hr).mpr ⟨hp, h0, hauth, hsup, hfit, hle, hcar⟩⟩
  | distributeRewardsForAsset hmin hsup ha hauth htok hd =>
    exact returns_int.mpr ⟨_, rfl, (distributeRewardsForAsset_asks hT hr).mpr
      ⟨hmin, hsup, ha, hauth, _, htok, ⟨hd, rfl⟩, hcar⟩⟩
  | claimRewardsForAsset hp hauth hsup hfit hv htok =>
    exact returns_int.mpr ⟨_, rfl,
      (claimRewardsForAsset_asks hT hr htok).mpr ⟨hp, hauth, hsup, hfit, hv, rfl, hcar⟩⟩

theorem exec_of_not_usesTokens (hc : ¬ UsesTokens call) (T T' : TokenClient τ) :
    exec T call = exec T' call := by
  cases call with
  | deposit | withdraw | distributeRewards | claimRewards => exact absurd trivial hc
  | depositAsset | withdrawAsset | distributeRewardsForAsset | claimRewardsForAsset =>
    exact absurd trivial hc
  | _ => rfl

end Plans
end Axionvera.Vault.Plans

import Axionvera.Vault.Vesting
import Axionvera.Vault.Views

/-! # What the vesting views report

`vested_rewards` and `vested_rewards_for_asset` settle a position before they
take the vested part of it, so that rewards which nobody has settled yet count
from the moment the view is called. What is reported still never falls on its
own: it falls by at most what a claim pays, and to zero when a distribution
restarts the vesting of a settled position. -/
namespace Axionvera.Vault.VestedViews
open Axionvera.Lib.Host Axionvera.Lib.KeyValue Axionvera.Lib.MachineInt Axionvera.Lib.RewardPool
open Axionvera.Lib.Transition
open Axionvera.Vault.Types Axionvera.Vault.Storage Axionvera.Vault.Contract Axionvera.Vault.Chain
open Axionvera.Vault.Accounts Axionvera.Vault.StorageSpec Axionvera.Vault.Effects
open Axionvera.Vault.Refinement Axionvera.Vault.Rewards Axionvera.Vault.Vesting
open Axionvera.Vault.Views

variable {τ : Type} {D : Deployment τ} {env : Env} {w₁ w w' : World τ} {h : List (Entry τ)}
variable {p : PoolId} {u : Address} {e : Entry τ} {call : Call} {value : Value}

/-- The view reports `x` as vested. -/
def ReportsVested (w : World τ) (p : PoolId) (u : Address) (x : Int) : Prop :=
  Returns (execView (vestedView p u)) w.timestamp w.storage (.int x) w.storage

def ReportsPending (w : World τ) (p : PoolId) (u : Address) (x : Int) : Prop :=
  Returns (execView (pendingView p u)) w.timestamp w.storage (.int x) w.storage

/-- The rewards that settling `u` at the given index would add. -/
def unsettled (s : Storage) (p : PoolId) (u : Address) (index : Int) : Int :=
  (position s p u).balance * (index - (position s p u).rewardIndex) / REWARD_INDEX_SCALE

theorem reportsVested_iff (hr : Ready w.storage) {x : Int} : ReportsVested w p u x ↔
    Previews w.timestamp w.storage p u ∧ x = claimable w.timestamp w.storage p u := by
  simp only [ReportsVested, vestedView_answer hr, Value.int.injEq, and_true]

theorem reportsPending_iff (hr : Ready w.storage) {x : Int} : ReportsPending w p u x ↔
    Previews w.timestamp w.storage p u ∧ x = pending w.storage p u := by
  simp only [ReportsPending, pendingView_answer hr, Value.int.injEq, and_true]

/-! ## Nothing vested is taken back -/

/-- A distribution that gives `u` the first whole unit since the last
settlement. The call returns the new index. -/
def Restarts (p : PoolId) (u : Address) : Entry τ → Prop
  | .ok _ call pre value => DistributesTo p call ∧
      unsettled pre.storage p u (poolIndex pre.storage p) = 0 ∧
      0 < unsettled pre.storage p u (amountOf value)
  | _ => False

theorem index_of_distribution (heff : Effect D env w call value w') (hd : DistributesTo p call) :
    poolIndex w'.storage p = amountOf value := by
  cases heff with
  | distributeRewards =>
    obtain rfl : p = .legacy := hd
    rfl
  | @distributeRewardsForAsset _ a =>
    obtain rfl : p = .asset a := hd
    change (FinMap.set _ a _).getD a 0 = _
    rw [FinMap.getD_set, if_pos rfl]
    rfl
  | _ => cases hd

/-- A distribution changes nothing of a pool but its index. -/
theorem position_of_distribution (heff : Effect D env w call value w') (hd : DistributesTo p call) :
    position w'.storage p u = position w.storage p u := by
  cases heff with
  | distributeRewards =>
    obtain rfl : p = .legacy := hd
    rfl
  | distributeRewardsForAsset =>
    cases p with
    | legacy => rfl
    | asset => rfl
  | _ => cases hd

theorem distributesTo_of_callMove {d : Distribution Address}
    (hm : callMove w value p call = .distribute d) : DistributesTo p call := by
  by_contra hd
  exact callMove_ne_distribute hd d hm

theorem callMove_time {v : Address} {delta paid : Int} {t : Nat}
    (hm : callMove w value p call = .touch v delta paid t) : t = w.timestamp := by
  cases call with
  | deposit | withdraw | lock | claimRewards | depositAsset | withdrawAsset | claimRewardsForAsset =>
    rw [callMove] at hm
    split at hm
    · cases hm
      rfl
    · cases hm
  | distributeRewards | distributeRewardsForAsset =>
    rw [callMove] at hm
    split at hm
    · cases hm
    · cases hm
  | _ => cases hm

/-- What one step can take off the vested rewards. -/
theorem claimable_of_step (hr : Ready w.storage) (hP : 0 < vestingPeriod w.storage)
    (hs : ChainStep D w e w') (hn : ¬ Restarts p u e) :
    claimable w.timestamp w.storage p u ≤
      claimable w'.timestamp w'.storage p u + paidBy p u e := by
  have hperiod : vestingPeriod w'.storage = vestingPeriod w.storage :=
    congrArg (·.vestingPeriod.getD 0) (configOf_of_step hr hs)
  cases stepEffect_of_step hr hs with
  | failed => exact (add_zero _).ge
  | outside ht =>
    refine le_trans ?_ (add_zero _).ge
    exact Pool.vested_mono scale_pos (hr.sound.good p) hP ht u
  | @call env call value _ hc heff =>
    have hpaid := paidTo_move p u (.ok env call w value)
    rw [claimable_eq, claimable_eq, hperiod, timestamp_of_effect heff, ← hpaid]
    refine (effect_step hr.sound heff p).vested_le scale_pos (hr.sound.good p) hP ?_ ?_ ?_
    · intro v delta paid t hm
      exact callMove_time hm
    · by_cases hclaim : ClaimOf p u call
      · refine Or.inr ?_
        change (move p (.ok env call w value)).paidTo u = _
        rw [hpaid, paidBy_of_claim hclaim, amountOf_claim hr (returns_of_effect hr heff) hclaim]
        exact claimable_eq _ _ _ _
      · exact Or.inl (callMove_paidTo hclaim)
    · intro d hm hzero
      have hd := distributesTo_of_callMove hm
      have hgain : unsettled w.storage p u (amountOf value) =
          ((pool w'.storage p).account u).gain REWARD_INDEX_SCALE (pool w'.storage p).index := by
        rw [← index_of_distribution heff hd]
        change _ = (toAccount (position w'.storage p u)).gain _ _
        rw [position_of_distribution heff hd]
        rfl
      have hnonneg := ((ready_of_effect hr heff).sound.good p).gain_nonneg scale_pos u
      rw [← hgain] at hnonneg ⊢
      exact le_antisymm (not_lt.mp fun hpos => hn ⟨hd, hzero, hpos⟩) hnonneg

theorem vestingPeriod_of_run (hr : Reachable D w₁) (hrun : ChainRun D w₁ h w) :
    vestingPeriod w.storage = vestingPeriod w₁.storage := by
  induction hrun with
  | nil => rfl
  | snoc hrun hs ih =>
    rw [← ih]
    exact congrArg (·.vestingPeriod.getD 0) (configOf_of_step (ready_of_reachable (hr.run hrun)) hs)

theorem claimable_of_run (hr : Reachable D w₁) (hP : 0 < vestingPeriod w₁.storage)
    (hrun : ChainRun D w₁ h w) (hn : ∀ e ∈ h, ¬ Restarts p u e) :
    claimable w₁.timestamp w₁.storage p u ≤
      claimable w.timestamp w.storage p u + paidOut p u h := by
  induction hrun with
  | nil => exact (add_zero _).ge
  | @snoc h w w' e hrun hs ih =>
    have hstart := ih fun e' he => hn e' (List.mem_cons_of_mem e he)
    have hstep := claimable_of_step (p := p) (u := u) (ready_of_reachable (hr.run hrun))
      (vestingPeriod_of_run hr hrun ▸ hP) hs (hn e List.mem_cons_self)
    rw [paidOut_cons]
    omega

theorem claimable_of_unsettled {s : Storage} {now : Nat} (hP : 0 < vestingPeriod s)
    (hpos : 0 < unsettled s p u (poolIndex s p)) : claimable now s p u = 0 := by
  have hgain : 0 < ((pool s p).account u).gain REWARD_INDEX_SCALE (pool s p).index := hpos
  rw [claimable_eq]
  exact Account.vested_settle_of_gain_pos hgain hP now

/-- **Vested rewards are taken back by a restart only.** From a reachable state
on, what is reported as vested falls by at most what the user's own claims on
the pool pay, as long as no distribution to the pool restarts the vesting of the
user's rewards; one that does leaves zero. -/
theorem vested_kept_until_restart (hr : Reachable D w₁) (hP : 0 < vestingPeriod w₁.storage)
    (p : PoolId) (u : Address) :
    (∀ h w x y, ChainRun D w₁ h w → (∀ e ∈ h, ¬ Restarts p u e) →
      ReportsVested w₁ p u x → ReportsVested w p u y → x ≤ y + paidOut p u h) ∧
    ∀ e w y, ChainStep D w₁ e w → Restarts p u e → ReportsVested w p u y → y = 0 := by
  have hready := ready_of_reachable hr
  refine ⟨?_, ?_⟩
  · intro h w x y hrun hn hx hy
    obtain ⟨_, rfl⟩ := (reportsVested_iff hready).mp hx
    obtain ⟨_, rfl⟩ := (reportsVested_iff (ready_of_reachable (hr.run hrun))).mp hy
    exact claimable_of_run hr hP hrun hn
  · intro e w y hs hrestart hy
    obtain ⟨_, rfl⟩ := (reportsVested_iff (ready_of_reachable (hr.step hs))).mp hy
    have hperiod : vestingPeriod w.storage = vestingPeriod w₁.storage :=
      congrArg (·.vestingPeriod.getD 0) (configOf_of_step hready hs)
    cases stepEffect_of_step hready hs with
    | call _ heff =>
      obtain ⟨hd, _, hpos⟩ := hrestart
      refine claimable_of_unsettled (hperiod ▸ hP) ?_
      rw [unsettled, position_of_distribution heff hd, index_of_distribution heff hd]
      exact hpos
    | failed => cases hrestart
    | outside => cases hrestart

/-- Half of the rewards have vested. -/
def halfVested : World Bank :=
  { vestingStart with timestamp := 530 }

theorem halfVested_reachable : Reachable bank halfVested :=
  vestingStart_reachable.step (.outside (by decide +kernel) fun _ => le_rfl)

theorem halfVested_reports : ReportsVested halfVested .legacy alice 50000 :=
  (reportsVested_iff (ready_of_reachable halfVested_reachable)).mpr
    ⟨⟨trivial, ⟨by decide +kernel, by decide +kernel⟩, fun _ _ _ => by decide +kernel⟩,
      by decide +kernel⟩

/-- What the session goes on with. -/
def halfThen (call : Call) : World Bank := invoke (exec bank.client call) openEnv halfVested

theorem halfThen_step {call : Call}
    (h : (exec bank.client call openEnv halfVested).isOk = true) :
    ∃ value, ChainStep bank halfVested (.ok openEnv call halfVested value) (halfThen call) := by
  obtain ⟨value, hret⟩ := returns_of_isOk h
  exact ⟨value, .ok rfl hret⟩

theorem halfThen_reports {call : Call}
    (h : (exec bank.client call openEnv halfVested).isOk = true) {x : Int}
    (hfit : AccrualFits (halfThen call).storage .legacy alice)
    (hvest : VestingFits (halfThen call).timestamp (vestingPeriod (halfThen call).storage)
      (settled (halfThen call).timestamp (halfThen call).storage .legacy alice))
    (hx : x = claimable (halfThen call).timestamp (halfThen call).storage .legacy alice) :
    ReportsVested (halfThen call) .legacy alice x := by
  obtain ⟨value, hs⟩ := halfThen_step h
  exact (reportsVested_iff (ready_of_reachable (halfVested_reachable.step hs))).mpr
    ⟨⟨trivial, hfit, hvest⟩, hx⟩

theorem halfThen_claim_isOk :
    (exec bank.client (.claimRewards alice) openEnv halfVested).isOk = true := rfl

/-- A claim pays all that was reported; half of the rest counts as vested. -/
theorem vested_kept_until_restart_claim : ∃ h : List (Entry Bank), paidOut .legacy alice h = 50000 ∧
    ReportsVested (halfThen (.claimRewards alice)) .legacy alice 25000 ∧
    (50000 : Int) ≤ 25000 + paidOut .legacy alice h := by
  obtain ⟨value, hs⟩ := halfThen_step halfThen_claim_isOk
  have hreports : ReportsVested (halfThen (.claimRewards alice)) .legacy alice 25000 :=
    halfThen_reports halfThen_claim_isOk ⟨by decide +kernel, by decide +kernel⟩
      (fun _ _ _ => by decide +kernel) (by decide +kernel)
  have hclaim : ClaimOf .legacy alice (.claimRewards alice) := ⟨rfl, rfl⟩
  have hpaid : paidOut .legacy alice [.ok openEnv (.claimRewards alice) halfVested value] = 50000 := by
    cases hs with
    | ok _ hret =>
      have hvested : claimable halfVested.timestamp halfVested.storage .legacy alice = 50000 := by
        rfl
      rw [paidOut_cons, paidBy_of_claim hclaim,
        amountOf_claim (ready_of_reachable halfVested_reachable) hret hclaim, hvested]
      rfl
  refine ⟨_, hpaid, hreports, ?_⟩
  refine (vested_kept_until_restart halfVested_reachable (by decide +kernel) .legacy alice).1 _ _ _ _
    (.snoc .nil hs) ?_ halfVested_reports hreports
  intro e he
  obtain rfl := List.mem_singleton.mp he
  exact fun hrestart => hrestart.1

/-- A second distribution takes back what has vested of the first. -/
theorem vested_lost_at_distribution : ∃ (w w' : World Bank) (value : Value), Reachable bank w ∧
    0 < vestingPeriod w.storage ∧
    Returns (exec bank.client (.distributeRewards 100000)) openEnv w value w' ∧
    ReportsVested w .legacy alice 50000 ∧ ReportsVested w' .legacy alice 0 := by
  have hok : (exec bank.client (.distributeRewards 100000) openEnv halfVested).isOk = true := by
    rfl
  obtain ⟨value, hret⟩ := returns_of_isOk hok
  refine ⟨halfVested, halfThen (.distributeRewards 100000), value, halfVested_reachable,
    by decide +kernel, hret, halfVested_reports, ?_⟩
  exact halfThen_reports hok ⟨by decide +kernel, by decide +kernel⟩ (fun _ _ _ => by decide +kernel)
    (by decide +kernel)

/-! ## Vesting from the distribution on -/

theorem vestingPeriod_lt (hr : Reachable D w) : vestingPeriod w.storage < u64Size := by
  obtain ⟨w₀, h, h0, hrun⟩ := hr
  have hperiod : vestingPeriod w.storage = vestingPeriod w₀.storage :=
    congrArg (·.vestingPeriod.getD 0) (configOf_of_run h0 hrun)
  obtain ⟨_, _, _, _, _, period, _, _, _, hfresh, _, hret⟩ := h0
  obtain ⟨_, hstorage⟩ := initializeVault_storage hfresh (returns_then.mp hret).2
  rw [hperiod, hstorage]
  exact period.toNat_lt

/-- Calls never unlist an asset. -/
theorem listed_of_step (hr : Ready w.storage) (hs : ChainStep D w e w') (hl : Listed w.storage p) :
    Listed w'.storage p := by
  cases p with
  | legacy => trivial
  | asset b =>
    cases stepEffect_of_step hr hs with
    | call _ heff =>
      cases heff with
      | addAsset =>
        change supported (afterAddAsset _ w.storage) b = true
        rw [supported_afterAddAsset, show supported w.storage b = true from hl, Bool.or_true]
      | _ => exact hl
    | failed => exact hl
    | outside => exact hl

theorem listed_of_run (hr : Reachable D w₁) (hrun : ChainRun D w₁ h w)
    (hl : Listed w₁.storage p) : Listed w.storage p := by
  induction hrun with
  | nil => exact hl
  | snoc hrun hs ih => exact listed_of_step (ready_of_reachable (hr.run hrun)) hs ih

theorem listed_of_distribution (heff : Effect D env w call value w') (hd : DistributesTo p call) :
    Listed w.storage p := by
  cases heff with
  | distributeRewards =>
    obtain rfl : p = .legacy := hd
    trivial
  | distributeRewardsForAsset _ hsup =>
    obtain rfl : p = .asset _ := hd
    exact hsup
  | _ => cases hd

/-- A step in which `u` makes no call on the pool and the pool receives nothing. -/
def Quiet (p : PoolId) (u : Address) (e : Entry τ) : Prop :=
  callsBy p u e = false ∧ distributedBy p e = none

theorem move_subject_of_quiet (hq : Quiet p u e) : (move p e).subject ≠ some u := by
  obtain ⟨hcalls, _⟩ := hq
  cases e with
  | ok env call pre value =>
    cases call with
    | deposit v | withdraw v | lock v | claimRewards v =>
      by_cases hp : p = .legacy
      · have hv : v ≠ u := by simpa [callsBy, hp] using hcalls
        simpa [move, callMove, hp, Move.subject] using hv
      · simp [move, callMove, hp, Move.subject]
    | depositAsset v a | withdrawAsset v a | claimRewardsForAsset v a =>
      by_cases hp : p = .asset a
      · have hv : v ≠ u := by simpa [callsBy, hp] using hcalls
        simpa [move, callMove, hp, Move.subject] using hv
      · simp [move, callMove, hp, Move.subject]
    | distributeRewards =>
      by_cases hp : p = .legacy <;> simp [move, callMove, hp, Move.subject]
    | distributeRewardsForAsset _ a =>
      by_cases hp : p = .asset a <;> simp [move, callMove, hp, Move.subject]
    | _ => simp [move, callMove, Move.subject]
  | failed => simp [move, Move.subject]
  | outside => simp [move, Move.subject]

/-- Quiet steps change neither the position nor the index. -/
theorem account_of_quiet_run (hr : Reachable D w₁) (hrun : ChainRun D w₁ h w)
    (hq : ∀ e ∈ h, Quiet p u e) :
    (pool w.storage p).account u = (pool w₁.storage p).account u ∧
      (pool w.storage p).index = (pool w₁.storage p).index := by
  induction hrun with
  | nil => exact ⟨rfl, rfl⟩
  | @snoc h w w' e hrun hs ih =>
    obtain ⟨hacc, hidx⟩ := ih fun e' he => hq e' (List.mem_cons_of_mem e he)
    have hquiet := hq e List.mem_cons_self
    have hstep := pool_step (ready_of_reachable (hr.run hrun)) hs p
    have hnone : ∀ d, move p e ≠ .distribute d := by
      intro d hm
      have hdist := distribution_move p e
      rw [hm, hquiet.2] at hdist
      cases hdist
    exact ⟨(hstep.account_other (move_subject_of_quiet hquiet)).trans hacc,
      (hstep.index_eq hnone).trans hidx⟩

/-- The views report the share of the pending rewards that has vested since
`t₀`. -/
def VestsFrom (w : World τ) (p : PoolId) (u : Address) (t₀ : Nat) : Prop :=
  ∃ reported vested, ReportsPending w p u reported ∧ ReportsVested w p u vested ∧
    vested = reported * (min (w.timestamp - t₀) (vestingPeriod w.storage) : Nat) /
      (vestingPeriod w.storage : Nat)

/-- Rewards that were never settled are reported as not vested, whenever the
view is called. -/
theorem claimable_of_not_accrued {s : Storage} (hs : Sound s) (hP : 0 < vestingPeriod s)
    (ha : (position s p u).accruedRewards = 0) (now : Nat) : claimable now s p u = 0 := by
  rcases ((hs.good p).gain_nonneg scale_pos u).lt_or_eq with hgain | hgain
  · exact claimable_of_unsettled hP hgain
  · refine le_antisymm ?_ (claimable_nonneg hs now p u)
    have hpending : pending s p u = 0 := by
      rw [Accounts.pending, Pool.pending, ← hgain, add_zero]
      exact ha
    rw [← hpending]
    exact claimable_le hs now p u

theorem vestingFits_of_not_accrued {s : Storage} (hs : Sound s)
    (ha : (position s p u).accruedRewards = 0) (now period : Nat) :
    VestingFits now period (settled now s p u) := by
  intro _ _ _
  have hmax : (0 : Int) < u128Size := by decide
  rcases ((hs.good p).gain_nonneg scale_pos u).lt_or_eq with hgain | hgain
  · -- settled now: no time has passed
    have hsince : (settled now s p u).lastRewardTimestamp = now := if_pos hgain
    rw [hsince, Nat.sub_self, Int.natCast_zero, mul_zero]
    exact hmax
  · have hpending : (settled now s p u).accruedRewards = 0 := by
      rw [settled_accrued, Accounts.pending, Pool.pending, ← hgain, add_zero]
      exact ha
    rw [hpending, zero_mul]
    exact hmax

/-- Nothing overflows while the rewards are below any vesting period. -/
theorem accrualFits_of_small {s : Storage} (ha : (position s p u).accruedRewards = 0)
    (hsmall : unsettled s p u (poolIndex s p) < u64Size) : AccrualFits s p u := by
  have hpending : pending s p u = unsettled s p u (poolIndex s p) := by
    rw [Accounts.pending, Pool.pending]
    exact (congrArg (· + _) ha).trans (zero_add _)
  refine ⟨?_, ?_⟩
  · unfold unsettled REWARD_INDEX_SCALE PRECISION_FACTOR u64Size at hsmall
    unfold i128Max
    omega
  · rw [hpending]
    unfold u64Size at hsmall
    unfold i128Max
    omega

theorem lt_of_ediv_eq_zero {x P : Int} (hP : 0 < P) (h : x / P = 0) : x < P := by
  by_contra hge
  have hunit : 1 ≤ x / P := Int.le_ediv_of_mul_le hP (by omega)
  omega

/-- **When the views vest from the distribution on.** A user without accrued
rewards is left alone after a distribution to the pool. At a later time the
views report the share that has vested since the distribution exactly while that
share is less than one unit. -/
theorem vestsFrom_distribution_iff (hr : Reachable D w) (hP : 0 < vestingPeriod w.storage)
    (ha : (position w.storage p u).accruedRewards = 0)
    (hs : ChainStep D w (.ok env call w value) w₁) (hd : DistributesTo p call)
    (hrun : ChainRun D w₁ h w') (hq : ∀ e ∈ h, Quiet p u e) (ht : w₁.timestamp < w'.timestamp) :
    VestsFrom w' p u w₁.timestamp ↔
      unsettled w₁.storage p u (poolIndex w₁.storage p) *
        (min (w'.timestamp - w₁.timestamp) (vestingPeriod w₁.storage) : Nat) <
      (vestingPeriod w₁.storage : Nat) := by
  have hr₁ := hr.step hs
  have hr' := hr₁.run hrun
  have hready := ready_of_reachable hr'
  have hperiod := vestingPeriod_of_run hr₁ hrun
  have hperiod₁ : vestingPeriod w₁.storage = vestingPeriod w.storage :=
    vestingPeriod_of_run hr (.snoc .nil hs)
  obtain ⟨hacc, hidx⟩ := account_of_quiet_run hr₁ hrun hq
  have heff : Effect D env w call value w₁ := by
    cases hs with
    | ok _ hret => exact effect_of_returns (ready_of_reachable hr) hret
  have hlisted : Listed w'.storage p :=
    listed_of_run hr₁ hrun (listed_of_step (ready_of_reachable hr) hs (listed_of_distribution heff hd))
  have ha' : (position w'.storage p u).accruedRewards = 0 := by
    rw [← ha, ← position_of_distribution heff hd]
    exact congrArg Account.accrued hacc
  have hsame : unsettled w'.storage p u (poolIndex w'.storage p) =
      unsettled w₁.storage p u (poolIndex w₁.storage p) := by
    change ((pool w'.storage p).account u).gain REWARD_INDEX_SCALE (pool w'.storage p).index = _
    rw [hacc, hidx]
    rfl
  have hpending : pending w'.storage p u = unsettled w₁.storage p u (poolIndex w₁.storage p) := by
    rw [← hsame]
    exact (congrArg (· + _) ha').trans (zero_add _)
  have hvested := claimable_of_not_accrued hready.sound (hperiod ▸ hperiod₁ ▸ hP) ha' w'.timestamp
  have hnonneg : 0 ≤ pending w'.storage p u := hready.sound.pending_nonneg
  rw [hpending] at hnonneg
  rw [← hperiod₁, ← hperiod] at hP
  have hone : 1 ≤ min (w'.timestamp - w₁.timestamp) (vestingPeriod w'.storage) := by omega
  have hbound := vestingPeriod_lt hr'
  rw [← hperiod]
  simp only [VestsFrom, reportsPending_iff hready, reportsVested_iff hready, hpending, hvested]
  refine ⟨?_, ?_⟩
  · intro h
    obtain ⟨_, _, ⟨_, rfl⟩, ⟨_, rfl⟩, hzero⟩ := h
    exact lt_of_ediv_eq_zero (by omega) hzero.symm
  · intro hlt
    have hgain := le_mul_of_one_le_right hnonneg (Int.ofNat_le.mpr hone)
    have hprev : Previews w'.timestamp w'.storage p u := by
      refine ⟨hlisted, accrualFits_of_small ha' ?_, vestingFits_of_not_accrued hready.sound ha' _ _⟩
      rw [hsame]
      exact lt_of_le_of_lt hgain (hlt.trans (Int.ofNat_lt.mpr hbound))
    refine ⟨_, _, ⟨hprev, rfl⟩, ⟨hprev, rfl⟩, ?_⟩
    exact (Int.ediv_eq_zero_of_lt (Int.mul_nonneg hnonneg (Int.natCast_nonneg _)) hlt).symm

/-! A vault with a vesting period and two depositors, one of them with a small
stake, receives a distribution at time 20. -/

def beforeDistribution : World Bank :=
  (session 1000000 vestingOpening [(10, .deposit alice 999950), (15, .deposit bob 50),
    (20, .view .version)]).2

theorem beforeDistribution_reachable : Reachable bank beforeDistribution :=
  session_reachable 1000000 vestingOpening vestingOpening_isOk _

def afterFirst : World Bank :=
  invoke (exec bank.client (.distributeRewards 100000)) openEnv beforeDistribution

theorem afterFirst_step : ∃ value, ChainStep bank beforeDistribution
    (.ok openEnv (.distributeRewards 100000) beforeDistribution value) afterFirst := by
  obtain ⟨value, hret⟩ := returns_of_isOk (show (exec bank.client (.distributeRewards 100000) openEnv
    beforeDistribution).isOk = true from rfl)
  exact ⟨value, .ok rfl hret⟩

/-- Time passes and nothing happens. -/
def waited (t : Nat) : World Bank := { afterFirst with timestamp := t }

theorem waited_run {t : Nat} (ht : afterFirst.timestamp ≤ t) :
    ChainRun bank afterFirst [.outside] (waited t) :=
  .snoc .nil (.outside ht fun _ => le_rfl)

theorem quiet_waiting (p : PoolId) (u : Address) : ∀ e ∈ [(.outside : Entry Bank)], Quiet p u e := by
  intro e he
  obtain rfl := List.mem_singleton.mp he
  exact ⟨rfl, rfl⟩

/-- The small stake earns 5, of which nothing has vested after a tenth of the
period. -/
theorem vestsFrom_distribution_iff_small :
    0 < (position beforeDistribution.storage .legacy bob).balance ∧
    unsettled afterFirst.storage .legacy bob (poolIndex afterFirst.storage .legacy) = 5 ∧
    VestsFrom (waited 120) .legacy bob afterFirst.timestamp := by
  obtain ⟨value, hs⟩ := afterFirst_step
  have htime : afterFirst.timestamp < (waited 120).timestamp := by decide +kernel
  refine ⟨by decide +kernel, by decide +kernel, ?_⟩
  refine (vestsFrom_distribution_iff beforeDistribution_reachable (by decide +kernel)
    (rfl) hs rfl (waited_run htime.le) (quiet_waiting _ _) htime).mpr ?_
  decide +kernel

/-- Half a period after the distribution nothing is reported as vested of the
99995 that are pending. -/
theorem nothing_vests_unsettled : ∃ (w w₁ w' : World Bank) (value : Value) (h : List (Entry Bank)),
    Reachable bank w ∧ vestingPeriod w.storage = 1000 ∧
    (position w.storage .legacy alice).accruedRewards = 0 ∧
    0 < (position w.storage .legacy alice).balance ∧
    ChainStep bank w (.ok openEnv (.distributeRewards 100000) w value) w₁ ∧ w₁.timestamp = 20 ∧
    ChainRun bank w₁ h w' ∧ (∀ e ∈ h, Quiet .legacy alice e) ∧ w'.timestamp = 520 ∧
    ReportsPending w' .legacy alice 99995 ∧ ReportsVested w' .legacy alice 0 := by
  obtain ⟨value, hs⟩ := afterFirst_step
  have htime : afterFirst.timestamp ≤ 520 := by decide +kernel
  have hready := ready_of_reachable
    ((beforeDistribution_reachable.step hs).run (waited_run htime))
  have hprev : Previews (waited 520).timestamp (waited 520).storage .legacy alice :=
    ⟨trivial, ⟨by decide +kernel, by decide +kernel⟩, fun _ _ _ => by decide +kernel⟩
  refine ⟨beforeDistribution, afterFirst, waited 520, value, [.outside],
    beforeDistribution_reachable, by decide +kernel, by decide +kernel, by decide +kernel, hs,
    by decide +kernel, waited_run htime, quiet_waiting _ _, rfl, ?_, ?_⟩
  · exact (reportsPending_iff hready).mpr ⟨hprev, rfl⟩
  · exact (reportsVested_iff hready).mpr ⟨hprev, rfl⟩

end Axionvera.Vault.VestedViews

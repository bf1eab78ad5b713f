import Axionvera.Vault.Rewards

/-! # Vesting

A claim pays the vested share of what is left of a position, not of what the
position held when vesting began, so a second claim is paid out of the part that
the first one left unvested. The bound that linear vesting promises is met by a
run of claims exactly when rounding absorbs what the earlier ones took. -/
namespace Axionvera.Vault.Vesting
open Axionvera.Lib.Host Axionvera.Lib.Transition Axionvera.Lib.RewardPool
open Axionvera.Lib.RewardLedger
open Axionvera.Vault.Types Axionvera.Vault.Storage Axionvera.Vault.Contract Axionvera.Vault.Chain
open Axionvera.Vault.Accounts Axionvera.Vault.StorageSpec Axionvera.Vault.Effects
open Axionvera.Vault.Refinement Axionvera.Vault.Principal Axionvera.Vault.Rewards

/-! ## Releasing a share of what is left -/

section Release
variable {q r e P : Int}

/-- After `q` was released, the share of the rest keeps to the schedule exactly
when the remainder and what `q` is ahead stay below one unit. -/
theorem release_le_iff (hP : 0 < P) : (q + r * e / P) * P ≤ (q + r) * e ↔
    (q + r) * e % P + q * (P - e) < P := by
  have hshift : q + r * e / P = (r * e + q * P) / P := by
    rw [Int.add_mul_ediv_right _ _ hP.ne', add_comm]
  have hsplit : r * e + q * P = (q + r) * e + q * (P - e) := by ring
  have hdiv := Int.mul_ediv_add_emod ((q + r) * e) P
  calc (q + r * e / P) * P ≤ (q + r) * e
    _ ↔ (r * e + q * P) / P ≤ (q + r) * e / P := by rw [hshift, Int.le_ediv_iff_mul_le hP]
    _ ↔ r * e + q * P < ((q + r) * e / P + 1) * P := by
        rw [← Int.lt_add_one_iff, Int.ediv_lt_iff_lt_mul hP]
    _ ↔ (q + r) * e % P + q * (P - e) < P := by
        rw [hsplit]
        generalize (q + r) * e = x at hdiv ⊢
        rw [add_mul, one_mul, mul_comm (x / P) P]
        omega

/-- It never falls behind the schedule. -/
theorem le_release (hP : 0 < P) (hq : 0 ≤ q) (he : e ≤ P) : (q + r) * e / P ≤ q + r * e / P := by
  have hshift : q + r * e / P = (r * e + q * P) / P := by
    rw [Int.add_mul_ediv_right _ _ hP.ne', add_comm]
  rw [hshift]
  refine Int.ediv_le_ediv hP ?_
  have hqe : q * e ≤ q * P := mul_le_mul_of_nonneg_left he hq
  rw [add_mul]
  omega

end Release

/-! ## A position whose rewards vest -/

variable {τ : Type} {D : Deployment τ} {env : Env} {w₁ w w' : World τ} {h : List (Entry τ)}
variable {p : PoolId} {u : Address} {A r : Int} {t₀ P : Nat} {e : Entry τ}
variable {call : Call} {value : Value}

/-- `u` has rewards `A` in the pool that vest over `P` from `t₀` on, and nothing
that was distributed since is waiting to be added to them. -/
structure VestingFrom (w : World τ) (p : PoolId) (u : Address) (A : Int) (t₀ P : Nat) : Prop where
  period : vestingPeriod w.storage = P
  period_pos : 0 < P
  start_pos : 0 < t₀
  start_le : t₀ ≤ w.timestamp
  since : (position w.storage p u).lastRewardTimestamp = t₀
  accrued : (position w.storage p u).accruedRewards = A
  pending : pending w.storage p u = A

theorem timestamp_of_effect (h : Effect D env w call value w') : w'.timestamp = w.timestamp := by
  cases h with
  | _ => rfl

theorem timestamp_le_of_step (hr : Ready w.storage) (hs : ChainStep D w e w') :
    w.timestamp ≤ w'.timestamp := by
  cases stepEffect_of_step hr hs with
  | call _ heff => exact (timestamp_of_effect heff).ge
  | failed => exact le_rfl
  | outside ht => exact ht

theorem VestingFrom.gain_eq_zero (hv : VestingFrom w p u r t₀ P) :
    ((pool w.storage p).account u).gain REWARD_INDEX_SCALE (pool w.storage p).index = 0 := by
  have hp : (position w.storage p u).accruedRewards + _ = r := hv.pending
  rw [hv.accrued] at hp
  exact left_eq_add.mp hp.symm

/-- A step that distributes nothing to the pool takes from the rewards what it
pays and leaves their date. -/
theorem VestingFrom.step (hr : Ready w.storage) (hv : VestingFrom w p u r t₀ P)
    (hs : ChainStep D w e w') (hd : distributedBy p e = none) :
    VestingFrom w' p u (r - paidBy p u e) t₀ P := by
  have hnone : ∀ d, move p e ≠ .distribute d := by
    intro d hm
    have hdist := distribution_move p e
    rw [hm, hd] at hdist
    cases hdist
  obtain ⟨hgain, haccrued, hsince⟩ := (pool_step hr hs p).account_of_gain_zero hnone hv.gain_eq_zero
  rw [paidTo_move] at haccrued
  have hacc : (position w'.storage p u).accruedRewards = r - paidBy p u e := by
    rw [← hv.accrued]
    exact haccrued
  refine ⟨?_, hv.period_pos, hv.start_pos, ?_, ?_, hacc, ?_⟩
  · rw [← hv.period]
    exact congrArg (·.vestingPeriod.getD 0) (configOf_of_step hr hs)
  · exact hv.start_le.trans (timestamp_le_of_step hr hs)
  · exact hsince.trans hv.since
  · rw [← hacc, Accounts.pending, Pool.pending, hgain, add_zero]
    rfl

/-- What is left after a run without distributions. -/
theorem VestingFrom.run (hr : Reachable D w₁) (hv : VestingFrom w₁ p u A t₀ P)
    (hrun : ChainRun D w₁ h w) (hd : distributionsTo p h = []) :
    VestingFrom w p u (A - paidOut p u h) t₀ P := by
  induction hrun with
  | nil => rwa [paidOut, List.map_nil, List.sum_nil, sub_zero]
  | @snoc h w w' e hrun hs ih =>
    have hnone := List.filterMap_eq_nil_iff.mp hd
    have hvest := ih (List.filterMap_eq_nil_iff.mpr fun e' he =>
      hnone e' (List.mem_cons_of_mem e he))
    have hstep := hvest.step (ready_of_reachable (hr.run hrun)) hs (hnone e (by simp))
    rw [paidOut, List.map_cons, List.sum_cons, add_comm, ← sub_sub]
    exact hstep

/-- What a claim finds vested: the elapsed share of what is left. -/
theorem VestingFrom.claimable (hv : VestingFrom w p u r t₀ P) (ht : w.timestamp ≤ t₀ + P) :
    claimable w.timestamp w.storage p u = r * (w.timestamp - t₀ : Nat) / P := by
  have hpos := hv.period_pos
  have hacc : (settled w.timestamp w.storage p u).accruedRewards = r := hv.pending
  have hsince : (settled w.timestamp w.storage p u).lastRewardTimestamp = t₀ := by
    rw [← hv.since]
    exact if_neg (hv.gain_eq_zero.trans_le le_rfl).not_gt
  rw [Accounts.claimable, vested, hacc, hsince, hv.period, if_neg hpos.ne', if_neg hv.start_pos.ne']
  split
  · -- the last moment of the schedule
    have helapsed : w.timestamp - t₀ = P := by omega
    rw [helapsed, Int.mul_ediv_cancel _ (by omega)]
  · rfl

/-! ## Claims along a run -/

/-- No claim of `u` made up to the end of the schedule brings what was paid
above the share of `A` that has vested. -/
def NeverOutrun (p : PoolId) (u : Address) (A : Int) (t₀ P : Nat) (h : List (Entry τ)) : Prop :=
  ∀ env call pre value h₁, (.ok env call pre value :: h₁) <:+ h → ClaimOf p u call →
    pre.timestamp ≤ t₀ + P →
    paidOut p u (.ok env call pre value :: h₁) * P ≤ A * (pre.timestamp - t₀ : Nat)

/-- A claim at the ledger time of an earlier one pays nothing. -/
def NothingTwice (p : PoolId) (u : Address) (t₀ P : Nat) (h : List (Entry τ)) : Prop :=
  ∀ env call pre value h₁, (.ok env call pre value :: h₁) <:+ h → ClaimOf p u call →
    pre.timestamp ≤ t₀ + P →
    (∃ env' call' pre' value', .ok env' call' pre' value' ∈ h₁ ∧ ClaimOf p u call' ∧
      pre'.timestamp = pre.timestamp) → amountOf value = 0

/-- Rounding absorbs what the claims before have taken: with `taken` already
paid and `elapsed` of the period gone, the vested share of `A` and what `taken`
is ahead of it leave less than one unit over. -/
def Absorbed (A : Int) (P : Nat) (taken : Int) (elapsed : Nat) : Prop :=
  A * elapsed % P + taken * (P - elapsed) < P

instance (A : Int) (P : Nat) (taken : Int) (elapsed : Nat) : Decidable (Absorbed A P taken elapsed) :=
  inferInstanceAs (Decidable (_ < _))

/-- Whatever the step is, if it is a claim of `u` made up to the end of the
schedule then rounding absorbs what the claims before it have taken. -/
def ClaimAbsorbed (p : PoolId) (u : Address) (A : Int) (t₀ P : Nat) : Entry τ → Prop
  | .ok _ call pre _ => ClaimOf p u call → pre.timestamp ≤ t₀ + P →
      Absorbed A P (A - (position pre.storage p u).accruedRewards) (pre.timestamp - t₀)
  | _ => True

instance (p : PoolId) (u : Address) (A : Int) (t₀ P : Nat) :
    (e : Entry τ) → Decidable (ClaimAbsorbed p u A t₀ P e)
  | .ok _ _ _ _ => inferInstanceAs (Decidable (_ → _ → _))
  | .failed _ _ => isTrue trivial
  | .outside => isTrue trivial

theorem paidBy_of_claim (hc : ClaimOf p u call) :
    paidBy p u (.ok env call w value) = amountOf value := by
  cases call with
  | claimRewards v => exact if_pos hc
  | claimRewardsForAsset v a => exact if_pos hc
  | _ => cases hc

theorem amountOf_claim (hr : Ready w.storage)
    (hret : Returns (exec D.client call) env w value w') (hc : ClaimOf p u call) :
    amountOf value = claimable w.timestamp w.storage p u := by
  cases effect_of_returns hr hret with
  | claimRewards _ _ _ _ hpaid =>
    obtain ⟨rfl, rfl⟩ := hc
    exact hpaid
  | claimRewardsForAsset _ _ _ _ _ hpaid =>
    obtain ⟨rfl, rfl⟩ := hc
    exact hpaid
  | _ => cases hc

/-- What a claim of the run brings the payments to. -/
theorem paidOut_of_claim (hr : Reachable D w₁) (hv : VestingFrom w₁ p u A t₀ P)
    (hrun : ChainRun D w₁ h w) (hd : distributionsTo p h = []) {pre : World τ}
    {h₁ : List (Entry τ)} (hs : (.ok env call pre value :: h₁) <:+ h) (hc : ClaimOf p u call)
    (ht : pre.timestamp ≤ t₀ + P) :
    (position pre.storage p u).accruedRewards = A - paidOut p u h₁ ∧
    pre.timestamp - t₀ ≤ P ∧
    paidOut p u (.ok env call pre value :: h₁) = paidOut p u h₁ +
      (A - paidOut p u h₁) * (pre.timestamp - t₀ : Nat) / P := by
  obtain ⟨_, _, hrun₁, hstep⟩ := hrun.step_of_suffix hs
  cases hstep with
  | ok _ hret =>
    have hd₁ : distributionsTo p h₁ = [] := by
      have hnone := List.filterMap_eq_nil_iff.mp hd
      exact List.filterMap_eq_nil_iff.mpr fun e he =>
        hnone e (hs.subset (List.mem_cons_of_mem _ he))
    have hvest := hv.run hr hrun₁ hd₁
    have hready := ready_of_reachable (hr.run hrun₁)
    refine ⟨hvest.accrued, by omega, ?_⟩
    rw [paidOut_cons, paidBy_of_claim hc, amountOf_claim hready hret hc, hvest.claimable ht, add_comm]

/-- Payments only add up. -/
theorem paidOut_le_of_suffix (hr : Reachable D w₁) (hrun : ChainRun D w₁ h w)
    {h₁ : List (Entry τ)} (hs : h₁ <:+ h) : paidOut p u h₁ ≤ paidOut p u h := by
  have hpaid : ∀ e ∈ h, 0 ≤ paidBy p u e := by
    intro e he
    obtain ⟨h', hs'⟩ := exists_suffix_of_mem he
    obtain ⟨_, _, hrun', hstep⟩ := hrun.step_of_suffix hs'
    rw [← paidTo_move]
    exact (pool_step (ready_of_reachable (hr.run hrun')) hstep p).paidTo_nonneg u
  obtain ⟨later, rfl⟩ := hs
  have hlater : 0 ≤ (later.map (paidBy p u)).sum := by
    refine List.sum_nonneg fun x hx => ?_
    obtain ⟨e, he, rfl⟩ := List.mem_map.mp hx
    exact hpaid e (List.mem_append_left _ he)
  rw [paidOut, paidOut, List.map_append, List.sum_append]
  omega

/-- One claim keeps to the schedule exactly when rounding absorbs what was taken
before it. -/
theorem bound_iff_absorbed (hr : Reachable D w₁) (hv : VestingFrom w₁ p u A t₀ P)
    (hrun : ChainRun D w₁ h w) (hd : distributionsTo p h = []) {pre : World τ}
    {h₁ : List (Entry τ)} (hs : (.ok env call pre value :: h₁) <:+ h) (hc : ClaimOf p u call)
    (ht : pre.timestamp ≤ t₀ + P) :
    paidOut p u (.ok env call pre value :: h₁) * P ≤ A * (pre.timestamp - t₀ : Nat) ↔
      Absorbed A P (A - (position pre.storage p u).accruedRewards) (pre.timestamp - t₀) := by
  obtain ⟨hacc, _, hpaid⟩ := paidOut_of_claim hr hv hrun hd hs hc ht
  have hP : (0 : Int) < P := Int.natCast_pos.mpr hv.period_pos
  have hiff := release_le_iff (q := paidOut p u h₁) (r := A - paidOut p u h₁)
    (e := (pre.timestamp - t₀ : Nat)) hP
  rw [add_sub_cancel] at hiff
  rw [hpaid, hacc, sub_sub_cancel, Absorbed]
  exact hiff

/-- A run that keeps to the schedule pays nothing twice: the first claim made at
a time has already brought the payments up to it. -/
theorem nothingTwice_of_neverOutrun (hr : Reachable D w₁) (hv : VestingFrom w₁ p u A t₀ P)
    (hrun : ChainRun D w₁ h w) (hd : distributionsTo p h = []) (hn : NeverOutrun p u A t₀ P h) :
    NothingTwice p u t₀ P h := by
  intro env call pre value h₁ hs hc ht hearlier
  obtain ⟨env', call', pre', value', hmem, hc', htime⟩ := hearlier
  obtain ⟨h₂, hs₂⟩ := exists_suffix_of_mem hmem
  have hP : (0 : Int) < P := Int.natCast_pos.mpr hv.period_pos
  have hsuffix : h₁ <:+ h := (List.suffix_cons _ h₁).trans hs
  obtain ⟨_, _, hrun₁, hstep₁⟩ := hrun.step_of_suffix hs
  obtain ⟨_, _, hrun₂, _⟩ := hrun.step_of_suffix (hs₂.trans hsuffix)
  -- the earlier claim reached the schedule
  obtain ⟨_, helapsed, hpaid⟩ :=
    paidOut_of_claim hr hv hrun hd (hs₂.trans hsuffix) hc' (htime.trans_le ht)
  have hq : 0 ≤ paidOut p u h₂ := paidOut_le_of_suffix hr hrun₂ List.nil_suffix
  have hfull := le_release (r := A - paidOut p u h₂) hP hq (Int.ofNat_le.mpr helapsed)
  rw [add_sub_cancel, ← hpaid, htime] at hfull
  have hmono : paidOut p u (.ok env' call' pre' value' :: h₂) ≤ paidOut p u h₁ :=
    paidOut_le_of_suffix hr hrun₁ hs₂
  -- this one may not pass it
  have hbound := (Int.le_ediv_iff_mul_le hP).mpr (hn env call pre value h₁ hs hc ht)
  rw [paidOut_cons, paidBy_of_claim hc] at hbound
  have hpos : 0 ≤ amountOf value := by
    cases hstep₁ with
    | ok _ hret =>
      have hready := ready_of_reachable (hr.run hrun₁)
      rw [amountOf_claim hready hret hc]
      exact claimable_nonneg hready.sound _ _ _
  omega

/-- **When vesting is not outrun.** Along a run that distributes nothing to the
pool, all claims of `u` keep to the schedule of the rewards `A`, and a second
claim at the same time pays nothing, exactly when rounding absorbs at every claim
what the claims before have taken. -/
theorem neverOutrun_iff (hr : Reachable D w₁) (hv : VestingFrom w₁ p u A t₀ P)
    (hrun : ChainRun D w₁ h w) (hd : distributionsTo p h = []) :
    NeverOutrun p u A t₀ P h ∧ NothingTwice p u t₀ P h ↔ ∀ e ∈ h, ClaimAbsorbed p u A t₀ P e := by
  rw [and_iff_left_of_imp (nothingTwice_of_neverOutrun hr hv hrun hd)]
  refine ⟨?_, ?_⟩
  · intro hn e hmem
    obtain ⟨h₁, hs⟩ := exists_suffix_of_mem hmem
    cases e with
    | ok env call pre value =>
      intro hc ht
      exact (bound_iff_absorbed hr hv hrun hd hs hc ht).mp (hn env call pre value h₁ hs hc ht)
    | failed => trivial
    | outside => trivial
  · intro habs env call pre value h₁ hs hc ht
    refine (bound_iff_absorbed hr hv hrun hd hs hc ht).mpr ?_
    exact habs (.ok env call pre value) (hs.subset (by simp)) hc ht

/-! ## Two claims -/

/-- A vault whose rewards vest over a thousand seconds. -/
def vestingOpening : Opening := ⟨1000, 0, []⟩

theorem vestingOpening_isOk :
    (exec bank.client vestingOpening.call openEnv (unopened 1000000)).isOk = true := by
  rfl

/-- The first claim settles the rewards and starts their vesting. -/
def vestingStart : World Bank :=
  (session 1000000 vestingOpening [(10, .deposit alice 100),
    (20, .distributeRewards 100000), (30, .claimRewards alice)]).2

theorem vestingStart_reachable : Reachable bank vestingStart :=
  session_reachable 1000000 vestingOpening vestingOpening_isOk _

theorem vestingFrom_start : VestingFrom vestingStart .legacy alice 100000 30 1000 := by
  constructor <;> decide +kernel

/-- Claims of the user at the given times. -/
def claimsAt (times : List Nat) : List (Entry Bank) × World Bank :=
  runRequests bank [] vestingStart (times.map fun t => ⟨openEnv, t, .claimRewards alice⟩)

theorem claimsAt_run (times : List Nat) :
    ChainRun bank vestingStart (claimsAt times).1 (claimsAt times).2 := by
  refine runRequests_run bank _ ?_ .nil
  intro q hq
  obtain ⟨t, _, rfl⟩ := List.mem_map.mp hq
  rfl

/-- A claim half way and one at the end keep to the schedule. -/
theorem neverOutrun_iff_half_full : paidOut .legacy alice (claimsAt [530, 1030]).1 = 100000 ∧
    NeverOutrun .legacy alice 100000 30 1000 (claimsAt [530, 1030]).1 := by
  have hiff := neverOutrun_iff vestingStart_reachable vestingFrom_start (claimsAt_run [530, 1030])
    (List.isEmpty_iff.mp (rfl))
  exact ⟨by decide +kernel, (hiff.mpr (by decide +kernel)).1⟩

/-- A second claim at the same time is paid a quarter on top of the half that
has vested. -/
theorem second_claim_outruns : ∃ (w₁ w : World Bank) (h : List (Entry Bank)), Reachable bank w₁ ∧
    VestingFrom w₁ .legacy alice 100000 30 1000 ∧ ChainRun bank w₁ h w ∧
    distributionsTo .legacy h = [] ∧ w.timestamp = 530 ∧
    100000 * (w.timestamp - 30 : Nat) / 1000 < paidOut .legacy alice h :=
  ⟨_, _, _, vestingStart_reachable, vestingFrom_start, claimsAt_run [530, 530],
    List.isEmpty_iff.mp (by decide +kernel), by decide +kernel, by decide +kernel⟩

end Axionvera.Vault.Vesting

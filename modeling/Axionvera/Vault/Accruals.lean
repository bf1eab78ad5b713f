import Axionvera.Vault.Rewards

/-! # Indices, accruals and vesting

The index of a pool does not fall, and the index and the rewards that are stored
for a user lie between zero and what the pool has. So the subtraction of an
accrual is exact and gives no negative number, and the casts between the signed
and the unsigned type, which nothing checks, keep the value
(`indices_well_formed`). What vests, and at which times the computation of it
overflows, is `calculateVestedRewards_outcome`. -/
namespace Axionvera.Vault.Accruals
open Axionvera.Lib.Fallible Axionvera.Lib.Host Axionvera.Lib.MachineInt
open Axionvera.Lib.RewardPool Axionvera.Lib.Transition
open Axionvera.Vault.Errors Axionvera.Vault.Types Axionvera.Vault.Storage Axionvera.Vault.Contract
open Axionvera.Vault.Chain Axionvera.Vault.Accounts Axionvera.Vault.StorageSpec
open Axionvera.Vault.Refinement Axionvera.Vault.Principal Axionvera.Vault.Rewards

variable {τ : Type} {D : Deployment τ} {w w' : World τ} {h : List (Entry τ)} {s : Storage}
  {p : PoolId} {u : Address} {now period : Nat} {index : Int} {q : UserPosition}

/-! ## Indices -/

theorem poolIndex_le_of_run (hr : Reachable D w) (hrun : ChainRun D w h w') (p : PoolId) :
    poolIndex w.storage p ≤ poolIndex w'.storage p := by
  induction hrun with
  | nil => exact le_rfl
  | snoc hearlier hstep ih =>
    have hready := ready_of_reachable (hr.run hearlier)
    exact ih.trans ((pool_step hready hstep p).index_le scale_pos)

/-! ## Accruals -/

/-- An accrual subtracts without failing and without going below zero, and what
it leaves can be cast to the unsigned type. -/
structure AccruesExactly (now : Nat) (index : Int) (q : UserPosition) : Prop where
  subtracts : checkedSub index q.rewardIndex = some (index - q.rewardIndex)
  delta_nonneg : 0 ≤ index - q.rewardIndex
  accrued_nonneg : ∀ q', accrueRewards now index q = .ok q' → 0 ≤ q'.accruedRewards
  cast : ∀ q', accrueRewards now index q = .ok q' →
    (asU128 q'.accruedRewards : Int) = q'.accruedRewards

theorem asU128_eq_self {x : Int} (h0 : 0 ≤ x) (hmax : x ≤ i128Max) : (asU128 x : Int) = x := by
  rw [asU128_of_nonneg h0 hmax]
  exact Int.toNat_of_nonneg h0

theorem accruesExactly_of_sound (hs : Sound s) (now : Nat) (p : PoolId) (u : Address) :
    AccruesExactly now (poolIndex s p) (position s p u) := by
  have h0 : 0 ≤ (position s p u).rewardIndex := hs.index_nonneg
  have hle : (position s p u).rewardIndex ≤ poolIndex s p := hs.index_le_pool
  have hmax := hs.index_le p
  refine ⟨?_, by omega, ?_, ?_⟩
  · exact checkedSub_eq_some.mpr ⟨inI128_of_nonneg (by omega) (by omega), rfl⟩
  · intro q' hq'
    obtain ⟨-, rfl⟩ := (accrue_eq_ok hs p).mp hq'
    exact hs.pending_nonneg
  · intro q' hq'
    obtain ⟨hfits, rfl⟩ := (accrue_eq_ok hs p).mp hq'
    exact asU128_eq_self hs.pending_nonneg hfits.pending

/-- The reentrancy guard is no part of a pool. -/
theorem sound_withGuard (hs : Sound s) (guard : Option Bool) :
    Sound { s with reentrancyGuard := guard } := by
  refine sound_of_pools hs ?_ hs.liquid_nonneg hs.lock_pos (fun _ h => h)
  intro p
  cases p <;> rfl

/-- A product below `2 ^ 128` divided by `10000` is a signed number, whatever the
factors are. -/
theorem effectiveAmount_exact {amount e : Int} {m : Nat} (h : effectiveAmount amount m = .ok e) :
    e = ((asU128 amount * m / 10000 : Nat) : Int) := by
  simp only [effectiveAmount, bind_eq_ok, okOr_eq_ok, checkedMulU128_eq_some, pure_eq_ok] at h
  obtain ⟨product, ⟨hfits, rfl⟩, quotient, hquotient, rfl⟩ := h
  have hq : quotient = asU128 amount * m / 10000 := by
    rw [checkedDivU128, if_neg (by decide)] at hquotient
    exact (Option.some.inj hquotient).symm
  rw [hq]
  refine asI128_of_le ?_
  unfold u128Size at hfits
  unfold i128Max
  omega

/-- **Indices and accruals.** From a reachable state on, no index falls. In the
state that is reached, the index stored for a user lies between zero and the
pool's, and the rewards stored are not negative. Whatever a call reads there to
accrue rewards, its guard set or not, the accrual is exact; and so is the cast of
a distributed amount. -/
theorem indices_well_formed (hr : Reachable D w) (hrun : ChainRun D w h w') :
    (∀ p, poolIndex w.storage p ≤ poolIndex w'.storage p) ∧
    (∀ p u, 0 ≤ (position w'.storage p u).rewardIndex ∧
      (position w'.storage p u).rewardIndex ≤ poolIndex w'.storage p ∧
      0 ≤ (position w'.storage p u).accruedRewards) ∧
    ∀ (guard : Option Bool) (now : Nat),
      let s := { w'.storage with reentrancyGuard := guard }
      (∀ u st q, Returns getState now s st s → Returns (getUserPositionUnchecked u) now s q s →
        AccruesExactly now st.rewardIndex q) ∧
      (∀ u a index q, Returns (getAssetRewardIndex a) now s index s →
        Returns (getUserAssetPositionUnchecked u a) now s q s → AccruesExactly now index q) ∧
      ∀ amount m e, effectiveAmount amount m = .ok e →
        e = ((asU128 amount * m / 10000 : Nat) : Int) := by
  have hsound := (ready_of_reachable (hr.run hrun)).sound
  refine ⟨poolIndex_le_of_run hr hrun, ?_, ?_⟩
  · intro p u
    exact ⟨hsound.index_nonneg, hsound.index_le_pool, hsound.accrued_nonneg⟩
  · intro guard now s
    have hs : Sound s := sound_withGuard hsound guard
    refine ⟨?_, ?_, fun _ _ _ => effectiveAmount_exact⟩
    · intro u st q hst hq
      rw [(getState_returns.mp hst).1.rewardIndex, ((getUserPositionUnchecked_returns hs).mp hq).1]
      exact accruesExactly_of_sound hs now .legacy u
    · intro u a index q hindex hq
      rw [(getAssetRewardIndex_returns.mp hindex).2.1,
        (getUserAssetPositionUnchecked_returns.mp hq).1]
      exact accruesExactly_of_sound hs now (.asset a) u

/-- Alice and Bob earn, and the index of the pool has gone up. -/
theorem indices_well_formed_earning :
    poolIndex (opened 1000000 plainOpening).storage .legacy = 0 ∧
      0 < poolIndex earningSession.2.storage .legacy ∧
      (position earningSession.2.storage .legacy alice).rewardIndex ≤
        poolIndex earningSession.2.storage .legacy := by
  have hstart := started_opened 1000000 plainOpening plainOpening_rich
  have hwell := indices_well_formed ⟨_, [], hstart, .nil⟩
    (session_run 1000000 plainOpening _ : ChainRun bank _ earningSession.1 earningSession.2)
  exact ⟨rfl, by decide, (hwell.2.1 .legacy alice).2.1⟩

/-! ## Vesting -/

/-- The only error of the vesting computation is an overflow: it divides by a
period that is not zero. -/
theorem calculateVestedRewards_error {e : VaultError}
    (herror : calculateVestedRewards now q period = .error e) : e = .mathOverflow := by
  unfold calculateVestedRewards at herror
  split at herror
  · cases herror
  · rename_i hperiod
    split at herror
    · cases herror
    · dsimp only at herror
      split at herror
      · cases herror
      · simp only [bind_eq_error, okOr_eq_error, checkedDivU128, if_neg hperiod] at herror
        rcases herror with ⟨-, rfl⟩ | ⟨_, _, ⟨hnone, -⟩ | ⟨_, _, hpure⟩⟩
        · rfl
        · cases hnone
        · cases hpure

theorem calculateVestedRewards_eq_error (h0 : 0 ≤ q.accruedRewards)
    (hmax : q.accruedRewards ≤ i128Max) :
    calculateVestedRewards now q period = .error .mathOverflow ↔ ¬ VestingFits now period q := by
  have hok := fun v => @calculateVestedRewards_eq_ok now period q v h0 hmax
  cases hresult : calculateVestedRewards now q period with
  | ok v =>
    have hfits := ((hok v).mp hresult).1
    simp [hfits]
  | error e =>
    rw [calculateVestedRewards_error hresult]
    refine iff_of_true rfl ?_
    intro hfits
    cases hresult.symm.trans ((hok _).mpr ⟨hfits, rfl⟩)

theorem not_vestingFits : ¬ VestingFits now period q ↔
    0 < period ∧ 0 < q.lastRewardTimestamp ∧ now - q.lastRewardTimestamp < period ∧
      u128Size ≤ q.accruedRewards * (now - q.lastRewardTimestamp : Nat) := by
  simp only [VestingFits, Classical.not_imp, not_lt, Nat.pos_iff_ne_zero]

theorem vested_of_elapsed (hsince : 0 < q.lastRewardTimestamp)
    (hend : q.lastRewardTimestamp + period ≤ now) : vested now period q = q.accruedRewards := by
  unfold vested
  split
  · rfl
  · rw [if_neg (by omega), if_pos (by omega)]

/-- **Vesting.** The computation returns a part of the accrued rewards or an
overflow, the latter exactly where rewards are in the middle of vesting and their
product with the elapsed time does not fit 128 bits. What it returns does not
fall with time, and from the end of the period on it is everything. -/
theorem calculateVestedRewards_outcome (q : UserPosition) (period : Nat)
    (h0 : 0 ≤ q.accruedRewards) (hmax : q.accruedRewards ≤ i128Max) :
    (∀ now, (∃ v, calculateVestedRewards now q period = .ok v ∧ 0 ≤ v ∧ v ≤ q.accruedRewards) ∨
      calculateVestedRewards now q period = .error .mathOverflow) ∧
    (∀ now, calculateVestedRewards now q period = .error .mathOverflow ↔
      0 < period ∧ 0 < q.lastRewardTimestamp ∧ now - q.lastRewardTimestamp < period ∧
        u128Size ≤ q.accruedRewards * (now - q.lastRewardTimestamp : Nat)) ∧
    (∀ now later v v', now ≤ later → calculateVestedRewards now q period = .ok v →
      calculateVestedRewards later q period = .ok v' → v ≤ v') ∧
    (0 < q.lastRewardTimestamp → ∀ now, q.lastRewardTimestamp + period ≤ now →
      calculateVestedRewards now q period = .ok q.accruedRewards) := by
  have hok := fun now v => @calculateVestedRewards_eq_ok now period q v h0 hmax
  refine ⟨?_, ?_, ?_, ?_⟩
  · intro now
    by_cases hfits : VestingFits now period q
    · left
      exact ⟨_, (hok now _).mpr ⟨hfits, rfl⟩, vested_nonneg now period h0, vested_le now period h0⟩
    · right
      exact (calculateVestedRewards_eq_error h0 hmax).mpr hfits
  · intro now
    rw [calculateVestedRewards_eq_error h0 hmax, not_vestingFits]
  · intro now later v v' hle hv hv'
    rw [((hok now v).mp hv).2, ((hok later v').mp hv').2, vested_eq, vested_eq]
    exact Account.vested_mono h0 period hle
  · intro hsince now hend
    refine (hok now _).mpr ⟨?_, (vested_of_elapsed hsince hend).symm⟩
    intro _ _ hlt
    omega

/-- The largest amount, vesting over four seconds: the product fits after two of
them and not after three. -/
theorem calculateVestedRewards_outcome_largest :
    let q : UserPosition := ⟨0, 0, i128Max, 10⟩
    calculateVestedRewards 12 q 4 ≠ .error .mathOverflow ∧
      calculateVestedRewards 13 q 4 = .error .mathOverflow ∧
      calculateVestedRewards 14 q 4 = .ok i128Max := by
  intro q
  have houtcome := calculateVestedRewards_outcome q 4 (by decide) (by decide)
  refine ⟨?_, (houtcome.2.1 13).mpr (by decide), houtcome.2.2.2 (by decide) 14 (by decide)⟩
  intro hoverflow
  exact absurd ((houtcome.2.1 12).mp hoverflow) (by decide)

end Axionvera.Vault.Accruals

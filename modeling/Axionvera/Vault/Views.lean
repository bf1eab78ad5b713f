import Axionvera.Vault.Refinement

/-! # What the read-only entry points answer

On a vault between calls each view answers with the quantity it is named after,
read off the pools; a reward view fails when settling or vesting would overflow,
and an asset view when the asset is not listed. -/
namespace Axionvera.Vault.Views
open Axionvera.Lib.Host Axionvera.Lib.KeyValue Axionvera.Lib.MachineInt
open Axionvera.Vault.Types Axionvera.Vault.Storage Axionvera.Vault.Contract Axionvera.Vault.Chain
open Axionvera.Vault.Accounts Axionvera.Vault.StorageSpec Axionvera.Vault.Effects
open Axionvera.Vault.Refinement

/-- The view that reports the pending rewards of a pool. -/
def pendingView : PoolId → Address → View
  | .legacy, u => .pendingRewards u
  | .asset a, u => .pendingRewardsForAsset u a

/-- The view that reports the vested part of them. -/
def vestedView : PoolId → Address → View
  | .legacy, u => .vestedRewards u
  | .asset a, u => .vestedRewardsForAsset u a

section Answers
variable {now : Nat} {s t : Storage} {u : Address} {r : Value}

theorem balance_answer (hr : Ready s) : Returns (execView (.balance u)) now s r t ↔
    r = .int (position s .legacy u).balance ∧ t = s := by
  obtain ⟨hs, ⟨st, hst⟩, _⟩ := hr
  simp only [execView, getUserBalance, getUserPosition, returns_bind, requireInitialized_returns,
    hst.initialized, getUserPositionUnchecked_returns hs, returns_pure, and_assoc, exists_and_left,
    ↓existsAndEq, exists_const, true_and]

theorem totalDeposits_answer (hr : Ready s) : Returns (execView .totalDeposits) now s r t ↔
    r = .int (poolTotal s .legacy) ∧ t = s := by
  obtain ⟨_, ⟨st, hst⟩, _⟩ := hr
  simp only [execView, getTotalDeposits, returns_bind, getState_returns, hst.iff, returns_pure,
    and_assoc, exists_and_left, ↓existsAndEq, true_and, hst.totalDeposits]

theorem admin_answer (hr : Ready s) : Returns (execView .admin) now s r t ↔
    ∃ admin, s.admin = some admin ∧ r = .address admin ∧ t = s := by
  obtain ⟨_, ⟨st, hst⟩, _⟩ := hr
  simp only [execView, getAdmin, returns_bind, getState_returns, hst.iff, returns_pure,
    and_assoc, exists_and_left, ↓existsAndEq, true_and, hst.admin, Option.some.injEq,
    exists_eq_left']

/-- Both previews settle the position and take the vested part of it. -/
structure Previews (now : Nat) (s : Storage) (p : PoolId) (u : Address) : Prop where
  listed : Listed s p
  accrual : AccrualFits s p u
  vesting : VestingFits now (vestingPeriod s) (settled now s p u)

theorem vested_eq_ok (hs : Sound s) {p : PoolId} (hfit : AccrualFits s p u) {v : Int} :
    calculateVestedRewards now (settled now s p u) (vestingPeriod s) = .ok v ↔
      VestingFits now (vestingPeriod s) (settled now s p u) ∧ v = claimable now s p u :=
  calculateVestedRewards_eq_ok (q := settled now s p u) (hs.pending_nonneg (p := p) (u := u))
    hfit.pending

theorem previewUserRewards_returns (hs : Sound s) {st : VaultState} (hst : StateOf s st)
    {x : UserRewardSnapshot} : Returns (previewUserRewards u) now s x t ↔
      Previews now s .legacy u ∧ x = ⟨poolIndex s .legacy, pending s .legacy u,
        claimable now s .legacy u⟩ ∧ t = s := by
  have hperiod : st.vestingPeriod = vestingPeriod s := hst.vestingPeriod
  simp only [previewUserRewards, returns_bind, requireInitialized_returns, hst.initialized,
    getState_returns, hst.iff, and_assoc, exists_and_left, ↓existsAndEq, exists_eq_left,
    getUserPositionUnchecked_returns hs, accruePositionRewards_returns, hst.rewardIndex,
    accrue_eq_ok hs, returns_ask, returns_lift, returns_pure, exists_const, true_and, hperiod]
  refine ⟨?_, ?_⟩
  · intro h
    obtain ⟨rfl, hfit, v, hv, rfl, _⟩ := h
    obtain ⟨hvest, rfl⟩ := (vested_eq_ok hs hfit).mp hv
    exact ⟨⟨trivial, hfit, hvest⟩, rfl, rfl⟩
  · intro h
    obtain ⟨⟨_, hfit, hvest⟩, rfl, rfl⟩ := h
    exact ⟨rfl, hfit, _, (vested_eq_ok hs hfit).mpr ⟨hvest, rfl⟩, rfl, trivial⟩

theorem previewUserAssetRewards_returns (hs : Sound s) {st : VaultState} (hst : StateOf s st)
    {a : Address} {x : UserRewardSnapshot} : Returns (previewUserAssetRewards u a) now s x t ↔
      Previews now s (.asset a) u ∧ x = ⟨poolIndex s (.asset a), pending s (.asset a) u,
        claimable now s (.asset a) u⟩ ∧ t = s := by
  have hperiod : st.vestingPeriod = vestingPeriod s := hst.vestingPeriod
  simp only [previewUserAssetRewards, returns_bind, requireInitialized_returns, hst.initialized,
    requireAssetSupported_returns, getState_returns, hst.iff, and_assoc, exists_and_left,
    ↓existsAndEq, exists_eq_left, getUserAssetPositionUnchecked_returns,
    getAssetRewardIndex_returns, accrueAssetPositionRewards_returns, accrue_eq_ok hs, returns_ask,
    returns_lift, returns_pure, exists_const, true_and, hperiod, and_self_left]
  refine ⟨?_, ?_⟩
  · intro h
    obtain ⟨hsup, hfit, v, hv, rfl, rfl⟩ := h
    obtain ⟨hvest, rfl⟩ := (vested_eq_ok hs hfit).mp hv
    exact ⟨⟨hsup, hfit, hvest⟩, rfl, rfl⟩
  · intro h
    obtain ⟨⟨hsup, hfit, hvest⟩, rfl, rfl⟩ := h
    exact ⟨hsup, hfit, _, (vested_eq_ok hs hfit).mpr ⟨hvest, rfl⟩, rfl, rfl⟩

theorem pendingView_answer (hr : Ready s) (p : PoolId) :
    Returns (execView (pendingView p u)) now s r t ↔
      Previews now s p u ∧ r = .int (pending s p u) ∧ t = s := by
  obtain ⟨hs, ⟨st, hst⟩, _⟩ := hr
  cases p with
  | legacy =>
    simp only [execView, pendingView, pendingUserRewardsView, returns_bind, returns_pure,
      previewUserRewards_returns hs hst, and_assoc, exists_and_left, ↓existsAndEq, true_and]
  | asset a =>
    simp only [execView, pendingView, pendingUserAssetRewardsView, returns_bind, returns_pure,
      previewUserAssetRewards_returns hs hst, and_assoc, exists_and_left, ↓existsAndEq, true_and]

theorem vestedView_answer (hr : Ready s) (p : PoolId) :
    Returns (execView (vestedView p u)) now s r t ↔
      Previews now s p u ∧ r = .int (claimable now s p u) ∧ t = s := by
  obtain ⟨hs, ⟨st, hst⟩, _⟩ := hr
  cases p with
  | legacy =>
    simp only [execView, vestedView, vestedUserRewardsView, returns_bind, returns_pure,
      previewUserRewards_returns hs hst, and_assoc, exists_and_left, ↓existsAndEq, true_and]
  | asset a =>
    simp only [execView, vestedView, vestedUserAssetRewardsView, returns_bind, returns_pure,
      previewUserAssetRewards_returns hs hst, and_assoc, exists_and_left, ↓existsAndEq, true_and]

end Answers

/-- A view called from outside is the storage code behind it. -/
theorem view_returns {τ : Type} {D : Deployment τ} {env : Env} {w w' : World τ} {v : View}
    {r : Value} : Returns (exec D.client (.view v)) env w r w' ↔
      Returns (execView v) w.timestamp w.storage r w.storage ∧ w' = w := by
  refine ⟨?_, ?_⟩
  · intro h
    obtain ⟨s, hs, rfl⟩ := onStorage_returns.mp h
    obtain rfl := readOnly_execView v _ _ _ _ hs
    exact ⟨hs, rfl⟩
  · intro h
    obtain ⟨hs, rfl⟩ := h
    exact onStorage_returns.mpr ⟨_, hs, rfl⟩

end Axionvera.Vault.Views

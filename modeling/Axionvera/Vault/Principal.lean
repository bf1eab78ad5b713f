import Axionvera.Vault.Refinement

/-! # Recorded principal

The totals the vault keeps are the sums of what it keeps for its users, in the
legacy pool (where a balance is a liquid part and a list of locks) and in every
asset pool. The sums over locks that the code computes without overflow checks
are safe for that reason. -/
namespace Axionvera.Vault.Principal
open Axionvera.Lib.Host Axionvera.Lib.KeyValue Axionvera.Lib.MachineInt Axionvera.Lib.RewardPool
open Axionvera.Vault.Types Axionvera.Vault.Storage Axionvera.Vault.Contract Axionvera.Vault.Chain
open Axionvera.Vault.Accounts Axionvera.Vault.StorageSpec Axionvera.Vault.Effects
open Axionvera.Vault.Refinement

variable {τ : Type} {D : Deployment τ} {w : World τ}

/-- The sum that `get_user_position_unchecked` takes over all locks of a user,
and the one that `get_locked_balance` takes over those still running. -/
def lockAmounts (s : Storage) (u : Address) : List Int := (locks s u).map Lock.amount

def runningAmounts (now : Nat) (s : Storage) (u : Address) : List Int :=
  ((locks s u).filter fun l => decide (now < l.unlockTimestamp)).map Lock.amount

/-- In a well-formed storage the legacy balance is computed without overflow. -/
theorem checkedAdd_balance {s : Storage} (hs : Sound s) (u : Address) :
    checkedAdd (liquid s u) (sumI128 (lockAmounts s u)) = some (liquid s u + (lockAmounts s u).sum) := by
  have hsum : sumI128 (lockAmounts s u) = (lockAmounts s u).sum :=
    sumI128_eq_sum (hs.sumFits (List.Sublist.refl _))
  rw [hsum]
  refine checkedAdd_eq_some.mpr ⟨inI128_of_nonneg ?_ ?_, rfl⟩
  · exact add_nonneg (hs.liquid_nonneg u) hs.locked_nonneg
  · exact hs.balance_le_max

/-- **The legacy total is the sum of all balances**, in every reachable state:
liquid parts are never negative, locks are positive, and therefore neither sum
over locks nor the addition of both parts can overflow. -/
theorem totalDeposits_eq_finsum (hr : Reachable D w) :
    {u | liquid w.storage u + (lockAmounts w.storage u).sum ≠ 0}.Finite ∧
    w.storage.totalDeposits.getD 0 = ∑ᶠ u, (liquid w.storage u + (lockAmounts w.storage u).sum) ∧
    (∀ u, 0 ≤ liquid w.storage u) ∧
    (∀ u, ∀ l ∈ locks w.storage u, 0 < l.amount) ∧
    (∀ u, SumFits (lockAmounts w.storage u)) ∧
    (∀ u now, SumFits (runningAmounts now w.storage u)) ∧
    ∀ u, checkedAdd (liquid w.storage u) (sumI128 (lockAmounts w.storage u)) =
      some (liquid w.storage u + (lockAmounts w.storage u).sum) := by
  have hs := (ready_of_reachable hr).sound
  refine ⟨(hs.good .legacy).finite_balance, (hs.good .legacy).total_eq, hs.liquid_nonneg, hs.lock_pos,
    fun u => hs.sumFits (List.Sublist.refl _), fun u now => hs.sumFits List.filter_sublist,
    checkedAdd_balance hs⟩

/-- A vault without vesting, target or multipliers. -/
def plainOpening : Opening := ⟨0, 0, []⟩

theorem plainOpening_isOk :
    (exec bank.client plainOpening.call openEnv (unopened 1000)).isOk = true := rfl

/-- A deposit, part of it locked. -/
def lockedSession : List (Entry Bank) × World Bank :=
  session 1000 plainOpening [(10, .deposit alice 100),
    (20, .lock alice 40 1000), (30, .deposit bob 7)]

theorem totalDeposits_eq_finsum_locked :
    lockedSession.2.storage.totalDeposits.getD 0 = 107 ∧
    lockAmounts lockedSession.2.storage alice = [40] ∧
    ∑ᶠ u, (liquid lockedSession.2.storage u + (lockAmounts lockedSession.2.storage u).sum) = 107 := by
  have h := totalDeposits_eq_finsum (session_reachable 1000 plainOpening plainOpening_isOk
    [(10, .deposit alice 100), (20, .lock alice 40 1000),
      (30, .deposit bob 7)])
  have h107 : lockedSession.2.storage.totalDeposits.getD 0 = 107 := rfl
  exact ⟨h107, rfl, h.2.1.symm.trans h107⟩

/-- **Asset totals are sums as well**, and listing an asset a second time
changes nothing. -/
theorem assetTotalDeposits_eq_finsum (hr : Reachable D w) {a : Address}
    (ha : supported w.storage a = true) :
    ({u | w.storage.userAssetBalance.getD (u, a) 0 ≠ 0}.Finite ∧
      w.storage.assetTotalDeposits.getD a 0 = ∑ᶠ u, w.storage.userAssetBalance.getD (u, a) 0 ∧
      0 ≤ w.storage.assetTotalDeposits.getD a 0 ∧
      ∀ u, 0 ≤ w.storage.userAssetBalance.getD (u, a) 0) ∧
    ∀ (env : Env) (admin : Address) (value : Value) (w' : World τ),
      Returns (exec D.client (.addAsset admin a)) env w value w' →
      poolTotal w'.storage (.asset a) = poolTotal w.storage (.asset a) ∧
      poolIndex w'.storage (.asset a) = poolIndex w.storage (.asset a) ∧
      ∀ u, position w'.storage (.asset a) u = position w.storage (.asset a) u := by
  have hready := ready_of_reachable hr
  have hgood := hready.sound.good (.asset a)
  refine ⟨⟨hgood.finite_balance, hgood.total_eq, hgood.total_nonneg, hgood.balance_nonneg⟩, ?_⟩
  intro env admin value w' hret
  cases effect_of_returns hready hret with
  | addAsset =>
    -- the asset is listed, so the call writes nothing
    rw [moved, afterAddAsset_of_supported ha]
    exact ⟨rfl, rfl, fun _ => rfl⟩

/-- A deposit of a listed asset. -/
def listedSession : List (Entry Bank) × World Bank :=
  session 1000 plainOpening [(10, .addAsset adminAddress ⟨6⟩),
    (20, .depositAsset alice ⟨6⟩ 100)]

theorem assetTotalDeposits_eq_finsum_listed :
    supported listedSession.2.storage ⟨6⟩ = true ∧
    listedSession.2.storage.assetTotalDeposits.getD ⟨6⟩ 0 = 100 ∧
    ∑ᶠ u, listedSession.2.storage.userAssetBalance.getD (u, ⟨6⟩) 0 = 100 := by
  have ha : supported listedSession.2.storage ⟨6⟩ = true := rfl
  have h := assetTotalDeposits_eq_finsum (session_reachable 1000 plainOpening plainOpening_isOk
    [(10, .addAsset adminAddress ⟨6⟩), (20, .depositAsset alice ⟨6⟩ 100)]) ha
  have h100 : listedSession.2.storage.assetTotalDeposits.getD ⟨6⟩ 0 = 100 := rfl
  exact ⟨ha, h100, h.1.2.1.symm.trans h100⟩

end Axionvera.Vault.Principal

import Axionvera.Vault.Chain
import Axionvera.Vault.StorageSpec

/-! # What a successful call does

`Effect` lists, for every entry point, the conditions under which it succeeds
on a vault that is between calls and the world it leaves. `exec_iff` shows that
this is exactly the behaviour of the code; every property of whole runs below is
a case analysis on `Effect` and never looks at the code again. -/
namespace Axionvera.Vault.Effects
open Axionvera.Lib.Fallible Axionvera.Lib.Host Axionvera.Lib.KeyValue Axionvera.Lib.MachineInt
open Axionvera.Vault.Errors Axionvera.Vault.Types Axionvera.Vault.Storage Axionvera.Vault.Contract
open Axionvera.Vault.Chain Axionvera.Vault.Accounts Axionvera.Vault.StorageSpec

/-! ## The re-entrancy guard -/

def setGuard (b : Bool) (s : Storage) : Storage := { s with reentrancyGuard := some b }

section Guard
variable {b : Bool} {s : Storage} {p : PoolId} {now limit duration : Nat} {u a : Address}
variable {amount : Int}

theorem setGuard_self (h : s.reentrancyGuard = some b) : setGuard b s = s := by
  unfold setGuard
  rw [← h]

@[simp] theorem poolTotal_setGuard : poolTotal (setGuard b s) p = poolTotal s p := by cases p <;> rfl

@[simp] theorem poolIndex_setGuard : poolIndex (setGuard b s) p = poolIndex s p := by cases p <;> rfl

@[simp] theorem position_setGuard : position (setGuard b s) p u = position s p u := by cases p <;> rfl

@[simp] theorem pool_setGuard : pool (setGuard b s) p = pool s p := by
  simp [pool]

@[simp] theorem settled_setGuard : settled now (setGuard b s) p u = settled now s p u := by
  simp [settled]

@[simp] theorem pending_setGuard : pending (setGuard b s) p u = pending s p u := by
  simp [pending]

@[simp] theorem vestingPeriod_setGuard : vestingPeriod (setGuard b s) = vestingPeriod s := rfl

@[simp] theorem claimable_setGuard : claimable now (setGuard b s) p u = claimable now s p u := by
  simp [claimable]

@[simp] theorem liquid_setGuard : liquid (setGuard b s) u = liquid s u := rfl

@[simp] theorem locks_setGuard : locks (setGuard b s) u = locks s u := rfl

@[simp] theorem withdrawable_setGuard :
    withdrawable now (setGuard b s) u = withdrawable now s u := rfl

@[simp] theorem supported_setGuard : supported (setGuard b s) a = supported s a := rfl

@[simp] theorem multiplier_setGuard : multiplier (setGuard b s) = multiplier s := rfl

@[simp] theorem multiplierBps_setGuard : multiplierBps (setGuard b s) = multiplierBps s := rfl

@[simp] theorem effective_setGuard : effective (setGuard b s) amount = effective s amount := rfl

@[simp] theorem increment_setGuard : increment (setGuard b s) p amount = increment s p amount := by
  simp [increment]

@[simp] theorem accrualFits_setGuard : AccrualFits (setGuard b s) p u ↔ AccrualFits s p u := by
  refine ⟨?_, ?_⟩
  · intro h
    exact ⟨by simpa using h.product, by simpa using h.pending⟩
  · intro h
    exact ⟨by simpa using h.product, by simpa using h.pending⟩

@[simp] theorem distributes_setGuard :
    Distributes (setGuard b s) p amount ↔ Distributes s p amount := by
  refine ⟨?_, ?_⟩
  · intro h
    exact ⟨by simpa using h.total_pos, h.product, by simpa using h.raises, by simpa using h.fits⟩
  · intro h
    exact ⟨by simpa using h.total_pos, h.product, by simpa using h.raises, by simpa using h.fits⟩

theorem sound_setGuard (h : Sound s) : Sound (setGuard b s) where
  liquid_nonneg := h.liquid_nonneg
  lock_pos := h.lock_pos
  good p := by simpa using h.good p
  total_le p := by simpa using h.total_le p
  index_le p := by simpa using h.index_le p
  accrued_le p u := by simpa using h.accrued_le p u
  unlisted a ha := by simpa using h.unlisted a ha

theorem stateOf_setGuard {st : VaultState} (h : StateOf s st) : StateOf (setGuard b s) st :=
  h.congr rfl

/-- A write that ignores the guard, run with the guard taken and released
again, is the write itself. -/
theorem setGuard_cycle {F : Storage → Storage} (hF : ∀ b s, F (setGuard b s) = setGuard b (F s))
    (h : s.reentrancyGuard = some false) : setGuard false (F (setGuard true s)) = F s := by
  rw [hF]
  change setGuard false (F s) = F s
  rw [← hF, setGuard_self h]

end Guard

/-! ## The pieces of an entry point -/

section Pieces
variable {τ : Type} {α : Type} {D : Deployment τ} {env : Env} {w w' : World τ}

@[simp] theorem onStorage_returns {m : StoreM α} {x : α} :
    Returns (onStorage m) env w x w' ↔
      ∃ s, Returns m w.timestamp w.storage x s ∧ w' = { w with storage := s } :=
  returns_zoom

@[simp] theorem requireAuth_returns {address : Address} {x : Unit} :
    Returns (requireAuth address) env w x w' ↔ env.auths address = true ∧ w' = w := by
  simp [requireAuth, returns_ite, and_comm]

@[simp] theorem currentContractAddress_returns {x : Address} :
    Returns currentContractAddress env w x w' ↔ x = env.currentContract ∧ w' = w := by
  simp [currentContractAddress, and_comm]

@[simp] theorem emit_returns {e : Nat → Event} {x : Unit} :
    Returns (emit e) env w x w' ↔ w' = { w with events := w.events ++ [e w.timestamp] } :=
  returns_modify

@[simp] theorem transfer_returns {token src dst : Address} {amount : Int} {x : Unit} :
    Returns (D.client.transfer token src dst amount) env w x w' ↔
      ∃ tokens, D.transfer w.tokens token src dst amount = some tokens ∧
        w' = { w with tokens := tokens } := by
  unfold Returns Deployment.client
  cases h : D.transfer w.tokens token src dst amount <;> simp [h, eq_comm]

@[simp] theorem balance_returns {token holder : Address} {x : Int} :
    Returns (D.client.balance token holder) env w x w' ↔
      x = D.balance w.tokens token holder ∧ w' = w := by
  simp [Returns, Deployment.client, eq_comm]

@[simp] theorem validatePositiveAmount_eq_ok {amount : Int} {x : Unit} :
    validatePositiveAmount amount = .ok x ↔ 0 < amount := by
  unfold validatePositiveAmount
  split
  · simp only [throw_ne_ok, false_iff]; omega
  · split
    · simp only [throw_ne_ok, false_iff]; omega
    · simp only [pure_eq_ok, true_iff]; omega

@[simp] theorem ensureContractBalance_eq_ok {balance amount : Int} {x : Unit} :
    ensureContractBalance balance amount = .ok x ↔ amount ≤ balance := by
  unfold ensureContractBalance
  split <;> simp <;> omega

def guarded (b : Bool) (w : World τ) : World τ := { w with storage := setGuard b w.storage }

@[simp] theorem enterNonReentrant_returns {now : Nat} {s t : Storage} {x : Unit} :
    Returns enterNonReentrant now s x t ↔ s.reentrancyGuard ≠ some true ∧ t = setGuard true s := by
  cases h : s.reentrancyGuard <;> simp [enterNonReentrant, h, setGuard]

theorem withNonReentrant_returns {f : VaultM τ α} {x : α}
    (hg : w.storage.reentrancyGuard = some false) :
    Returns (withNonReentrant f) env w x w' ↔
      ∃ w₁, Returns f env (guarded true w) x w₁ ∧ w' = guarded false w₁ := by
  have hidle : w.storage.reentrancyGuard ≠ some true := by
    rw [hg]
    decide
  refine ⟨?_, ?_⟩
  · intro h
    simp only [withNonReentrant, returns_bind, onStorage_returns] at h
    obtain ⟨_, _, ⟨s, hs, rfl⟩, result, w₁, hf, _, _, ⟨t, ht, rfl⟩, hlift⟩ := h
    obtain ⟨rfl, rfl⟩ := returns_lift.mp hlift
    obtain ⟨_, rfl⟩ := enterNonReentrant_returns.mp hs
    obtain rfl := returns_modify.mp ht
    exact ⟨w₁, returns_attempt_ok.mp hf, rfl⟩
  · intro h
    obtain ⟨w₁, hf, rfl⟩ := h
    simp only [withNonReentrant, returns_bind, onStorage_returns]
    exact ⟨(), guarded true w, ⟨_, enterNonReentrant_returns.mpr ⟨hidle, rfl⟩, rfl⟩, .ok x, w₁,
      returns_attempt_ok.mpr hf, (), _, ⟨_, returns_modify.mpr rfl, rfl⟩, returns_lift.mpr ⟨rfl, rfl⟩⟩

/-- A vault between two calls. -/
structure Ready (s : Storage) : Prop where
  sound : Sound s
  state : ∃ st, StateOf s st
  idle : s.reentrancyGuard = some false

/-- The world with its storage, its tokens and its log moved on. -/
def moved (w : World τ) (s : Storage) (tokens : τ) (events : List Event) : World τ :=
  { w with storage := s, tokens := tokens, events := w.events ++ events }

variable {u a : Address} {amount : Int}

/-! ## Up to the tokens

What each call does before and after it turns to a token contract, for token
contracts of any kind. -/

section Opens
variable {T : TokenClient τ}

/-- The books are written, the call is logged and the guard is released. -/
def closing (w : World τ) (s : Storage) (event : Nat → Event) : World τ :=
  { w with storage := setGuard false s, events := w.events ++ [event w.timestamp] }

/-- Every call of a user asks first whether the vault is open. -/
theorem open_returns (hr : Ready w.storage) {body : VaultM τ α} {x : α} :
    Returns (do
      onStorage requireNotPaused
      onStorage requireInitialized
      body) env w x w' ↔ w.storage.isPaused ≠ some true ∧ Returns body env w x w' := by
  obtain ⟨st, hst⟩ := hr.state
  simp only [returns_bind, onStorage_returns, requireNotPaused_returns, and_assoc, exists_and_left,
    ↓existsAndEq, exists_const, requireInitialized_returns, hst.initialized, true_and]

theorem deposit_opens (hr : Ready w.storage) {x : Unit} :
    Returns (deposit T u amount) env w x w' ↔
      w.storage.isPaused ≠ some true ∧ 0 < amount ∧ env.auths u = true ∧
      ∃ token, w.storage.depositToken = some token ∧ ∃ y w₁,
        Returns (T.transfer token u env.currentContract amount) env (guarded true w) y w₁ ∧
        ∃ r s, Returns (storeDeposit u amount) w₁.timestamp w₁.storage r s ∧
          w' = closing w₁ s (.deposit u amount) := by
  rw [deposit, open_returns hr]
  obtain ⟨_, ⟨st, hst⟩, hg⟩ := hr
  have hst' : StateOf (setGuard true w.storage) st := stateOf_setGuard hst
  simp only [returns_bind, and_assoc, exists_and_left, ↓existsAndEq, exists_const, true_and,
    returns_lift, validatePositiveAmount_eq_ok, requireAuth_returns]
  refine and_congr_right fun _ => and_congr_right fun _ => and_congr_right fun _ => ?_
  refine (withNonReentrant_returns (w := w) hg).trans ?_
  simp only [guarded, returns_bind, onStorage_returns, getState_returns, hst'.iff, and_assoc,
    exists_and_left, ↓existsAndEq, exists_eq_left, currentContractAddress_returns, emit_returns,
    true_and, hst.depositToken, Option.some.injEq, exists_eq_left', closing]

theorem withdraw_opens (hr : Ready w.storage) {x : Unit} :
    Returns (withdraw T u amount) env w x w' ↔
      w.storage.isPaused ≠ some true ∧ 0 < amount ∧ env.auths u = true ∧
      ∃ token, w.storage.depositToken = some token ∧
        AccrualFits w.storage .legacy u ∧ amount ≤ withdrawable w.timestamp w.storage u ∧
        ∃ w₁, Returns (T.transfer token env.currentContract u amount) env
          (moved w (afterWithdraw w.timestamp u amount (setGuard true w.storage)) w.tokens
            [.withdraw u amount ((position w.storage .legacy u).balance - amount) w.timestamp])
          x w₁ ∧ w' = guarded false w₁ := by
  rw [withdraw, open_returns hr]
  obtain ⟨hs, ⟨st, hst⟩, hg⟩ := hr
  have hst' : StateOf (setGuard true w.storage) st := stateOf_setGuard hst
  simp only [returns_bind, and_assoc, exists_and_left, ↓existsAndEq, exists_const, true_and,
    returns_lift, validatePositiveAmount_eq_ok, requireAuth_returns]
  refine and_congr_right fun _ => and_congr_right fun h0 => and_congr_right fun _ => ?_
  refine (withNonReentrant_returns (w := w) hg).trans ?_
  simp only [guarded, returns_bind, onStorage_returns, getState_returns, hst'.iff, and_assoc,
    exists_and_left, ↓existsAndEq, exists_eq_left, exists_const, currentContractAddress_returns,
    storeWithdraw_returns (sound_setGuard hs) hst' h0.le, emit_returns, true_and,
    accrualFits_setGuard, position_setGuard, withdrawable_setGuard, hst.depositToken,
    Option.some.injEq, exists_eq_left', moved]

theorem distributeRewards_opens (hr : Ready w.storage) {x : Int} :
    Returns (distributeRewards T amount) env w x w' ↔
      MIN_REWARD_DISTRIBUTION ≤ amount ∧
      ∃ admin token, w.storage.admin = some admin ∧ env.auths admin = true ∧
        w.storage.rewardToken = some token ∧ ∃ y w₁,
          Returns (T.transfer token admin env.currentContract amount) env (guarded true w) y w₁ ∧
          ∃ r s, Returns (storeRewardDistribution amount) w₁.timestamp w₁.storage r s ∧
            x = r.rewardIndex ∧ w' = closing w₁ s (.distribute admin amount) := by
  obtain ⟨_, ⟨st, hst⟩, hg⟩ := hr
  have hmin : 0 < MIN_REWARD_DISTRIBUTION := by decide
  simp only [distributeRewards, returns_bind, onStorage_returns, and_assoc, exists_and_left,
    ↓existsAndEq, exists_const, requireInitialized_returns, hst.initialized, true_and, returns_lift,
    validatePositiveAmount_eq_ok, returns_failIf, requireAuth_returns, not_lt, getState_returns,
    hst.iff, exists_eq_left, hst.admin, Option.some.injEq, exists_eq_left', hst.rewardToken]
  rw [and_iff_right_of_imp fun h => hmin.trans_le h.1]
  refine and_congr_right fun _ => and_congr_right fun _ => ?_
  refine (withNonReentrant_returns (w := w) hg).trans ?_
  simp only [guarded, returns_bind, onStorage_returns, and_assoc, exists_and_left, ↓existsAndEq,
    currentContractAddress_returns, emit_returns, returns_pure, exists_const, true_and, closing]

theorem claimRewards_opens (hr : Ready w.storage) {x : Int} :
    Returns (claimRewards T u) env w x w' ↔
      w.storage.isPaused ≠ some true ∧ env.auths u = true ∧ AccrualFits w.storage .legacy u ∧
      VestingFits w.timestamp (vestingPeriod w.storage) (settled w.timestamp w.storage .legacy u) ∧
      ∃ w₁, Returns (payRewards T u (claimable w.timestamp w.storage .legacy u)
          (.claim u (claimable w.timestamp w.storage .legacy u))) env
        { w with storage := (afterClaim w.timestamp u (claimable w.timestamp w.storage .legacy u)
          (setGuard true w.storage)) } x w₁ ∧ w' = guarded false w₁ := by
  rw [claimRewards, open_returns hr]
  obtain ⟨hs, ⟨st, hst⟩, hg⟩ := hr
  simp only [returns_bind, and_assoc, exists_and_left, ↓existsAndEq, exists_const, true_and,
    requireAuth_returns]
  refine and_congr_right fun _ => and_congr_right fun _ => ?_
  refine (withNonReentrant_returns (w := w) hg).trans ?_
  simp only [guarded, returns_bind, onStorage_returns, and_assoc, exists_and_left, ↓existsAndEq,
    storeClaimableRewards_returns (sound_setGuard hs) (stateOf_setGuard hst), accrualFits_setGuard,
    vestingPeriod_setGuard, settled_setGuard, claimable_setGuard, true_and]

theorem depositAsset_opens (hr : Ready w.storage) {x : Unit} :
    Returns (depositAsset T u a amount) env w x w' ↔
      w.storage.isPaused ≠ some true ∧ 0 < amount ∧ env.auths u = true ∧
      supported w.storage a = true ∧ ∃ y w₁,
        Returns (T.transfer a u env.currentContract amount) env (guarded true w) y w₁ ∧
        ∃ r s, Returns (storeAssetDeposit u a amount) w₁.timestamp w₁.storage r s ∧
          w' = closing w₁ s (.assetDeposit u a amount) := by
  rw [depositAsset, open_returns hr]
  obtain ⟨_, ⟨st, hst⟩, hg⟩ := hr
  simp only [returns_bind, onStorage_returns, and_assoc, exists_and_left, ↓existsAndEq,
    exists_const, true_and, returns_lift, validatePositiveAmount_eq_ok, requireAuth_returns,
    requireAssetSupported_returns]
  refine and_congr_right fun _ => and_congr_right fun _ => and_congr_right fun _ =>
    and_congr_right fun _ => ?_
  refine (withNonReentrant_returns (w := w) hg).trans ?_
  simp only [guarded, returns_bind, onStorage_returns, and_assoc, exists_and_left, ↓existsAndEq,
    currentContractAddress_returns, emit_returns, true_and, closing]

theorem withdrawAsset_opens (hr : Ready w.storage) {x : Unit} :
    Returns (withdrawAsset T u a amount) env w x w' ↔
      w.storage.isPaused ≠ some true ∧ 0 < amount ∧ env.auths u = true ∧
      supported w.storage a = true ∧ AccrualFits w.storage (.asset a) u ∧
      amount ≤ (position w.storage (.asset a) u).balance ∧
      ∃ w₁, Returns (T.transfer a env.currentContract u amount) env
        (moved w (afterAssetMove w.timestamp u a (-amount) (setGuard true w.storage)) w.tokens
          [.assetWithdraw u a amount ((position w.storage (.asset a) u).balance - amount)
            w.timestamp]) x w₁ ∧ w' = guarded false w₁ := by
  rw [withdrawAsset, open_returns hr]
  obtain ⟨hs, ⟨st, hst⟩, hg⟩ := hr
  simp only [returns_bind, onStorage_returns, and_assoc, exists_and_left, ↓existsAndEq,
    exists_const, true_and, returns_lift, validatePositiveAmount_eq_ok, requireAuth_returns,
    requireAssetSupported_returns]
  refine and_congr_right fun _ => and_congr_right fun h0 => and_congr_right fun _ =>
    and_congr_right fun ha => ?_
  refine (withNonReentrant_returns (w := w) hg).trans ?_
  simp only [guarded, returns_bind, onStorage_returns, and_assoc, exists_and_left, ↓existsAndEq,
    exists_const, currentContractAddress_returns, storeAssetWithdraw_returns (sound_setGuard hs) h0.le,
    emit_returns, true_and, accrualFits_setGuard, position_setGuard, supported_setGuard, ha, moved]

theorem distributeRewardsForAsset_opens {admin : Address} (hr : Ready w.storage) {x : Int} :
    Returns (distributeRewardsForAsset T admin a amount) env w x w' ↔
      MIN_REWARD_DISTRIBUTION ≤ amount ∧ supported w.storage a = true ∧
      w.storage.admin = some admin ∧ env.auths admin = true ∧
      ∃ token, w.storage.rewardToken = some token ∧ ∃ y w₁,
        Returns (T.transfer token admin env.currentContract amount) env (guarded true w) y w₁ ∧
        ∃ s, Returns (storeAssetRewardDistribution a amount) w₁.timestamp w₁.storage x s ∧
          w' = closing w₁ s (.assetDistribute admin a amount) := by
  obtain ⟨_, ⟨st, hst⟩, hg⟩ := hr
  have hmin : 0 < MIN_REWARD_DISTRIBUTION := by decide
  simp only [distributeRewardsForAsset, returns_bind, onStorage_returns, and_assoc,
    exists_and_left, ↓existsAndEq, exists_const, requireInitialized_returns, hst.initialized,
    true_and, returns_lift, validatePositiveAmount_eq_ok, returns_failIf, requireAuth_returns,
    not_lt, getState_returns, hst.iff, exists_eq_left, requireAssetSupported_returns, not_not,
    hst.admin, hst.rewardToken, Option.some.injEq, exists_eq_left', eq_comm (a := st.admin)]
  rw [and_iff_right_of_imp fun h => hmin.trans_le h.1]
  refine and_congr_right fun _ => and_congr_right fun _ => and_congr_right fun _ =>
    and_congr_right fun _ => ?_
  refine (withNonReentrant_returns (w := w) hg).trans ?_
  simp only [guarded, returns_bind, onStorage_returns, and_assoc, exists_and_left, ↓existsAndEq,
    currentContractAddress_returns, emit_returns, returns_pure, exists_const, true_and, closing]

theorem claimRewardsForAsset_opens (hr : Ready w.storage) {x : Int} :
    Returns (claimRewardsForAsset T u a) env w x w' ↔
      w.storage.isPaused ≠ some true ∧ env.auths u = true ∧ supported w.storage a = true ∧
      AccrualFits w.storage (.asset a) u ∧
      VestingFits w.timestamp (vestingPeriod w.storage)
        (settled w.timestamp w.storage (.asset a) u) ∧
      ∃ w₁, Returns (payRewards T u (claimable w.timestamp w.storage (.asset a) u)
          (.assetClaim u a (claimable w.timestamp w.storage (.asset a) u))) env
        { w with storage := (afterAssetClaim w.timestamp u a
          (claimable w.timestamp w.storage (.asset a) u) (setGuard true w.storage)) } x w₁ ∧
        w' = guarded false w₁ := by
  rw [claimRewardsForAsset, open_returns hr]
  obtain ⟨hs, ⟨st, hst⟩, hg⟩ := hr
  simp only [returns_bind, onStorage_returns, and_assoc, exists_and_left, ↓existsAndEq,
    exists_const, true_and, requireAuth_returns, requireAssetSupported_returns]
  refine and_congr_right fun _ => and_congr_right fun _ => and_congr_right fun ha => ?_
  refine (withNonReentrant_returns (w := w) hg).trans ?_
  simp only [guarded, returns_bind, onStorage_returns, and_assoc, exists_and_left, ↓existsAndEq,
    storeAssetClaimableRewards_returns (sound_setGuard hs) (stateOf_setGuard hst),
    accrualFits_setGuard, vestingPeriod_setGuard, settled_setGuard, claimable_setGuard,
    supported_setGuard, ha, true_and]

end Opens

/-! ## The legacy pool -/

theorem deposit_returns (hr : Ready w.storage) {x : Unit} :
    Returns (deposit D.client u amount) env w x w' ↔
      w.storage.isPaused ≠ some true ∧ 0 < amount ∧ env.auths u = true ∧
      ∃ token tokens, w.storage.depositToken = some token ∧
        D.transfer w.tokens token u env.currentContract amount = some tokens ∧
        AccrualFits w.storage .legacy u ∧ poolTotal w.storage .legacy + amount ≤ i128Max ∧
        w' = moved w (afterDeposit w.timestamp u amount w.storage) tokens
          [.deposit u amount w.timestamp] := by
  refine (deposit_opens hr).trans ?_
  obtain ⟨hs, ⟨st, hst⟩, hg⟩ := hr
  refine and_congr_right fun _ => and_congr_right fun h0 => and_congr_right fun _ => ?_
  simp only [transfer_returns, closing, guarded, ↓existsAndEq, and_assoc, exists_and_left,
    exists_const, true_and, storeDeposit_returns (sound_setGuard hs) (stateOf_setGuard hst) h0.le,
    accrualFits_setGuard, poolTotal_setGuard]
  rw [setGuard_cycle (fun _ _ => rfl) hg]
  rfl

theorem withdraw_returns (hr : Ready w.storage) {x : Unit} :
    Returns (withdraw D.client u amount) env w x w' ↔
      w.storage.isPaused ≠ some true ∧ 0 < amount ∧ env.auths u = true ∧
      ∃ token tokens, w.storage.depositToken = some token ∧
        AccrualFits w.storage .legacy u ∧ amount ≤ withdrawable w.timestamp w.storage u ∧
        D.transfer w.tokens token env.currentContract u amount = some tokens ∧
        w' = moved w (afterWithdraw w.timestamp u amount w.storage) tokens
          [.withdraw u amount ((position w.storage .legacy u).balance - amount) w.timestamp] := by
  refine (withdraw_opens hr).trans ?_
  refine and_congr_right fun _ => and_congr_right fun _ => and_congr_right fun _ => ?_
  simp only [transfer_returns, moved, guarded, ↓existsAndEq, and_assoc, exists_and_left, true_and]
  rw [setGuard_cycle (fun _ _ => rfl) hr.idle]

theorem lock_returns (hr : Ready w.storage) {duration : Nat} {x : Unit} :
    Returns (lock u amount duration : VaultM τ Unit) env w x w' ↔
      w.storage.isPaused ≠ some true ∧ 0 < amount ∧ duration ≠ 0 ∧ env.auths u = true ∧
      w.timestamp + duration < u64Size ∧ AccrualFits w.storage .legacy u ∧
      amount ≤ liquid w.storage u ∧
      w' = moved w (afterLock w.timestamp u amount duration w.storage) w.tokens
        [.lock u amount (w.timestamp + duration) w.timestamp] := by
  rw [lock, open_returns hr]
  obtain ⟨hs, ⟨st, hst⟩, hg⟩ := hr
  have hs' : Sound (setGuard true w.storage) := sound_setGuard hs
  have hst' : StateOf (setGuard true w.storage) st := stateOf_setGuard hst
  simp only [returns_bind, and_assoc, exists_and_left, ↓existsAndEq, exists_const, true_and,
    returns_lift, validatePositiveAmount_eq_ok, returns_failIf, requireAuth_returns]
  refine and_congr_right fun _ => and_congr_right fun h0 => and_congr_right fun _ =>
    and_congr_right fun _ => ?_
  refine (withNonReentrant_returns (w := w) hg).trans ?_
  simp only [guarded, returns_bind, onStorage_returns, and_assoc, exists_and_left, ↓existsAndEq,
    exists_eq_left, exists_const, returns_gets, returns_okOr, checkedAddU64_eq_some,
    storeLock_returns hs' hst' h0.le, emit_returns, true_and, accrualFits_setGuard, liquid_setGuard]
  refine and_congr_right fun h64 => ?_
  simp only [h64, true_and]
  rw [setGuard_cycle (fun _ _ => rfl) hg]
  rfl

theorem unlockExpired_returns (hr : Ready w.storage) {limit : Nat} {x : Int} :
    Returns (unlockExpired u limit : VaultM τ Int) env w x w' ↔
      w.storage.isPaused ≠ some true ∧ env.auths u = true ∧ limit ≤ MAX_UNLOCK_LIMIT ∧
      x = lockSum (released w.timestamp limit (locks w.storage u)) ∧
      w' = moved w (afterUnlock w.timestamp limit u w.storage) w.tokens
        (if 0 < x then [.unlock u x w.timestamp] else []) := by
  rw [unlockExpired, open_returns hr]
  obtain ⟨hs, ⟨st, hst⟩, hg⟩ := hr
  have hs' : Sound (setGuard true w.storage) := sound_setGuard hs
  simp only [returns_bind, and_assoc, exists_and_left, ↓existsAndEq, exists_const, true_and,
    returns_failIf, requireAuth_returns, not_lt]
  refine and_congr_right fun _ => and_congr_right fun _ => and_congr_right fun _ => ?_
  refine (withNonReentrant_returns (w := w) hg).trans ?_
  simp only [guarded, returns_bind, onStorage_returns, and_assoc, exists_and_left, ↓existsAndEq,
    exists_eq_left, exists_const, unlockExpiredLocks_returns hs', true_and, locks_setGuard,
    returns_ite, emit_returns, returns_pure]
  have hcycle := setGuard_cycle (F := afterUnlock w.timestamp limit u) (fun _ _ => rfl) hg
  refine ⟨?_, ?_⟩
  · intro h
    obtain ⟨_, ⟨hpos, rfl, rfl⟩ | ⟨hpos, rfl, rfl⟩, rfl⟩ := h
    · rw [if_pos hpos, ← hcycle]
      exact ⟨rfl, rfl⟩
    · rw [if_neg hpos, ← hcycle, moved, List.append_nil]
      exact ⟨rfl, rfl⟩
  · intro h
    obtain ⟨rfl, rfl⟩ := h
    by_cases hpos : 0 < lockSum (released w.timestamp limit (locks w.storage u))
    · rw [if_pos hpos, ← hcycle]
      exact ⟨_, Or.inl ⟨hpos, rfl, rfl⟩, rfl⟩
    · rw [if_neg hpos, ← hcycle, moved, List.append_nil]
      exact ⟨_, Or.inr ⟨hpos, rfl, rfl⟩, rfl⟩

theorem distributeRewards_returns (hr : Ready w.storage) (hm : amount ≤ i128Max) {x : Int} :
    Returns (distributeRewards D.client amount) env w x w' ↔
      MIN_REWARD_DISTRIBUTION ≤ amount ∧
      ∃ admin token tokens, w.storage.admin = some admin ∧ env.auths admin = true ∧
        w.storage.rewardToken = some token ∧
        D.transfer w.tokens token admin env.currentContract amount = some tokens ∧
        (∃ m, multiplier w.storage = .ok m) ∧ amount * multiplierBps w.storage < u128Size ∧
        Distributes w.storage .legacy (effective w.storage amount) ∧
        x = poolIndex w.storage .legacy +
          increment w.storage .legacy (effective w.storage amount) ∧
        w' = moved w (afterDistribution (effective w.storage amount) w.storage) tokens
          [.distribute admin amount w.timestamp] := by
  refine (distributeRewards_opens hr).trans ?_
  obtain ⟨hs, ⟨st, hst⟩, hg⟩ := hr
  have hmin : 0 < MIN_REWARD_DISTRIBUTION := by decide
  refine and_congr_right fun hle => ?_
  simp only [transfer_returns, closing, guarded, ↓existsAndEq, and_assoc, exists_and_left,
    exists_const, true_and, storeRewardDistribution_returns (sound_setGuard hs)
      (stateOf_setGuard hst) (hmin.le.trans hle) hm, poolIndex_setGuard, distributes_setGuard,
    multiplier_setGuard, multiplierBps_setGuard, effective_setGuard, increment_setGuard]
  rw [setGuard_cycle (fun _ _ => rfl) hg]
  rfl

/-- A claim of `paid` is paid out in reward tokens; nothing moves for zero. -/
inductive Pays (D : Deployment τ) (env : Env) (w : World τ) (u : Address) : Int → τ → Prop
  | nothing : Pays D env w u 0 w.tokens
  | payout {paid : Int} {token : Address} {tokens : τ} : 0 < paid →
      w.storage.rewardToken = some token →
      paid ≤ D.balance w.tokens token env.currentContract →
      D.transfer w.tokens token env.currentContract u paid = some tokens →
      Pays D env w u paid tokens

/-- The log entry of a claim, if there is one. -/
def claimEvents (paid : Int) (e : Event) : List Event := if paid = 0 then [] else [e]

theorem payRewards_returns {st : VaultState} (hst : StateOf w.storage st) {e : Nat → Event}
    {paid x : Int} (h0 : 0 ≤ paid) :
    Returns (payRewards D.client u paid e) env w x w' ↔
      x = paid ∧ ∃ tokens, Pays D env w u paid tokens ∧
        w' = moved w w.storage tokens (claimEvents paid (e w.timestamp)) := by
  by_cases hp : paid ≤ 0
  · have hzero : paid = 0 := by omega
    subst hzero
    simp only [payRewards, le_refl, if_true, returns_pure]
    refine and_congr_right fun _ => ?_
    refine ⟨?_, ?_⟩
    · intro h
      subst h
      exact ⟨_, .nothing, by simp [moved, claimEvents]⟩
    · intro h
      obtain ⟨_, hpay, rfl⟩ := h
      cases hpay with
      | nothing => simp [moved, claimEvents]
      | payout h => exact absurd h (lt_irrefl 0)
  · have hne : paid ≠ 0 := by omega
    simp only [payRewards, if_neg hp, getRewardToken, returns_bind, onStorage_returns,
      getState_returns, hst.iff, and_assoc, exists_and_left, ↓existsAndEq, exists_eq_left,
      exists_const, returns_pure, currentContractAddress_returns, balance_returns, returns_lift,
      ensureContractBalance_eq_ok, transfer_returns, emit_returns, true_and]
    refine ⟨?_, ?_⟩
    · intro h
      obtain ⟨hbal, tokens, htr, rfl, rfl⟩ := h
      refine ⟨rfl, tokens, .payout (by omega) hst.rewardToken hbal htr, ?_⟩
      rw [claimEvents, if_neg hne]
      rfl
    · intro h
      obtain ⟨rfl, tokens, hpay, rfl⟩ := h
      rw [claimEvents, if_neg hne]
      cases hpay with
      | nothing => exact absurd rfl hne
      | payout _ htok hbal htr =>
        rw [hst.rewardToken] at htok
        obtain rfl := Option.some.inj htok
        exact ⟨hbal, tokens, htr, rfl, rfl⟩

/-- Payouts do not look at the vault's storage beyond its reward token. -/
theorem pays_congr {s : Storage} (h : s.rewardToken = w.storage.rewardToken) {paid : Int}
    {tokens : τ} : Pays D env { w with storage := s } u paid tokens ↔ Pays D env w u paid tokens := by
  refine ⟨?_, ?_⟩
  · intro hp
    cases hp with
    | nothing => exact .nothing
    | payout h0 ht hb htr => exact .payout h0 (h ▸ ht) hb htr
  · intro hp
    cases hp with
    | nothing => exact .nothing
    | payout h0 ht hb htr => exact .payout h0 (h.trans ht) hb htr

/-- The end of both claims: the storage has been written with the guard taken,
the payout follows, and the guard is released. -/
theorem payRewards_guarded {F : Storage → Storage} (hF : ∀ b s, F (setGuard b s) = setGuard b (F s))
    (hg : w.storage.reentrancyGuard = some false) {st : VaultState}
    (hst : StateOf (F (setGuard true w.storage)) st)
    (htok : (F (setGuard true w.storage)).rewardToken = w.storage.rewardToken)
    {e : Nat → Event} {paid x : Int} (h0 : 0 ≤ paid) :
    (∃ w₁, Returns (payRewards D.client u paid e) env
        { w with storage := F (setGuard true w.storage) } x w₁ ∧ w' = guarded false w₁) ↔
      x = paid ∧ ∃ tokens, Pays D env w u paid tokens ∧
        w' = moved w (F w.storage) tokens (claimEvents paid (e w.timestamp)) := by
  have hcycle := setGuard_cycle hF hg
  simp only [payRewards_returns (w := { w with storage := F (setGuard true w.storage) }) hst h0,
    pays_congr htok]
  refine ⟨?_, ?_⟩
  · intro h
    obtain ⟨_, ⟨rfl, tokens, hpay, rfl⟩, rfl⟩ := h
    refine ⟨rfl, tokens, hpay, ?_⟩
    rw [← hcycle]
    rfl
  · intro h
    obtain ⟨rfl, tokens, hpay, rfl⟩ := h
    refine ⟨_, ⟨rfl, tokens, hpay, rfl⟩, ?_⟩
    rw [← hcycle]
    rfl

theorem claimRewards_returns (hr : Ready w.storage) {x : Int} :
    Returns (claimRewards D.client u) env w x w' ↔
      w.storage.isPaused ≠ some true ∧ env.auths u = true ∧ AccrualFits w.storage .legacy u ∧
      VestingFits w.timestamp (vestingPeriod w.storage) (settled w.timestamp w.storage .legacy u) ∧
      x = claimable w.timestamp w.storage .legacy u ∧
      ∃ tokens, Pays D env w u (claimable w.timestamp w.storage .legacy u) tokens ∧
        w' = moved w
          (afterClaim w.timestamp u (claimable w.timestamp w.storage .legacy u) w.storage) tokens
          (claimEvents (claimable w.timestamp w.storage .legacy u)
            (.claim u (claimable w.timestamp w.storage .legacy u) w.timestamp)) := by
  refine (claimRewards_opens hr).trans ?_
  obtain ⟨hs, ⟨st, hst⟩, hg⟩ := hr
  refine and_congr_right fun _ => and_congr_right fun _ => and_congr_right fun _ =>
    and_congr_right fun _ => ?_
  exact payRewards_guarded (F := afterClaim w.timestamp u _) (fun _ _ => rfl) hg
    (hst.congr rfl) rfl
    (claimable_nonneg hs w.timestamp .legacy u)

/-! ## Asset pools -/

theorem addAsset_returns {admin : Address} (hst : ∃ st, StateOf w.storage st) {x : Unit} :
    Returns (addAsset admin a : VaultM τ Unit) env w x w' ↔
      w.storage.admin = some admin ∧ env.auths admin = true ∧
      w' = moved w (afterAddAsset a w.storage) w.tokens [.assetAdded a w.timestamp] := by
  obtain ⟨st, hst⟩ := hst
  simp only [addAsset, getAdmin, returns_bind, onStorage_returns, and_assoc, exists_and_left,
    ↓existsAndEq, exists_const, requireInitialized_returns, hst.initialized, true_and,
    getState_returns, hst.iff, exists_eq_left, returns_pure, returns_failIf, requireAuth_returns,
    addSupportedAsset_returns, emit_returns, not_not, hst.admin, Option.some.injEq]
  refine ⟨?_, ?_⟩
  · intro h
    obtain ⟨rfl, hauth, rfl⟩ := h
    exact ⟨rfl, hauth, rfl⟩
  · intro h
    obtain ⟨rfl, hauth, rfl⟩ := h
    exact ⟨rfl, hauth, rfl⟩

theorem depositAsset_returns (hr : Ready w.storage) {x : Unit} :
    Returns (depositAsset D.client u a amount) env w x w' ↔
      w.storage.isPaused ≠ some true ∧ 0 < amount ∧ env.auths u = true ∧
      supported w.storage a = true ∧
      ∃ tokens, D.transfer w.tokens a u env.currentContract amount = some tokens ∧
        AccrualFits w.storage (.asset a) u ∧ poolTotal w.storage (.asset a) + amount ≤ i128Max ∧
        w' = moved w (afterAssetMove w.timestamp u a amount w.storage) tokens
          [.assetDeposit u a amount w.timestamp] := by
  refine (depositAsset_opens hr).trans ?_
  refine and_congr_right fun _ => and_congr_right fun h0 => and_congr_right fun _ =>
    and_congr_right fun ha => ?_
  simp only [transfer_returns, closing, guarded, ↓existsAndEq, and_assoc, exists_and_left,
    exists_const, true_and, storeAssetDeposit_returns (sound_setGuard hr.sound) h0.le,
    accrualFits_setGuard, poolTotal_setGuard, supported_setGuard, ha]
  rw [setGuard_cycle (F := afterAssetMove w.timestamp u a amount) (fun _ _ => rfl) hr.idle]
  rfl

theorem withdrawAsset_returns (hr : Ready w.storage) {x : Unit} :
    Returns (withdrawAsset D.client u a amount) env w x w' ↔
      w.storage.isPaused ≠ some true ∧ 0 < amount ∧ env.auths u = true ∧
      supported w.storage a = true ∧ AccrualFits w.storage (.asset a) u ∧
      amount ≤ (position w.storage (.asset a) u).balance ∧
      ∃ tokens, D.transfer w.tokens a env.currentContract u amount = some tokens ∧
        w' = moved w (afterAssetMove w.timestamp u a (-amount) w.storage) tokens
          [.assetWithdraw u a amount ((position w.storage (.asset a) u).balance - amount)
            w.timestamp] := by
  refine (withdrawAsset_opens hr).trans ?_
  simp only [transfer_returns, moved, guarded, ↓existsAndEq, and_assoc, true_and]
  rw [setGuard_cycle (F := afterAssetMove w.timestamp u a (-amount)) (fun _ _ => rfl) hr.idle]

theorem distributeRewardsForAsset_returns {admin : Address} (hr : Ready w.storage) {x : Int} :
    Returns (distributeRewardsForAsset D.client admin a amount) env w x w' ↔
      MIN_REWARD_DISTRIBUTION ≤ amount ∧ supported w.storage a = true ∧
      w.storage.admin = some admin ∧ env.auths admin = true ∧
      ∃ token tokens, w.storage.rewardToken = some token ∧
        D.transfer w.tokens token admin env.currentContract amount = some tokens ∧
        Distributes w.storage (.asset a) amount ∧
        x = poolIndex w.storage (.asset a) + increment w.storage (.asset a) amount ∧
        w' = moved w (afterAssetDistribution a amount w.storage) tokens
          [.assetDistribute admin a amount w.timestamp] := by
  refine (distributeRewardsForAsset_opens hr).trans ?_
  have hmin : 0 < MIN_REWARD_DISTRIBUTION := by decide
  refine and_congr_right fun hle => and_congr_right fun ha => ?_
  simp only [transfer_returns, closing, guarded, ↓existsAndEq, and_assoc, exists_and_left,
    exists_const, true_and, storeAssetRewardDistribution_returns (sound_setGuard hr.sound)
      (hmin.le.trans hle), poolIndex_setGuard, distributes_setGuard, increment_setGuard,
    supported_setGuard, ha]
  rw [setGuard_cycle (F := afterAssetDistribution a amount) (fun _ _ => rfl) hr.idle]
  rfl

theorem claimRewardsForAsset_returns (hr : Ready w.storage) {x : Int} :
    Returns (claimRewardsForAsset D.client u a) env w x w' ↔
      w.storage.isPaused ≠ some true ∧ env.auths u = true ∧ supported w.storage a = true ∧
      AccrualFits w.storage (.asset a) u ∧
      VestingFits w.timestamp (vestingPeriod w.storage)
        (settled w.timestamp w.storage (.asset a) u) ∧
      x = claimable w.timestamp w.storage (.asset a) u ∧
      ∃ tokens, Pays D env w u (claimable w.timestamp w.storage (.asset a) u) tokens ∧
        w' = moved w
          (afterAssetClaim w.timestamp u a (claimable w.timestamp w.storage (.asset a) u) w.storage)
          tokens (claimEvents (claimable w.timestamp w.storage (.asset a) u)
            (.assetClaim u a (claimable w.timestamp w.storage (.asset a) u) w.timestamp)) := by
  refine (claimRewardsForAsset_opens hr).trans ?_
  obtain ⟨hs, ⟨st, hst⟩, hg⟩ := hr
  refine and_congr_right fun _ => and_congr_right fun _ => and_congr_right fun _ =>
    and_congr_right fun _ => and_congr_right fun _ => ?_
  exact payRewards_guarded (F := afterAssetClaim w.timestamp u a _) (fun _ _ => rfl) hg
    (hst.congr rfl) rfl
    (claimable_nonneg hs w.timestamp (.asset a) u)

/-! ## Administration -/

theorem proposeNewAdmin_returns {newAdmin : Address} (hst : ∃ st, StateOf w.storage st) {x : Unit} :
    Returns (proposeNewAdmin newAdmin : VaultM τ Unit) env w x w' ↔
      ∃ admin, w.storage.admin = some admin ∧ env.auths admin = true ∧
        w' = moved w { w.storage with pendingAdmin := some newAdmin } w.tokens
          [.adminTransferProposed admin newAdmin w.timestamp] := by
  obtain ⟨st, hst⟩ := hst
  simp only [proposeNewAdmin, getAdmin, setPendingAdmin, returns_bind, onStorage_returns, and_assoc,
    exists_and_left, ↓existsAndEq, exists_const, requireInitialized_returns, hst.initialized,
    true_and, getState_returns, hst.iff, exists_eq_left, returns_pure, requireAuth_returns,
    returns_modify, emit_returns, hst.admin, Option.some.injEq, exists_eq_left']
  rfl

theorem acceptAdmin_returns {newAdmin : Address} (hst : ∃ st, StateOf w.storage st) {x : Unit} :
    Returns (acceptAdmin newAdmin : VaultM τ Unit) env w x w' ↔
      env.auths newAdmin = true ∧ w.storage.pendingAdmin = some newAdmin ∧
      ∃ admin, w.storage.admin = some admin ∧
        w' = moved w { w.storage with admin := some newAdmin, pendingAdmin := none } w.tokens
          [.adminTransferAccepted admin newAdmin w.timestamp] := by
  obtain ⟨st, hst⟩ := hst
  simp only [acceptAdmin, getAdmin, getPendingAdmin, setAdmin, clearPendingAdmin, returns_bind,
    onStorage_returns, and_assoc, exists_and_left, ↓existsAndEq, exists_const,
    requireInitialized_returns, hst.initialized, true_and, getState_returns, hst.iff, exists_eq_left,
    returns_pure, requireAuth_returns, returns_gets, returns_okOr, returns_failIf, not_not,
    returns_modify, emit_returns, hst.admin, Option.some.injEq, exists_eq_left']
  rfl

theorem setPausedByAdmin_returns {paused : Bool} (hst : ∃ st, StateOf w.storage st) {x : Unit} :
    Returns (setPausedByAdmin paused : VaultM τ Unit) env w x w' ↔
      ∃ admin, w.storage.admin = some admin ∧ env.auths admin = true ∧
        w' = moved w { w.storage with isPaused := some paused } w.tokens [] := by
  obtain ⟨st, hst⟩ := hst
  simp only [setPausedByAdmin, getAdmin, setPaused, returns_bind, onStorage_returns, and_assoc,
    exists_and_left, ↓existsAndEq, exists_const, requireInitialized_returns, hst.initialized,
    true_and, getState_returns, hst.iff, exists_eq_left, returns_pure, requireAuth_returns,
    returns_modify, hst.admin, Option.some.injEq, exists_eq_left', moved, List.append_nil]

theorem upgrade_returns {hash : WasmHash} (hst : ∃ st, StateOf w.storage st) {x : Unit} :
    Returns (upgrade hash : VaultM τ Unit) env w x w' ↔
      ∃ admin, w.storage.admin = some admin ∧ env.auths admin = true ∧ env.uploaded hash = true ∧
        w' = { moved w w.storage w.tokens [.upgrade admin hash w.timestamp] with code := hash } := by
  obtain ⟨st, hst⟩ := hst
  simp only [upgrade, getAdmin, updateCurrentContractWasm, returns_bind, onStorage_returns,
    and_assoc, exists_and_left, ↓existsAndEq, exists_const, requireInitialized_returns,
    hst.initialized, true_and, getState_returns, hst.iff, exists_eq_left, returns_pure,
    requireAuth_returns, returns_ask, returns_ite, returns_modify, returns_halt, and_false, or_false,
    emit_returns, hst.admin, Option.some.injEq, exists_eq_left']
  rfl

theorem initializeVault_not_returns {admin depositToken rewardToken : Address} {period : Nat}
    {target : Int} {points : List MultiplierPoint} (hst : ∃ st, StateOf w.storage st) {x : Unit} :
    ¬ Returns (initializeVault admin depositToken rewardToken period target points : VaultM τ Unit)
      env w x w' := by
  obtain ⟨st, hst⟩ := hst
  simp [initializeVault, isInitialized, hst.initialized]

/-! ## All calls -/

/-- A successful call on a vault between calls, with the world it leaves. -/
inductive Effect (D : Deployment τ) (env : Env) (w : World τ) : Call → Value → World τ → Prop
  | proposeNewAdmin {admin newAdmin : Address} : w.storage.admin = some admin →
      env.auths admin = true →
      Effect D env w (.proposeNewAdmin newAdmin) .unit
        (moved w { w.storage with pendingAdmin := some newAdmin } w.tokens
          [.adminTransferProposed admin newAdmin w.timestamp])
  | acceptAdmin {admin newAdmin : Address} : env.auths newAdmin = true →
      w.storage.pendingAdmin = some newAdmin → w.storage.admin = some admin →
      Effect D env w (.acceptAdmin newAdmin) .unit
        (moved w { w.storage with admin := some newAdmin, pendingAdmin := none } w.tokens
          [.adminTransferAccepted admin newAdmin w.timestamp])
  | pauseContract {admin : Address} : w.storage.admin = some admin → env.auths admin = true →
      Effect D env w .pauseContract .unit
        (moved w { w.storage with isPaused := some true } w.tokens [])
  | unpauseContract {admin : Address} : w.storage.admin = some admin → env.auths admin = true →
      Effect D env w .unpauseContract .unit
        (moved w { w.storage with isPaused := some false } w.tokens [])
  | upgrade {admin : Address} {hash : WasmHash} : w.storage.admin = some admin →
      env.auths admin = true → env.uploaded hash = true →
      Effect D env w (.upgrade hash) .unit
        { moved w w.storage w.tokens [.upgrade admin hash w.timestamp] with code := hash }
  | deposit {u token : Address} {amount : I128} {tokens : τ} : w.storage.isPaused ≠ some true →
      0 < amount.val → env.auths u = true → w.storage.depositToken = some token →
      D.transfer w.tokens token u env.currentContract amount.val = some tokens →
      AccrualFits w.storage .legacy u → poolTotal w.storage .legacy + amount.val ≤ i128Max →
      Effect D env w (.deposit u amount) .unit
        (moved w (afterDeposit w.timestamp u amount.val w.storage) tokens
          [.deposit u amount.val w.timestamp])
  | withdraw {u token : Address} {amount : I128} {tokens : τ} : w.storage.isPaused ≠ some true →
      0 < amount.val → env.auths u = true → w.storage.depositToken = some token →
      AccrualFits w.storage .legacy u → amount.val ≤ withdrawable w.timestamp w.storage u →
      D.transfer w.tokens token env.currentContract u amount.val = some tokens →
      Effect D env w (.withdraw u amount) .unit
        (moved w (afterWithdraw w.timestamp u amount.val w.storage) tokens
          [.withdraw u amount.val ((position w.storage .legacy u).balance - amount.val) w.timestamp])
  | lock {u : Address} {amount : I128} {duration : UInt64} : w.storage.isPaused ≠ some true →
      0 < amount.val → duration.toNat ≠ 0 → env.auths u = true →
      w.timestamp + duration.toNat < u64Size → AccrualFits w.storage .legacy u →
      amount.val ≤ liquid w.storage u →
      Effect D env w (.lock u amount duration) .unit
        (moved w (afterLock w.timestamp u amount.val duration.toNat w.storage) w.tokens
          [.lock u amount.val (w.timestamp + duration.toNat) w.timestamp])
  | unlockExpired {u : Address} {limit : UInt32} {x : Int} : w.storage.isPaused ≠ some true →
      env.auths u = true → limit.toNat ≤ MAX_UNLOCK_LIMIT →
      x = lockSum (released w.timestamp limit.toNat (locks w.storage u)) →
      Effect D env w (.unlockExpired u limit) (.int x)
        (moved w (afterUnlock w.timestamp limit.toNat u w.storage) w.tokens
          (if 0 < x then [.unlock u x w.timestamp] else []))
  | distributeRewards {admin token : Address} {amount : I128} {tokens : τ} :
      MIN_REWARD_DISTRIBUTION ≤ amount.val → w.storage.admin = some admin →
      env.auths admin = true → w.storage.rewardToken = some token →
      D.transfer w.tokens token admin env.currentContract amount.val = some tokens →
      (∃ m, multiplier w.storage = .ok m) → amount.val * multiplierBps w.storage < u128Size →
      Distributes w.storage .legacy (effective w.storage amount.val) →
      Effect D env w (.distributeRewards amount)
        (.int (poolIndex w.storage .legacy +
          increment w.storage .legacy (effective w.storage amount.val)))
        (moved w (afterDistribution (effective w.storage amount.val) w.storage) tokens
          [.distribute admin amount.val w.timestamp])
  | claimRewards {u : Address} {paid : Int} {tokens : τ} : w.storage.isPaused ≠ some true →
      env.auths u = true → AccrualFits w.storage .legacy u →
      VestingFits w.timestamp (vestingPeriod w.storage) (settled w.timestamp w.storage .legacy u) →
      paid = claimable w.timestamp w.storage .legacy u → Pays D env w u paid tokens →
      Effect D env w (.claimRewards u) (.int paid)
        (moved w (afterClaim w.timestamp u paid w.storage) tokens
          (claimEvents paid (.claim u paid w.timestamp)))
  | addAsset {admin a : Address} : w.storage.admin = some admin → env.auths admin = true →
      Effect D env w (.addAsset admin a) .unit
        (moved w (afterAddAsset a w.storage) w.tokens [.assetAdded a w.timestamp])
  | depositAsset {u a : Address} {amount : I128} {tokens : τ} : w.storage.isPaused ≠ some true →
      0 < amount.val → env.auths u = true → supported w.storage a = true →
      D.transfer w.tokens a u env.currentContract amount.val = some tokens →
      AccrualFits w.storage (.asset a) u → poolTotal w.storage (.asset a) + amount.val ≤ i128Max →
      Effect D env w (.depositAsset u a amount) .unit
        (moved w (afterAssetMove w.timestamp u a amount.val w.storage) tokens
          [.assetDeposit u a amount.val w.timestamp])
  | withdrawAsset {u a : Address} {amount : I128} {tokens : τ} : w.storage.isPaused ≠ some true →
      0 < amount.val → env.auths u = true → supported w.storage a = true →
      AccrualFits w.storage (.asset a) u →
      amount.val ≤ (position w.storage (.asset a) u).balance →
      D.transfer w.tokens a env.currentContract u amount.val = some tokens →
      Effect D env w (.withdrawAsset u a amount) .unit
        (moved w (afterAssetMove w.timestamp u a (-amount.val) w.storage) tokens
          [.assetWithdraw u a amount.val ((position w.storage (.asset a) u).balance - amount.val)
            w.timestamp])
  | distributeRewardsForAsset {admin a token : Address} {amount : I128} {tokens : τ} :
      MIN_REWARD_DISTRIBUTION ≤ amount.val → supported w.storage a = true →
      w.storage.admin = some admin → env.auths admin = true →
      w.storage.rewardToken = some token →
      D.transfer w.tokens token admin env.currentContract amount.val = some tokens →
      Distributes w.storage (.asset a) amount.val →
      Effect D env w (.distributeRewardsForAsset admin a amount)
        (.int (poolIndex w.storage (.asset a) + increment w.storage (.asset a) amount.val))
        (moved w (afterAssetDistribution a amount.val w.storage) tokens
          [.assetDistribute admin a amount.val w.timestamp])
  | claimRewardsForAsset {u a : Address} {paid : Int} {tokens : τ} :
      w.storage.isPaused ≠ some true → env.auths u = true → supported w.storage a = true →
      AccrualFits w.storage (.asset a) u →
      VestingFits w.timestamp (vestingPeriod w.storage)
        (settled w.timestamp w.storage (.asset a) u) →
      paid = claimable w.timestamp w.storage (.asset a) u → Pays D env w u paid tokens →
      Effect D env w (.claimRewardsForAsset u a) (.int paid)
        (moved w (afterAssetClaim w.timestamp u a paid w.storage) tokens
          (claimEvents paid (.assetClaim u a paid w.timestamp)))
  | view {v : View} {r : Value} : Returns (execView v) w.timestamp w.storage r w.storage →
      Effect D env w (.view v) r w

theorem readOnly_execView (v : View) : ReadOnly (execView v) := by
  cases v with
  | version => exact .pure _
  | balance u => exact .bind (.bind (readOnly_getUserPosition u) fun _ => .pure _) fun _ => .pure _
  | liquidBalance u => exact .bind (.bind readOnly_requireInitialized fun _ => .gets _) fun _ => .pure _
  | lockedBalance u =>
    exact .bind (.bind readOnly_requireInitialized fun _ => .bind (.gets _) fun _ => .bind .ask fun _ =>
      .pure _) fun _ => .pure _
  | totalDeposits => exact .bind (.bind readOnly_getState fun _ => .pure _) fun _ => .pure _
  | rewardIndex => exact .bind (.bind readOnly_getState fun _ => .pure _) fun _ => .pure _
  | pendingRewards u =>
    exact .bind (.bind (readOnly_previewUserRewards u) fun _ => .pure _) fun _ => .pure _
  | vestedRewards u =>
    exact .bind (.bind (readOnly_previewUserRewards u) fun _ => .pure _) fun _ => .pure _
  | vestingPeriod => exact .bind (.bind readOnly_getState fun _ => .pure _) fun _ => .pure _
  | admin => exact .bind (.bind readOnly_getState fun _ => .pure _) fun _ => .pure _
  | pendingAdmin => exact .bind (.bind readOnly_requireInitialized fun _ => .gets _) fun _ => .pure _
  | depositToken => exact .bind (.bind readOnly_getState fun _ => .pure _) fun _ => .pure _
  | rewardToken => exact .bind (.bind readOnly_getState fun _ => .pure _) fun _ => .pure _
  | balanceOfAsset u a =>
    exact .bind (.bind (readOnly_getUserAssetPosition u a) fun _ => .pure _) fun _ => .pure _
  | totalDepositsOfAsset a =>
    exact .bind (.bind (readOnly_requireAssetSupported a) fun _ => .gets _) fun _ => .pure _
  | rewardIndexOfAsset a => exact .bind (readOnly_getAssetRewardIndex a) fun _ => .pure _
  | pendingRewardsForAsset u a =>
    exact .bind (.bind (readOnly_previewUserAssetRewards u a) fun _ => .pure _) fun _ => .pure _
  | vestedRewardsForAsset u a =>
    exact .bind (.bind (readOnly_previewUserAssetRewards u a) fun _ => .pure _) fun _ => .pure _
  | isAssetSupported a => exact .bind (.bind (.gets _) fun _ => .pure _) fun _ => .pure _

theorem returns_then {m : VaultM τ Unit} {value v : Value} :
    Returns (do m; return v) env w value w' ↔ value = v ∧ Returns m env w () w' := by
  simp only [returns_bind, returns_pure]
  refine ⟨?_, ?_⟩
  · intro h
    obtain ⟨_, _, h, rfl, rfl⟩ := h
    exact ⟨rfl, h⟩
  · intro h
    obtain ⟨rfl, h⟩ := h
    exact ⟨(), _, h, rfl, rfl⟩

theorem returns_int {m : VaultM τ Int} {value : Value} :
    Returns (do return .int (← m)) env w value w' ↔ ∃ x, value = .int x ∧ Returns m env w x w' := by
  simp only [returns_bind, returns_pure]
  refine ⟨?_, ?_⟩
  · intro h
    obtain ⟨x, _, h, rfl, rfl⟩ := h
    exact ⟨x, rfl, h⟩
  · intro h
    obtain ⟨x, rfl, h⟩ := h
    exact ⟨x, _, h, rfl, rfl⟩

/-- A call that returns has the effect listed for it. -/
theorem effect_of_returns (hr : Ready w.storage) {call : Call} {value : Value}
    (h : Returns (exec D.client call) env w value w') : Effect D env w call value w' := by
  cases call with
  | initializeVault => exact absurd (returns_then.mp h).2 (initializeVault_not_returns hr.state)
  | proposeNewAdmin =>
    obtain ⟨rfl, hc⟩ := returns_then.mp h
    obtain ⟨_, ha, hauth, rfl⟩ := (proposeNewAdmin_returns hr.state).mp hc
    exact .proposeNewAdmin ha hauth
  | acceptAdmin =>
    obtain ⟨rfl, hc⟩ := returns_then.mp h
    obtain ⟨hauth, hp, _, ha, rfl⟩ := (acceptAdmin_returns hr.state).mp hc
    exact .acceptAdmin hauth hp ha
  | deposit =>
    obtain ⟨rfl, hc⟩ := returns_then.mp h
    obtain ⟨hp, h0, hauth, _, _, htok, htr, hfit, htot, rfl⟩ := (deposit_returns hr).mp hc
    exact .deposit hp h0 hauth htok htr hfit htot
  | withdraw =>
    obtain ⟨rfl, hc⟩ := returns_then.mp h
    obtain ⟨hp, h0, hauth, _, _, htok, hfit, hle, htr, rfl⟩ := (withdraw_returns hr).mp hc
    exact .withdraw hp h0 hauth htok hfit hle htr
  | distributeRewards amount =>
    obtain ⟨_, rfl, hc⟩ := returns_int.mp h
    obtain ⟨hmin, _, _, _, ha, hauth, htok, htr, hm, hlt, hd, rfl, rfl⟩ :=
      (distributeRewards_returns hr amount.inRange.2).mp hc
    exact .distributeRewards hmin ha hauth htok htr hm hlt hd
  | lock =>
    obtain ⟨rfl, hc⟩ := returns_then.mp h
    obtain ⟨hp, h0, hd, hauth, h64, hfit, hle, rfl⟩ := (lock_returns hr).mp hc
    exact .lock hp h0 hd hauth h64 hfit hle
  | unlockExpired =>
    obtain ⟨_, rfl, hc⟩ := returns_int.mp h
    obtain ⟨hp, hauth, hlim, hx, rfl⟩ := (unlockExpired_returns hr).mp hc
    exact .unlockExpired hp hauth hlim hx
  | claimRewards =>
    obtain ⟨_, rfl, hc⟩ := returns_int.mp h
    obtain ⟨hp, hauth, hfit, hv, rfl, _, hpay, rfl⟩ := (claimRewards_returns hr).mp hc
    exact .claimRewards hp hauth hfit hv rfl hpay
  | pauseContract =>
    obtain ⟨rfl, hc⟩ := returns_then.mp h
    obtain ⟨_, ha, hauth, rfl⟩ := (setPausedByAdmin_returns hr.state).mp hc
    exact .pauseContract ha hauth
  | unpauseContract =>
    obtain ⟨rfl, hc⟩ := returns_then.mp h
    obtain ⟨_, ha, hauth, rfl⟩ := (setPausedByAdmin_returns hr.state).mp hc
    exact .unpauseContract ha hauth
  | upgrade =>
    obtain ⟨rfl, hc⟩ := returns_then.mp h
    obtain ⟨_, ha, hauth, hup, rfl⟩ := (upgrade_returns hr.state).mp hc
    exact .upgrade ha hauth hup
  | addAsset =>
    obtain ⟨rfl, hc⟩ := returns_then.mp h
    obtain ⟨ha, hauth, rfl⟩ := (addAsset_returns hr.state).mp hc
    exact .addAsset ha hauth
  | depositAsset =>
    obtain ⟨rfl, hc⟩ := returns_then.mp h
    obtain ⟨hp, h0, hauth, hsup, _, htr, hfit, htot, rfl⟩ := (depositAsset_returns hr).mp hc
    exact .depositAsset hp h0 hauth hsup htr hfit htot
  | withdrawAsset =>
    obtain ⟨rfl, hc⟩ := returns_then.mp h
    obtain ⟨hp, h0, hauth, hsup, hfit, hle, _, htr, rfl⟩ := (withdrawAsset_returns hr).mp hc
    exact .withdrawAsset hp h0 hauth hsup hfit hle htr
  | distributeRewardsForAsset =>
    obtain ⟨_, rfl, hc⟩ := returns_int.mp h
    obtain ⟨hmin, hsup, ha, hauth, _, _, htok, htr, hd, rfl, rfl⟩ :=
      (distributeRewardsForAsset_returns hr).mp hc
    exact .distributeRewardsForAsset hmin hsup ha hauth htok htr hd
  | claimRewardsForAsset =>
    obtain ⟨_, rfl, hc⟩ := returns_int.mp h
    obtain ⟨hp, hauth, hsup, hfit, hv, rfl, _, hpay, rfl⟩ :=
      (claimRewardsForAsset_returns hr).mp hc
    exact .claimRewardsForAsset hp hauth hsup hfit hv rfl hpay
  | view v =>
    obtain ⟨s, hs, rfl⟩ := onStorage_returns.mp h
    obtain rfl := readOnly_execView v _ _ _ _ hs
    exact .view hs

/-- And every listed effect is one the code has. -/
theorem returns_of_effect (hr : Ready w.storage) {call : Call} {value : Value}
    (h : Effect D env w call value w') : Returns (exec D.client call) env w value w' := by
  cases h with
  | proposeNewAdmin ha hauth =>
    exact returns_then.mpr ⟨rfl, (proposeNewAdmin_returns hr.state).mpr ⟨_, ha, hauth, rfl⟩⟩
  | acceptAdmin hauth hp ha =>
    exact returns_then.mpr ⟨rfl, (acceptAdmin_returns hr.state).mpr ⟨hauth, hp, _, ha, rfl⟩⟩
  | pauseContract ha hauth =>
    exact returns_then.mpr ⟨rfl, (setPausedByAdmin_returns hr.state).mpr ⟨_, ha, hauth, rfl⟩⟩
  | unpauseContract ha hauth =>
    exact returns_then.mpr ⟨rfl, (setPausedByAdmin_returns hr.state).mpr ⟨_, ha, hauth, rfl⟩⟩
  | upgrade ha hauth hup =>
    exact returns_then.mpr ⟨rfl, (upgrade_returns hr.state).mpr ⟨_, ha, hauth, hup, rfl⟩⟩
  | deposit hp h0 hauth htok htr hfit htot =>
    exact returns_then.mpr ⟨rfl,
      (deposit_returns hr).mpr ⟨hp, h0, hauth, _, _, htok, htr, hfit, htot, rfl⟩⟩
  | withdraw hp h0 hauth htok hfit hle htr =>
    exact returns_then.mpr ⟨rfl,
      (withdraw_returns hr).mpr ⟨hp, h0, hauth, _, _, htok, hfit, hle, htr, rfl⟩⟩
  | lock hp h0 hd hauth h64 hfit hle =>
    exact returns_then.mpr ⟨rfl, (lock_returns hr).mpr ⟨hp, h0, hd, hauth, h64, hfit, hle, rfl⟩⟩
  | unlockExpired hp hauth hlim hx =>
    exact returns_int.mpr ⟨_, rfl, (unlockExpired_returns hr).mpr ⟨hp, hauth, hlim, hx, rfl⟩⟩
  | distributeRewards hmin ha hauth htok htr hm hlt hd =>
    exact returns_int.mpr ⟨_, rfl, (distributeRewards_returns hr (I128.inRange _).2).mpr
      ⟨hmin, _, _, _, ha, hauth, htok, htr, hm, hlt, hd, rfl, rfl⟩⟩
  | claimRewards hp hauth hfit hv hpaid hpay =>
    subst hpaid
    exact returns_int.mpr ⟨_, rfl,
      (claimRewards_returns hr).mpr ⟨hp, hauth, hfit, hv, rfl, _, hpay, rfl⟩⟩
  | addAsset ha hauth =>
    exact returns_then.mpr ⟨rfl, (addAsset_returns hr.state).mpr ⟨ha, hauth, rfl⟩⟩
  | depositAsset hp h0 hauth hsup htr hfit htot =>
    exact returns_then.mpr ⟨rfl,
      (depositAsset_returns hr).mpr ⟨hp, h0, hauth, hsup, _, htr, hfit, htot, rfl⟩⟩
  | withdrawAsset hp h0 hauth hsup hfit hle htr =>
    exact returns_then.mpr ⟨rfl,
      (withdrawAsset_returns hr).mpr ⟨hp, h0, hauth, hsup, hfit, hle, _, htr, rfl⟩⟩
  | distributeRewardsForAsset hmin hsup ha hauth htok htr hd =>
    exact returns_int.mpr ⟨_, rfl, (distributeRewardsForAsset_returns hr).mpr
      ⟨hmin, hsup, ha, hauth, _, _, htok, htr, hd, rfl, rfl⟩⟩
  | claimRewardsForAsset hp hauth hsup hfit hv hpaid hpay =>
    subst hpaid
    exact returns_int.mpr ⟨_, rfl,
      (claimRewardsForAsset_returns hr).mpr ⟨hp, hauth, hsup, hfit, hv, rfl, _, hpay, rfl⟩⟩
  | view hv => exact onStorage_returns.mpr ⟨_, hv, rfl⟩

/-- **The effects are the code.** -/
theorem exec_iff (hr : Ready w.storage) {call : Call} {value : Value} :
    Returns (exec D.client call) env w value w' ↔ Effect D env w call value w' :=
  ⟨effect_of_returns hr, returns_of_effect hr⟩

/-- A step of the chain, with what its call does in place of the call's code. -/
inductive StepEffect (D : Deployment τ) (w : World τ) : Entry τ → World τ → Prop
  | call {env : Env} {call : Call} {value : Value} {w' : World τ} :
      env.currentContract = D.contract → Effect D env w call value w' →
      StepEffect D w (.ok env call w value) w'
  | failed {env : Env} {call : Call} : StepEffect D w (.failed env call) w
  | outside {tokens : τ} {timestamp : Nat} : w.timestamp ≤ timestamp →
      (∀ k, D.balance w.tokens k D.contract ≤ D.balance tokens k D.contract) →
      StepEffect D w .outside { w with tokens := tokens, timestamp := timestamp }

/-- A failed call leaves everything as it was, a successful one has its effect. -/
theorem stepEffect_of_step (hr : Ready w.storage) {e : Entry τ} (hs : ChainStep D w e w') :
    StepEffect D w e w' := by
  cases hs with
  | ok hc hret => exact .call hc (effect_of_returns hr hret)
  | failed _ hn =>
    rw [invoke_of_not_returns fun value w' => hn value w']
    exact .failed
  | outside ht hb => exact .outside ht hb

end Pieces
end Axionvera.Vault.Effects

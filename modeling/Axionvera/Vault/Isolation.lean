import Axionvera.Vault.Rewards
import Axionvera.Vault.Views

/-! # Pools and users do not touch each other

Every accounting value that a getter of `storage.rs` reads belongs to one part
of the books: what one user holds in one pool, the total of a pool, or its
index. A successful call changes only the parts it is about; the getters of all
other parts answer as before, at every later time. -/
namespace Axionvera.Vault.Isolation
open Axionvera.Lib.Host Axionvera.Lib.KeyValue Axionvera.Lib.MachineInt Axionvera.Lib.RewardPool
open Axionvera.Vault.Types Axionvera.Vault.Storage Axionvera.Vault.Contract Axionvera.Vault.Chain
open Axionvera.Vault.Accounts Axionvera.Vault.StorageSpec Axionvera.Vault.Effects
open Axionvera.Vault.Refinement Axionvera.Vault.Principal Axionvera.Vault.Rewards
open Axionvera.Vault.Views

/-! ## Getters -/

/-- The getters of accounting values in `storage.rs`. -/
inductive Getter where
  | userPosition (user : Address)
  | userBalance (user : Address)
  | liquidBalance (user : Address)
  | lockedBalance (user : Address)
  | userLocks (user : Address)
  | totalDeposits
  | rewardIndex
  | userAssetPosition (user asset : Address)
  | userAssetBalance (user asset : Address)
  | assetTotalDeposits (asset : Address)
  | assetRewardIndex (asset : Address)

inductive Reading where
  | position (q : UserPosition)
  | amount (x : Int)
  | locks (ls : List Lock)

def read : Getter → StoreM Reading
  | .userPosition user => return .position (← getUserPosition user)
  | .userBalance user => return .amount (← getUserBalance user)
  | .liquidBalance user => return .amount (← getLiquidBalance user)
  | .lockedBalance user => return .amount (← getLockedBalance user)
  | .userLocks user => return .locks (← getUserLocksUnchecked user)
  | .totalDeposits => return .amount (← getTotalDeposits)
  | .rewardIndex => return .amount (← getRewardIndex)
  | .userAssetPosition user asset => return .position (← getUserAssetPosition user asset)
  | .userAssetBalance user asset => return .amount (← getUserAssetBalance user asset)
  | .assetTotalDeposits asset => return .amount (← getAssetTotalDeposits asset)
  | .assetRewardIndex asset => return .amount (← getAssetRewardIndex asset)

/-- A part of the books. -/
inductive Part where
  | holding (p : PoolId) (u : Address)
  | total (p : PoolId)
  | index (p : PoolId)

def Part.pool : Part → PoolId
  | .holding p _ => p
  | .total p => p
  | .index p => p

/-- The part that a getter reads. -/
def Getter.part : Getter → Part
  | .userPosition u => .holding .legacy u
  | .userBalance u => .holding .legacy u
  | .liquidBalance u => .holding .legacy u
  | .lockedBalance u => .holding .legacy u
  | .userLocks u => .holding .legacy u
  | .totalDeposits => .total .legacy
  | .rewardIndex => .index .legacy
  | .userAssetPosition u a => .holding (.asset a) u
  | .userAssetBalance u a => .holding (.asset a) u
  | .assetTotalDeposits a => .total (.asset a)
  | .assetRewardIndex a => .index (.asset a)

/-- What a call is about. Listing an asset makes its getters answer. -/
def About : Call → Part → Prop
  | .deposit u _, part => part = .holding .legacy u ∨ part = .total .legacy
  | .withdraw u _, part => part = .holding .legacy u ∨ part = .total .legacy
  | .lock u _ _, part => part = .holding .legacy u ∨ part = .total .legacy
  | .unlockExpired u _, part => part = .holding .legacy u ∨ part = .total .legacy
  | .claimRewards u, part => part = .holding .legacy u ∨ part = .total .legacy
  | .distributeRewards _, part => part = .index .legacy
  | .depositAsset u a _, part => part = .holding (.asset a) u ∨ part = .total (.asset a)
  | .withdrawAsset u a _, part => part = .holding (.asset a) u ∨ part = .total (.asset a)
  | .claimRewardsForAsset u a, part => part = .holding (.asset a) u ∨ part = .total (.asset a)
  | .distributeRewardsForAsset _ a _, part => part = .index (.asset a)
  | .addAsset _ a, part => part.pool = .asset a
  | _, _ => False

/-! ## What a getter answers -/

section Answers
variable {now : Nat} {s t : Storage} {r : Reading}

/-- The answer of a getter on a vault between calls. -/
def reading (now : Nat) (s : Storage) : Getter → Reading
  | .userPosition u => .position (position s .legacy u)
  | .userBalance u => .amount (position s .legacy u).balance
  | .liquidBalance u => .amount (liquid s u)
  | .lockedBalance u => .amount (sumI128 (runningAmounts now s u))
  | .userLocks u => .locks (locks s u)
  | .totalDeposits => .amount (poolTotal s .legacy)
  | .rewardIndex => .amount (poolIndex s .legacy)
  | .userAssetPosition u a => .position (position s (.asset a) u)
  | .userAssetBalance u a => .amount (position s (.asset a) u).balance
  | .assetTotalDeposits a => .amount (poolTotal s (.asset a))
  | .assetRewardIndex a => .amount (poolIndex s (.asset a))

theorem read_returns (hr : Ready s) (g : Getter) : Returns (read g) now s r t ↔
    Listed s g.part.pool ∧ r = reading now s g ∧ t = s := by
  obtain ⟨hs, ⟨st, hst⟩, _⟩ := hr
  cases g with
  | userPosition | userBalance | liquidBalance | lockedBalance | userLocks =>
    simp only [read, getUserPosition, getUserBalance, getLiquidBalance, getLockedBalance,
      getLiquidBalanceUnchecked, getUserLocksUnchecked, returns_bind, requireInitialized_returns,
      hst.initialized, getUserPositionUnchecked_returns hs, returns_gets, returns_ask, returns_pure,
      and_assoc, exists_and_left, ↓existsAndEq, exists_const, true_and, Listed, Getter.part,
      Part.pool]
    rfl
  | totalDeposits | rewardIndex =>
    simp only [read, getTotalDeposits, getRewardIndex, returns_bind, getState_returns, hst.iff,
      returns_pure, and_assoc, exists_and_left, ↓existsAndEq, true_and, hst.totalDeposits,
      hst.rewardIndex, Listed, Getter.part, Part.pool]
    rfl
  | userAssetPosition | userAssetBalance | assetTotalDeposits | assetRewardIndex =>
    simp only [read, getUserAssetPosition, getUserAssetBalance, returns_bind,
      requireInitialized_returns, hst.initialized, requireAssetSupported_returns,
      getUserAssetPositionUnchecked_returns, getAssetTotalDeposits_returns,
      getAssetRewardIndex_returns, returns_pure, and_assoc, exists_and_left, ↓existsAndEq,
      exists_const, true_and, Listed, Getter.part, Part.pool]
    rfl

/-- Two storages agree on a part of the books. -/
def Same (s t : Storage) : Part → Prop
  | .holding p u => position t p u = position s p u ∧
      (p = .legacy → liquid t u = liquid s u ∧ locks t u = locks s u)
  | .total p => poolTotal t p = poolTotal s p
  | .index p => poolIndex t p = poolIndex s p

theorem reading_of_same {g : Getter} (h : Same s t g.part) (now : Nat) :
    reading now t g = reading now s g := by
  cases g with
  | userPosition u | userBalance u | userAssetPosition u a | userAssetBalance u a =>
    simp only [reading, h.1]
  | liquidBalance u => simp only [reading, (h.2 rfl).1]
  | lockedBalance u | userLocks u => simp only [reading, runningAmounts, (h.2 rfl).2]
  | totalDeposits | rewardIndex | assetTotalDeposits | assetRewardIndex =>
    exact congrArg Reading.amount h

end Answers

/-! ## What a call changes -/

section Calls
variable {τ : Type} {D : Deployment τ} {env : Env} {w w' : World τ} {call : Call} {value : Value}
variable {p : PoolId} {u : Address}

theorem callMove_subject (h : (callMove w value p call).subject = some u) :
    About call (.holding p u) := by
  cases call with
  | deposit | withdraw | lock | claimRewards | depositAsset | withdrawAsset | claimRewardsForAsset =>
    rw [callMove] at h
    split at h
    · rename_i hp
      subst hp
      obtain rfl := Option.some.inj h
      exact Or.inl rfl
    · cases h
  | distributeRewards | distributeRewardsForAsset =>
    rw [callMove] at h
    split at h
    · cases h
    · cases h
  | _ => cases h

theorem callMove_delta (h : ¬ About call (.total p)) : (callMove w value p call).delta = 0 := by
  cases call with
  | deposit | withdraw | lock | claimRewards | depositAsset | withdrawAsset | claimRewardsForAsset =>
    rw [callMove]
    split
    · rename_i hp
      subst hp
      exact absurd (Or.inr rfl) h
    · rfl
  | distributeRewards | distributeRewardsForAsset =>
    rw [callMove]
    split
    · rfl
    · rfl
  | _ => rfl

theorem not_distributesTo (h : ¬ About call (.index p)) : ¬ DistributesTo p call := by
  intro hd
  cases call with
  | distributeRewards => exact h (congrArg Part.index hd)
  | distributeRewardsForAsset => exact h (congrArg Part.index hd)
  | _ => exact hd

/-- The liquid balance and the locks of a user, which the pools see as one. -/
theorem books_of_effect (heff : Effect D env w call value w')
    (h : ¬ About call (.holding .legacy u)) :
    liquid w'.storage u = liquid w.storage u ∧ locks w'.storage u = locks w.storage u := by
  have hne : ∀ {v : Address}, ¬ (Part.holding .legacy u = .holding .legacy v ∨
      Part.holding .legacy u = .total .legacy) → u ≠ v := by
    intro v hn huv
    exact hn (Or.inl (congrArg (Part.holding .legacy) huv))
  cases heff with
  | deposit => exact ⟨liquid_afterDeposit.trans (if_neg (hne h)), rfl⟩
  | withdraw =>
    exact ⟨liquid_afterWithdraw.trans (if_neg (hne h)), locks_afterWithdraw.trans (if_neg (hne h))⟩
  | lock => exact ⟨liquid_afterLock.trans (if_neg (hne h)), locks_afterLock.trans (if_neg (hne h))⟩
  | unlockExpired =>
    exact ⟨liquid_afterUnlock.trans (if_neg (hne h)), locks_afterUnlock.trans (if_neg (hne h))⟩
  | _ => exact ⟨rfl, rfl⟩

theorem position_of_account {s t : Storage} (h : (pool t p).account u = (pool s p).account u) :
    position t p u = position s p u :=
  toAccount_injective h

/-- A call leaves every part of the books alone that it is not about. -/
theorem same_of_effect (hs : Sound w.storage) (heff : Effect D env w call value w') {part : Part}
    (h : ¬ About call part) : Same w.storage w'.storage part := by
  cases part with
  | holding p u =>
    refine ⟨position_of_account ((effect_step hs heff p).account_other ?_), ?_⟩
    · intro hsub
      exact h (callMove_subject hsub)
    · intro hp
      subst hp
      exact books_of_effect heff h
  | total p =>
    have htotal := (effect_step hs heff p).total_eq
    rwa [callMove_delta h, add_zero] at htotal
  | index p => exact (effect_step hs heff p).index_eq (callMove_ne_distribute (not_distributesTo h))

theorem listed_of_effect (heff : Effect D env w call value w') {part : Part}
    (h : ¬ About call part) : Listed w'.storage part.pool ↔ Listed w.storage part.pool := by
  cases heff with
  | @addAsset admin a =>
    cases hp : part.pool with
    | legacy => exact Iff.rfl
    | asset b =>
      have hb : b ≠ a := fun hba => h (hp.trans (congrArg PoolId.asset hba))
      change supported (afterAddAsset a w.storage) b = true ↔ supported w.storage b = true
      rw [supported_afterAddAsset, decide_eq_false hb, Bool.false_or]
  | _ => cases part.pool <;> exact Iff.rfl

/-- The previews of a position that a call leaves alone, in a pool whose index
it leaves alone. -/
theorem previews_of_effect (hr : Ready w.storage) (heff : Effect D env w call value w')
    (hu : ¬ About call (.holding p u)) (hp : ¬ About call (.index p)) (now : Nat) :
    (Previews now w'.storage p u ↔ Previews now w.storage p u) ∧
      pending w'.storage p u = pending w.storage p u ∧
      claimable now w'.storage p u = claimable now w.storage p u := by
  have hpos : position w'.storage p u = position w.storage p u := (same_of_effect hr.sound heff hu).1
  have hidx : poolIndex w'.storage p = poolIndex w.storage p := same_of_effect hr.sound heff hp
  have hlisted : Listed w'.storage p ↔ Listed w.storage p := listed_of_effect heff hp
  have hperiod : vestingPeriod w'.storage = vestingPeriod w.storage := by
    unfold vestingPeriod
    exact congrArg (fun c => c.vestingPeriod.getD 0) (configOf_of_effect heff)
  have hpending : pending w'.storage p u = pending w.storage p u := by
    have h : ∀ s, pending s p u = (settle 0 (poolIndex s p) (position s p u)).accruedRewards :=
      fun _ => rfl
    rw [h, h, hpos, hidx]
  have hsettled : settled now w'.storage p u = settled now w.storage p u := by
    rw [settled, settled, hpos, hidx]
  refine ⟨?_, hpending, ?_⟩
  · refine ⟨?_, ?_⟩
    · intro h
      exact ⟨hlisted.mp h.listed, ⟨hpos ▸ hidx ▸ h.accrual.product, hpending ▸ h.accrual.pending⟩,
        hsettled ▸ hperiod ▸ h.vesting⟩
    · intro h
      refine ⟨hlisted.mpr h.listed, ⟨?_, ?_⟩, ?_⟩
      · rw [hpos, hidx]
        exact h.accrual.product
      · rw [hpending]
        exact h.accrual.pending
      · rw [hsettled, hperiod]
        exact h.vesting
  · rw [claimable, claimable, hsettled, hperiod]

/-- **Isolation of pools and users.** In a reachable state a successful call
changes no accounting value but those it is about: every getter of another part
answers at every time as before, and so do the reward previews of a position
that is not the caller's in a pool that received nothing. -/
theorem getters_isolated (hr : Reachable D w) (hret : Returns (exec D.client call) env w value w') :
    (∀ g : Getter, ¬ About call g.part → ∀ now r,
      Returns (read g) now w'.storage r w'.storage ↔ Returns (read g) now w.storage r w.storage) ∧
    ∀ p u, ¬ About call (.holding p u) → ¬ About call (.index p) → ∀ now r,
      (Returns (execView (pendingView p u)) now w'.storage r w'.storage ↔
        Returns (execView (pendingView p u)) now w.storage r w.storage) ∧
      (Returns (execView (vestedView p u)) now w'.storage r w'.storage ↔
        Returns (execView (vestedView p u)) now w.storage r w.storage) := by
  have hready := ready_of_reachable hr
  have heff := effect_of_returns hready hret
  have hready' := ready_of_effect hready heff
  refine ⟨?_, ?_⟩
  · intro g hg now r
    rw [read_returns hready', read_returns hready, listed_of_effect heff hg,
      reading_of_same (same_of_effect hready.sound heff hg)]
    simp only [and_true]
  · intro p u hu hp now r
    obtain ⟨hprev, hpending, hvested⟩ := previews_of_effect hready heff hu hp now
    rw [pendingView_answer hready', pendingView_answer hready, vestedView_answer hready',
      vestedView_answer hready, hprev, hpending, hvested]
    simp only [and_true, and_self]

/-- The deposit token is listed as an asset, and both pools have deposits. -/
def bothPools : List (Entry Bank) × World Bank :=
  session 1000 plainOpening [(10, .addAsset adminAddress depositToken), (20, .deposit alice 100),
    (30, .depositAsset alice depositToken 50)]

/-- Withdrawing the deposit token from its asset pool leaves the legacy balance
of the same user. -/
theorem getters_isolated_deposit_token : ∃ w',
    Returns (exec bank.client (.withdrawAsset alice depositToken 50)) openEnv bothPools.2 .unit w' ∧
    Returns (read (.userBalance alice)) 30 w'.storage (.amount 100) w'.storage := by
  have hr : Reachable bank bothPools.2 := session_reachable 1000 plainOpening plainOpening_isOk _
  have hret : Returns (exec bank.client (.withdrawAsset alice depositToken 50)) openEnv bothPools.2
      .unit (invoke (exec bank.client (.withdrawAsset alice depositToken 50)) openEnv bothPools.2) := by
    obtain ⟨value, hret⟩ := returns_of_isOk (show (exec bank.client
      (.withdrawAsset alice depositToken 50) openEnv bothPools.2).isOk = true from rfl)
    obtain ⟨rfl, _⟩ := returns_then.mp hret
    exact hret
  have hbefore : Returns (read (.userBalance alice)) 30 bothPools.2.storage (.amount 100)
      bothPools.2.storage := by
    refine (read_returns (ready_of_reachable hr) _).mpr ⟨trivial, ?_, rfl⟩
    exact congrArg Reading.amount (show (100 : Int) =
      (position bothPools.2.storage .legacy alice).balance from rfl)
  refine ⟨_, hret, ((getters_isolated hr hret).1 (.userBalance alice) ?_ 30 _).mpr hbefore⟩
  intro habout
  rcases habout with h | h
  · cases h
  · cases h

end Calls
end Axionvera.Vault.Isolation

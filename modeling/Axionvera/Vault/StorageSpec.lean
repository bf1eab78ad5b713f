import Axionvera.Vault.Accounts

/-! # The storage code meets its specification

For each storage function, when it returns and what it leaves, as an
equivalence with the pure description in `Accounts`. The arithmetic that can
fail on a well-formed storage is exactly what is left on the right-hand side. -/
namespace Axionvera.Vault.StorageSpec
open Axionvera.Lib.Fallible Axionvera.Lib.Host Axionvera.Lib.KeyValue Axionvera.Lib.MachineInt
open Axionvera.Lib.RewardPool
open Axionvera.Vault.Errors Axionvera.Vault.Types Axionvera.Vault.Storage Axionvera.Vault.Accounts

variable {now limit duration : Nat} {u a : Address} {amount : Int} {s t : Storage}

theorem inI128_of_nonneg {x : Int} (h0 : 0 ≤ x) (h : x ≤ i128Max) : InI128 x :=
  ⟨by unfold i128Min; omega, h⟩

/-! ## Guards and configuration -/

@[simp] theorem requireInitialized_returns {x : Unit} :
    Returns requireInitialized now s x t ↔ s.initialized = some true ∧ t = s := by
  cases h : s.initialized <;> simp [requireInitialized, isInitialized, h]

@[simp] theorem requireNotPaused_returns {x : Unit} :
    Returns requireNotPaused now s x t ↔ s.isPaused ≠ some true ∧ t = s := by
  cases h : s.isPaused <;> simp [requireNotPaused, h]

/-- `st` is the state record that the storage holds. -/
structure StateOf (s : Storage) (st : VaultState) : Prop where
  initialized : s.initialized = some true
  admin : s.admin = some st.admin
  depositToken : s.depositToken = some st.depositToken
  rewardToken : s.rewardToken = some st.rewardToken
  totalDeposits : st.totalDeposits = poolTotal s .legacy
  rewardIndex : st.rewardIndex = poolIndex s .legacy
  vestingPeriod : st.vestingPeriod = s.vestingPeriod.getD 0
  targetDeposits : st.targetDeposits = s.targetDeposits.getD 0
  utilizationMultipliers : st.utilizationMultipliers = s.utilizationMultipliers.getD []

/-- The keys that the state is read from. -/
def header (s : Storage) :=
  (s.initialized, s.admin, s.depositToken, s.rewardToken, s.totalDeposits, s.rewardIndex,
    s.vestingPeriod, s.targetDeposits, s.utilizationMultipliers)

/-- A write to other keys leaves the state. -/
theorem StateOf.congr {st : VaultState} (h : StateOf s st) (hkeys : header t = header s) :
    StateOf t st := by
  simp only [header, Prod.mk.injEq] at hkeys
  obtain ⟨h1, h2, h3, h4, h5, h6, h7, h8, h9⟩ := hkeys
  refine ⟨h1.trans h.initialized, h2.trans h.admin, h3.trans h.depositToken,
    h4.trans h.rewardToken, ?_, ?_, ?_, ?_, ?_⟩
  · rw [h.totalDeposits, poolTotal, poolTotal, h5]
  · rw [h.rewardIndex, poolIndex, poolIndex, h6]
  · rw [h.vestingPeriod, h7]
  · rw [h.targetDeposits, h8]
  · rw [h.utilizationMultipliers, h9]

@[simp] theorem getState_returns {st : VaultState} :
    Returns getState now s st t ↔ StateOf s st ∧ t = s := by
  obtain ⟨admin, depositToken, rewardToken, total, index, period, target, points⟩ := st
  refine ⟨?_, ?_⟩
  · intro h
    simp only [getState, returns_bind, requireInitialized_returns, returns_get, returns_okOr,
      returns_pure, VaultState.mk.injEq] at h
    obtain ⟨_, _, ⟨hi, rfl⟩, _, _, ⟨rfl, rfl⟩, _, _, ⟨ha, rfl⟩, _, _, ⟨hd, rfl⟩, _, _, ⟨hr, rfl⟩,
      ⟨rfl, rfl, rfl, rfl, rfl, rfl, rfl, rfl⟩, rfl⟩ := h
    exact ⟨⟨hi, ha, hd, hr, rfl, rfl, rfl, rfl, rfl⟩, rfl⟩
  · intro h
    obtain ⟨⟨hi, ha, hd, hr, ht, hx, hp, hg, hm⟩, rfl⟩ := h
    simp only at ha hd hr ht hx hp hg hm
    subst ht hx hp hg hm
    simp [getState, hi, ha, hd, hr, poolTotal, poolIndex]

theorem StateOf.det {st st' : VaultState} (h : StateOf s st) (h' : StateOf s st') : st = st' := by
  obtain ⟨_, ha, hd, hr, ht, hi, hp, hg, hm⟩ := h
  obtain ⟨_, ha', hd', hr', ht', hi', hp', hg', hm'⟩ := h'
  rw [ha] at ha'
  rw [hd] at hd'
  rw [hr] at hr'
  cases st; cases st'
  simp_all

/-! ## Positions -/

theorem getUserPositionUnchecked_returns (hs : Sound s) {q : UserPosition} :
    Returns (getUserPositionUnchecked u) now s q t ↔ q = position s .legacy u ∧ t = s := by
  have hsum : sumI128 ((s.userLocks.getD u []).map Lock.amount) = locked s u :=
    sumI128_eq_sum (hs.sumFits (List.Sublist.refl _))
  have hfit : InI128 (liquid s u + locked s u) :=
    inI128_of_nonneg (hs.balance_nonneg (p := .legacy) (u := u)) hs.balance_le_max
  have hread : s.userLiquidBalance.getD u 0 = liquid s u := rfl
  simp only [getUserPositionUnchecked, getLiquidBalanceUnchecked, getUserLocksUnchecked,
    returns_bind, returns_gets, returns_okOr, returns_get, returns_pure, checkedAdd_eq_some]
  refine ⟨?_, ?_⟩
  · intro h
    obtain ⟨_, _, ⟨rfl, rfl⟩, _, _, ⟨rfl, rfl⟩, _, _, ⟨⟨_, rfl⟩, rfl⟩, _, _, ⟨rfl, rfl⟩, rfl, rfl⟩ := h
    rw [hsum]
    exact ⟨rfl, rfl⟩
  · intro h
    obtain ⟨rfl, rfl⟩ := h
    refine ⟨_, _, ⟨rfl, rfl⟩, _, _, ⟨rfl, rfl⟩, _, _, ⟨⟨?_, rfl⟩, rfl⟩, _, _, ⟨rfl, rfl⟩, ?_, rfl⟩
    · rw [hsum]
      exact hfit
    · rw [hsum]
      rfl

theorem checkedAccruedRewards_eq_ok {balance delta gain : Int} (h0 : 0 ≤ balance * delta) :
    checkedAccruedRewards balance delta = .ok gain ↔
      balance * delta ≤ i128Max ∧ gain = balance * delta / REWARD_INDEX_SCALE := by
  simp only [checkedAccruedRewards, bind_eq_ok, okOr_eq_ok, checkedMul_eq_some]
  refine ⟨?_, ?_⟩
  · intro h
    obtain ⟨_, ⟨hfit, rfl⟩, hdiv⟩ := h
    rw [checkedDiv_of_pos h0 scale_pos] at hdiv
    exact ⟨hfit.2, (Option.some.inj hdiv).symm⟩
  · intro h
    obtain ⟨hfit, rfl⟩ := h
    exact ⟨_, ⟨inI128_of_nonneg h0 hfit, rfl⟩, checkedDiv_of_pos h0 scale_pos⟩

/-- Accrual on a well-formed position computes the settlement, or overflows. -/
theorem accrueRewards_eq_ok {index : Int} {q q' : UserPosition} (hb : 0 ≤ q.balance)
    (h0 : 0 ≤ q.rewardIndex) (hi : q.rewardIndex ≤ index) (hm : index ≤ i128Max)
    (ha : 0 ≤ q.accruedRewards) (ham : q.accruedRewards ≤ i128Max) :
    accrueRewards now index q = .ok q' ↔
      q.balance * (index - q.rewardIndex) ≤ i128Max ∧
      q.accruedRewards + q.balance * (index - q.rewardIndex) / REWARD_INDEX_SCALE ≤ i128Max ∧
      q' = settle now index q := by
  have hprod : 0 ≤ q.balance * (index - q.rewardIndex) := Int.mul_nonneg hb (by omega)
  have hgain : 0 ≤ q.balance * (index - q.rewardIndex) / REWARD_INDEX_SCALE :=
    Int.ediv_nonneg hprod scale_pos.le
  by_cases hc : index = q.rewardIndex ∨ q.balance = 0
  · -- nothing to accrue: the position only takes the pool's index
    have hzero : q.balance * (index - q.rewardIndex) = 0 := by
      rcases hc with hc | hc
      · rw [hc, sub_self, mul_zero]
      · rw [hc, zero_mul]
    have hmax : (0 : Int) ≤ i128Max := by decide
    simp [accrueRewards, hc, settle, hzero, hmax, ham]
  · have hpos : 0 < q.balance := by omega
    have hsub : checkedSub index q.rewardIndex = some (index - q.rewardIndex) :=
      checkedSub_eq_some.mpr ⟨inI128_of_nonneg (by omega) (by omega), rfl⟩
    simp only [accrueRewards, if_neg hc, if_pos hpos, bind_eq_ok, okOr_eq_ok, hsub,
      Option.some.injEq, exists_eq_left', checkedAccruedRewards_eq_ok hprod, and_assoc,
      exists_and_left, exists_eq_left]
    refine and_congr_right fun _ => ?_
    generalize hg : q.balance * (index - q.rewardIndex) / REWARD_INDEX_SCALE = gain at hgain ⊢
    by_cases h : 0 < gain
    · have hsum := @checkedAdd_eq_some q.accruedRewards gain
      simp only [if_pos h, bind_eq_ok, okOr_eq_ok, hsum, pure_eq_ok, settle, hg]
      refine ⟨?_, ?_⟩
      · intro h
        obtain ⟨_, ⟨hfit, rfl⟩, rfl⟩ := h
        exact ⟨hfit.2, rfl⟩
      · intro h
        obtain ⟨hfit, rfl⟩ := h
        exact ⟨_, ⟨inI128_of_nonneg (by omega) hfit, rfl⟩, rfl⟩
    · have hzero : gain = 0 := by omega
      simp [hzero, settle, hg, ham]

/-- The only error of an accrual is an overflow: the scale it divides by is not
zero. -/
theorem accrueRewards_error {index : Int} {q : UserPosition} {e : VaultError}
    (h : accrueRewards now index q = .error e) : e = .mathOverflow := by
  have hdiv : ∀ x, checkedDiv x REWARD_INDEX_SCALE ≠ none := by
    intro x
    unfold checkedDiv
    rw [if_neg]
    · exact Option.some_ne_none _
    · intro hzero
      rcases hzero with hzero | ⟨_, hzero⟩
      · exact absurd hzero scale_pos.ne'
      · exact absurd hzero (by decide)
  unfold accrueRewards at h
  split at h
  · cases h
  split at h
  · simp only [bind_eq_error, okOr_eq_error, checkedAccruedRewards] at h
    rcases h with h | ⟨_, _, (h | ⟨_, _, h⟩) | ⟨_, _, h⟩⟩
    · exact h.2
    · exact h.2
    · exact absurd h.1 (hdiv _)
    · split at h
      · simp only [bind_eq_error, okOr_eq_error] at h
        rcases h with h | ⟨_, _, h⟩
        · exact h.2
        · cases h
      · cases h
  · cases h

/-- The settlement of a user of a well-formed pool. -/
theorem accrue_eq_ok (hs : Sound s) (p : PoolId) {q' : UserPosition} :
    accrueRewards now (poolIndex s p) (position s p u) = .ok q' ↔
      AccrualFits s p u ∧ q' = settled now s p u := by
  rw [accrueRewards_eq_ok hs.balance_nonneg hs.index_nonneg hs.index_le_pool (hs.index_le p)
    hs.accrued_nonneg (hs.accrued_le p u)]
  refine ⟨?_, ?_⟩
  · intro h
    obtain ⟨h1, h2, rfl⟩ := h
    exact ⟨⟨h1, h2⟩, rfl⟩
  · intro h
    obtain ⟨⟨h1, h2⟩, rfl⟩ := h
    exact ⟨h1, h2, rfl⟩

/-! ## Deposits, locks, withdrawals -/

@[simp] theorem accruePositionRewards_returns {st : VaultState} {q q' : UserPosition} :
    Returns (accruePositionRewards st q) now s q' t ↔
      accrueRewards now st.rewardIndex q = .ok q' ∧ t = s := by
  simp [accruePositionRewards, and_comm]

theorem StateOf.iff {st st' : VaultState} (h : StateOf s st) : StateOf s st' ↔ st' = st :=
  ⟨fun h' => h'.det h, fun h' => h' ▸ h⟩

theorem storeDeposit_returns (hs : Sound s) {st : VaultState} (hst : StateOf s st)
    (h0 : 0 ≤ amount) {r : VaultState × UserPosition} :
    Returns (storeDeposit u amount) now s r t ↔
      AccrualFits s .legacy u ∧ poolTotal s .legacy + amount ≤ i128Max ∧
      r = ({ st with totalDeposits := poolTotal s .legacy + amount },
        { settled now s .legacy u with balance := (position s .legacy u).balance + amount }) ∧
      t = afterDeposit now u amount s := by
  have hliq := hs.liquid_nonneg u
  have hlock := hs.locked_nonneg (u := u)
  have hbal : liquid s u + lockSum (locks s u) ≤ poolTotal s .legacy :=
    hs.balance_le_total (p := .legacy) (u := u)
  simp only [storeDeposit, getLiquidBalanceUnchecked, setLiquidBalance, setTotalDeposits,
    setUserPosition, returns_bind, getState_returns, hst.iff, accruePositionRewards_returns,
    returns_okOr, checkedAdd_eq_some, and_assoc, returns_gets, returns_modify, returns_pure,
    exists_eq_left, exists_const, exists_and_left, ↓existsAndEq, true_and,
    getUserPositionUnchecked_returns hs, hst.rewardIndex, accrue_eq_ok hs, hst.totalDeposits,
    settled_balance, balance_eq]
  refine ⟨?_, ?_⟩
  · intro h
    obtain ⟨hfit, _, _, htot, rfl, rfl⟩ := h
    exact ⟨hfit, htot.2, rfl, rfl⟩
  · intro h
    obtain ⟨hfit, htot, rfl, rfl⟩ := h
    refine ⟨hfit, inI128_of_nonneg (by omega) (by omega), ?_, inI128_of_nonneg (by omega) htot, rfl,
      rfl⟩
    exact inI128_of_nonneg (add_nonneg hliq h0) (le_trans (by unfold liquid at *; omega) htot)

/-- The loop takes the first expired locks out of the list and adds them up. -/
theorem unlockLoop_eq {ls : List Lock} (hpos : ∀ l ∈ ls, 0 < l.amount) {acc : Int}
    {new : List Lock} {count : Nat} (h0 : 0 ≤ acc) (hfit : acc + lockSum ls ≤ i128Max) :
    unlockLoop now limit ls acc new count =
      .ok (acc + lockSum (released now (limit - count) ls), new ++ kept now (limit - count) ls) := by
  induction ls generalizing acc new count with
  | nil => simp [unlockLoop, released, kept, lockSum]
  | cons l rest ih =>
    have hl := hpos l (by simp)
    have hrest : ∀ k ∈ rest, 0 < k.amount := fun k hk => hpos k (List.mem_cons_of_mem l hk)
    have hsum : lockSum (l :: rest) = l.amount + lockSum rest := by simp [lockSum]
    have hrest0 := lockSum_nonneg hrest
    have hcount : (l.unlockTimestamp ≤ now ∧ count < limit) ↔
        (l.unlockTimestamp ≤ now ∧ 0 < limit - count) := by omega
    unfold unlockLoop released kept
    by_cases hc : l.unlockTimestamp ≤ now ∧ 0 < limit - count
    · have hadd : checkedAdd acc l.amount = some (acc + l.amount) :=
        checkedAdd_eq_some.mpr ⟨inI128_of_nonneg (by omega) (by omega), rfl⟩
      rw [if_pos (hcount.mpr hc), if_pos hc, if_pos hc]
      simp only [hadd]
      rw [ih hrest (by omega) (by omega), Nat.sub_sub]
      simp only [lockSum, List.map_cons, List.sum_cons, add_assoc]
    · rw [if_neg (mt hcount.mp hc), if_neg hc, if_neg hc, ih hrest h0 (by omega)]
      simp only [List.append_assoc, List.cons_append, List.nil_append]

theorem unlockExpiredLocks_returns (hs : Sound s) {r : Int} :
    Returns (unlockExpiredLocks u limit) now s r t ↔
      r = lockSum (released now limit (locks s u)) ∧ t = afterUnlock now limit u s := by
  have hliq := hs.liquid_nonneg u
  have hbal := hs.balance_le_max (u := u)
  have hrel := hs.released_le (u := u) now limit
  have hrel0 := hs.released_nonneg (u := u) now limit
  have hloop : unlockLoop now limit (s.userLocks.getD u []) 0 [] 0 =
      .ok (lockSum (released now limit (locks s u)), kept now limit (locks s u)) := by
    have h := @unlockLoop_eq now limit _ (hs.lock_pos u) 0 [] 0 le_rfl
      (by rw [zero_add]; exact hs.locked_le_max)
    rwa [zero_add, List.nil_append, Nat.sub_zero] at h
  by_cases hl : limit = 0
  · subst hl
    simp [unlockExpiredLocks, afterUnlock_of_nil (released_zero now _), released_zero, lockSum]
  · simp only [unlockExpiredLocks, if_neg hl, returns_bind, returns_ask, getUserLocksUnchecked,
      returns_gets, and_assoc, exists_and_left, exists_eq_left, ↓existsAndEq, returns_lift, hloop,
      Except.ok.injEq, exists_eq_left', true_and]
    by_cases hr : released now limit (locks s u) = []
    · simp [afterUnlock_of_nil hr, hr, lockSum]
    · have hpos := lockSum_pos (fun l hl => hs.lock_pos u l (mem_of_mem_released hl)) hr
      have hfit : InI128 (s.userLiquidBalance.getD u 0 + lockSum (released now limit (locks s u))) :=
        inI128_of_nonneg (add_nonneg hliq hpos.le) (by unfold liquid at *; omega)
      simp only [if_pos hpos, returns_bind, getLiquidBalanceUnchecked, returns_gets, and_assoc,
        exists_and_left, exists_eq_left, ↓existsAndEq, returns_okOr, checkedAdd_eq_some, hfit,
        true_and, setLiquidBalance, setUserLocks, returns_modify, exists_const, returns_pure,
        afterUnlock_of_ne_nil hr]
      rfl

theorem storeWithdraw_returns (hs : Sound s) {st : VaultState} (hst : StateOf s st)
    (h0 : 0 ≤ amount) {r : VaultState × UserPosition} :
    Returns (storeWithdraw u amount) now s r t ↔
      AccrualFits s .legacy u ∧ amount ≤ withdrawable now s u ∧
      r = ({ st with totalDeposits := poolTotal s .legacy - amount },
        { settled now s .legacy u with balance := (position s .legacy u).balance - amount }) ∧
      t = afterWithdraw now u amount s := by
  have hliq := hs.liquid_nonneg u
  have hrel := hs.released_le (u := u) now WITHDRAW_UNLOCK_LIMIT
  have hbal : liquid s u + lockSum (locks s u) ≤ poolTotal s .legacy :=
    hs.balance_le_total (p := .legacy) (u := u)
  have htot := hs.total_le .legacy
  have hread : (afterUnlock now WITHDRAW_UNLOCK_LIMIT u s).userLiquidBalance.getD u 0 =
      withdrawable now s u := liquid_afterUnlock.trans (if_pos rfl)
  have hw : withdrawable now s u ≤ liquid s u + lockSum (locks s u) := by
    unfold withdrawable
    omega
  simp only [storeWithdraw, getLiquidBalanceUnchecked, setLiquidBalance, setTotalDeposits,
    setUserPosition, returns_bind, getState_returns, hst.iff, accruePositionRewards_returns,
    unlockExpiredLocks_returns hs, returns_failIf, returns_okOr, checkedSub_eq_some, and_assoc,
    returns_gets, returns_modify, returns_pure, exists_eq_left, exists_const, exists_and_left,
    ↓existsAndEq, true_and, getUserPositionUnchecked_returns hs, hst.rewardIndex, accrue_eq_ok hs,
    hst.totalDeposits, settled_balance, balance_eq, hread, not_lt]
  refine and_congr_right fun _ => and_congr_right fun hle => ?_
  have h1 : InI128 (liquid s u + lockSum (locks s u) - amount) :=
    inI128_of_nonneg (by omega) (by omega)
  have h2 : InI128 (withdrawable now s u - amount) := inI128_of_nonneg (by omega) (by omega)
  have h3 : InI128 (poolTotal s .legacy - amount) := inI128_of_nonneg (by omega) (by omega)
  simp only [h1, h2, h3, true_and]
  rfl

/-- The outcomes of a withdrawal: the settlement does not fit, what is liquid or
set free does not cover it, or it is made. -/
theorem storeWithdraw_cases (hs : Sound s) {st : VaultState} (hst : StateOf s st) (h0 : 0 ≤ amount)
    (now : Nat) (u : Address) :
    (¬ AccrualFits s .legacy u ∧ storeWithdraw u amount now s = .err .mathOverflow s) ∨
    (AccrualFits s .legacy u ∧ withdrawable now s u < amount ∧
      storeWithdraw u amount now s =
        .err .insufficientBalance (afterUnlock now WITHDRAW_UNLOCK_LIMIT u s)) ∨
    (AccrualFits s .legacy u ∧ amount ≤ withdrawable now s u ∧
      Returns (storeWithdraw u amount) now s
        ({ st with totalDeposits := poolTotal s .legacy - amount },
          { settled now s .legacy u with balance := (position s .legacy u).balance - amount })
        (afterWithdraw now u amount s)) := by
  have hstate : Returns getState now s st s := getState_returns.mpr ⟨hst, rfl⟩
  have hposition : Returns (getUserPositionUnchecked u) now s (position s .legacy u) s :=
    (getUserPositionUnchecked_returns hs).mpr ⟨rfl, rfl⟩
  by_cases hfit : AccrualFits s .legacy u
  · by_cases hle : amount ≤ withdrawable now s u
    · exact Or.inr (Or.inr ⟨hfit, hle, (storeWithdraw_returns hs hst h0).mpr ⟨hfit, hle, rfl, rfl⟩⟩)
    · refine Or.inr (Or.inl ⟨hfit, not_le.mp hle, ?_⟩)
      have haccrue : Returns (accruePositionRewards st (position s .legacy u)) now s
          (settled now s .legacy u) s := by
        rw [accruePositionRewards_returns, hst.rewardIndex]
        exact ⟨(accrue_eq_ok hs .legacy).mpr ⟨hfit, rfl⟩, rfl⟩
      have hunlock : Returns (unlockExpiredLocks u WITHDRAW_UNLOCK_LIMIT) now s _
          (afterUnlock now WITHDRAW_UNLOCK_LIMIT u s) :=
        (unlockExpiredLocks_returns hs).mpr ⟨rfl, rfl⟩
      have hliquid : (afterUnlock now WITHDRAW_UNLOCK_LIMIT u s).userLiquidBalance.getD u 0 =
          withdrawable now s u := liquid_afterUnlock.trans (if_pos rfl)
      have hread : Returns (getLiquidBalanceUnchecked u) now
          (afterUnlock now WITHDRAW_UNLOCK_LIMIT u s) (withdrawable now s u)
          (afterUnlock now WITHDRAW_UNLOCK_LIMIT u s) :=
        returns_gets.mpr ⟨hliquid.symm, rfl⟩
      rw [storeWithdraw, bind_of_returns hstate, bind_of_returns hposition,
        bind_of_returns haccrue, bind_of_returns hunlock, bind_of_returns hread]
      refine bind_of_err ?_
      rw [HostM.failIf, if_pos (not_le.mp hle)]
      rfl
  · refine Or.inl ⟨hfit, ?_⟩
    rw [storeWithdraw, bind_of_returns hstate, bind_of_returns hposition]
    refine bind_of_err ?_
    show HostM.lift (accrueRewards now st.rewardIndex (position s .legacy u)) now s = _
    rw [hst.rewardIndex]
    cases haccrue : accrueRewards now (poolIndex s .legacy) (position s .legacy u) with
    | ok q => exact absurd ((accrue_eq_ok hs .legacy).mp haccrue).1 hfit
    | error e =>
      rw [accrueRewards_error haccrue]
      rfl

theorem storeLock_returns (hs : Sound s) {st : VaultState} (hst : StateOf s st)
    (h0 : 0 ≤ amount) {r : Unit} :
    Returns (storeLock u amount duration) now s r t ↔
      AccrualFits s .legacy u ∧ amount ≤ liquid s u ∧ now + duration < u64Size ∧
      t = afterLock now u amount duration s := by
  have hliq := hs.liquid_nonneg u
  have hlock := hs.locked_nonneg (u := u)
  have hbal := hs.balance_le_max (u := u)
  have hread : s.userLiquidBalance.getD u 0 = liquid s u := rfl
  simp only [storeLock, getLiquidBalanceUnchecked, setLiquidBalance, getUserLocksUnchecked,
    setUserLocks, setUserPosition, returns_bind, getState_returns, hst.iff,
    accruePositionRewards_returns, returns_failIf, returns_okOr, checkedSub_eq_some,
    checkedAddU64_eq_some, and_assoc, returns_ask, returns_gets, returns_modify, exists_eq_left,
    exists_const, exists_and_left, ↓existsAndEq, true_and, getUserPositionUnchecked_returns hs,
    hst.rewardIndex, accrue_eq_ok hs, hread, not_lt]
  refine and_congr_right fun _ => and_congr_right fun hle => ?_
  have hfit : InI128 (liquid s u - amount) := inI128_of_nonneg (by omega) (by omega)
  simp only [hfit, true_and]
  rfl

/-! ## Distributions -/

theorem checkedRewardIndexIncrement_eq_ok {total i : Int} (h0 : 0 ≤ amount) :
    checkedRewardIndexIncrement amount total = .ok i ↔
      0 < total ∧ amount * REWARD_INDEX_SCALE ≤ i128Max ∧
      0 < amount * REWARD_INDEX_SCALE / total ∧ i = amount * REWARD_INDEX_SCALE / total := by
  have hprod : 0 ≤ amount * REWARD_INDEX_SCALE := Int.mul_nonneg h0 scale_pos.le
  by_cases ht : total ≤ 0
  · simp [checkedRewardIndexIncrement, ht]
  · have ht' : 0 < total := not_le.mp ht
    simp only [checkedRewardIndexIncrement, if_neg ht, bind_eq_ok, okOr_eq_ok, checkedMul_eq_some,
      and_assoc, exists_and_left, ↓existsAndEq, checkedDiv_of_pos hprod ht', Option.some.injEq,
      exists_eq_left', true_and, ht']
    refine ⟨?_, ?_⟩
    · intro h
      obtain ⟨hfit, h⟩ := h
      split at h
      · exact absurd h throw_ne_ok
      · exact ⟨hfit.2, by omega, pure_eq_ok.mp h⟩
    · intro h
      obtain ⟨hfit, hpos, rfl⟩ := h
      rw [if_neg (by omega)]
      exact ⟨inI128_of_nonneg hprod hfit, rfl⟩

theorem effectiveAmount_eq_ok {m : Nat} {e : Int} (h0 : 0 ≤ amount) (hm : amount ≤ i128Max) :
    effectiveAmount amount m = .ok e ↔ amount * m < u128Size ∧ e = amount * m / 10000 := by
  obtain ⟨n, rfl⟩ := Int.eq_ofNat_of_zero_le h0
  have hcast : asU128 (n : Int) = n := by rw [asU128_of_nonneg h0 hm, Int.toNat_natCast]
  -- a product below `2 ^ 128` divided by `10000` is far below the signed bound
  have hsmall : n * m < u128Size → asI128 (n * m / 10000) = (n : Int) * m / 10000 := by
    intro hlt
    rw [asI128_of_le (by unfold u128Size at hlt; unfold i128Max; omega)]
    push_cast
    rfl
  have hlt : ((n : Int) * m < (u128Size : Nat)) ↔ n * m < u128Size := by norm_cast
  simp only [effectiveAmount, hcast, bind_eq_ok, okOr_eq_ok, checkedMulU128_eq_some, and_assoc,
    exists_and_left, ↓existsAndEq, checkedDivU128, if_neg (show ¬ (10000 : Nat) = 0 by decide),
    Option.some.injEq, exists_eq_left', true_and, pure_eq_ok, hlt]
  refine and_congr_right fun h => ?_
  rw [hsmall h]

theorem multiplier_eq_ok {m : UInt32} (h : multiplier s = .ok m) : multiplierBps s = m.toNat := by
  simp only [multiplierBps, h]

theorem effective_nonneg (h0 : 0 ≤ amount) : 0 ≤ effective s amount :=
  Int.ediv_nonneg (Int.mul_nonneg h0 (Int.natCast_nonneg _)) (by decide)

theorem storeRewardDistribution_returns (hs : Sound s) {st : VaultState} (hst : StateOf s st)
    (h0 : 0 ≤ amount) (hm : amount ≤ i128Max) {r : VaultState} :
    Returns (storeRewardDistribution amount) now s r t ↔
      (∃ m, multiplier s = .ok m) ∧ amount * multiplierBps s < u128Size ∧
      Distributes s .legacy (effective s amount) ∧
      r = { st with rewardIndex := poolIndex s .legacy + increment s .legacy (effective s amount) } ∧
      t = afterDistribution (effective s amount) s := by
  have hidx := hs.poolIndex_nonneg (p := .legacy) ⟨0⟩
  have hmul : calculateUtilizationMultiplier (poolTotal s .legacy) st.targetDeposits
      st.utilizationMultipliers = multiplier s := by
    rw [hst.targetDeposits, hst.utilizationMultipliers]
    rfl
  simp only [storeRewardDistribution, returns_bind, getState_returns, hst.iff, and_assoc,
    exists_and_left, ↓existsAndEq, exists_eq_left, returns_lift, hmul, effectiveAmount_eq_ok h0 hm,
    returns_okOr, checkedAdd_eq_some, hst.rewardIndex, hst.totalDeposits, setRewardIndex,
    returns_modify, returns_pure, exists_const, true_and]
  refine ⟨?_, ?_⟩
  · intro h
    obtain ⟨m, hok, hlt, i, hinc, hfit, rfl, rfl⟩ := h
    rw [← multiplier_eq_ok hok] at hlt hinc
    obtain ⟨hpos, hprod, hraise, rfl⟩ :=
      (checkedRewardIndexIncrement_eq_ok (effective_nonneg h0)).mp hinc
    exact ⟨⟨m, hok⟩, hlt, ⟨hpos, hprod, hraise, hfit.2⟩, rfl, rfl⟩
  · intro h
    obtain ⟨⟨m, hok⟩, hlt, ⟨hpos, hprod, hraise, hfit⟩, rfl, rfl⟩ := h
    refine ⟨m, hok, ?_, increment s .legacy (effective s amount), ?_, ?_, rfl, rfl⟩
    · rwa [← multiplier_eq_ok hok]
    · rw [← multiplier_eq_ok hok]
      exact (checkedRewardIndexIncrement_eq_ok (effective_nonneg h0)).mpr ⟨hpos, hprod, hraise, rfl⟩
    · exact inI128_of_nonneg (by omega) hfit

/-! ## Claims -/

theorem calculateVestedRewards_eq_ok {period : Nat} {q : UserPosition} {v : Int}
    (h0 : 0 ≤ q.accruedRewards) (hm : q.accruedRewards ≤ i128Max) :
    calculateVestedRewards now q period = .ok v ↔
      VestingFits now period q ∧ v = vested now period q := by
  have helapsed : (checkedSubU64 now q.lastRewardTimestamp).getD 0 = now - q.lastRewardTimestamp := by
    unfold checkedSubU64
    split
    · rfl
    · rw [Option.getD_none]
      omega
  unfold calculateVestedRewards vested VestingFits
  by_cases hp : period = 0
  · simp [hp]
  by_cases hl : q.lastRewardTimestamp = 0
  · simp [hp, hl]
  by_cases he : period ≤ now - q.lastRewardTimestamp
  · simp [hp, hl, helapsed, he, not_lt.mpr he]
  · have hcond : (0 < period → q.lastRewardTimestamp ≠ 0 → now - q.lastRewardTimestamp < period →
        q.accruedRewards * (now - q.lastRewardTimestamp : Nat) < u128Size) ↔
        q.accruedRewards * (now - q.lastRewardTimestamp : Nat) < u128Size :=
      ⟨fun h => h (by omega) hl (by omega), fun h _ _ _ => h⟩
    obtain ⟨n, hn⟩ := Int.eq_ofNat_of_zero_le h0
    have hcast : asU128 q.accruedRewards = n := by rw [asU128_of_nonneg h0 hm, hn, Int.toNat_natCast]
    have hlt : (q.accruedRewards * (now - q.lastRewardTimestamp : Nat) < (u128Size : Nat)) ↔
        n * (now - q.lastRewardTimestamp) < u128Size := by rw [hn]; norm_cast
    -- the elapsed time is below the period, so the quotient is at most what accrued
    have hle : n * (now - q.lastRewardTimestamp) / period ≤ n :=
      Nat.div_le_of_le_mul (by rw [mul_comm]; exact Nat.mul_le_mul_right _ (by omega))
    have hback : asI128 (n * (now - q.lastRewardTimestamp) / period) =
        q.accruedRewards * (now - q.lastRewardTimestamp : Nat) / period := by
      rw [asI128_of_le (by omega), hn]
      push_cast
      rfl
    rw [hcond, hlt]
    simp only [if_neg hp, if_neg hl, helapsed, if_neg he, hcast, bind_eq_ok, okOr_eq_ok,
      checkedMulU128_eq_some, and_assoc, exists_and_left, ↓existsAndEq, checkedDivU128,
      Option.some.injEq, exists_eq_left', true_and, pure_eq_ok, hback]

theorem claimable_nonneg (hs : Sound s) (now : Nat) (p : PoolId) (u : Address) :
    0 ≤ claimable now s p u :=
  vested_nonneg now _ hs.pending_nonneg

theorem claimable_le (hs : Sound s) (now : Nat) (p : PoolId) (u : Address) :
    claimable now s p u ≤ pending s p u :=
  vested_le now _ hs.pending_nonneg

/-- The end of both claim functions: the vested part of the settled position is
computed and taken off it. -/
theorem vested_of_settled (hs : Sound s) {p : PoolId} (hfit : AccrualFits s p u) {v : Int} :
    calculateVestedRewards now (settled now s p u) (vestingPeriod s) = .ok v ∧
        InI128 ((settled now s p u).accruedRewards - v) ↔
      VestingFits now (vestingPeriod s) (settled now s p u) ∧ v = claimable now s p u := by
  rw [calculateVestedRewards_eq_ok (q := settled now s p u) hs.pending_nonneg hfit.pending]
  have h0 := claimable_nonneg hs now p u
  have hle := claimable_le hs now p u
  have hmax := hfit.pending
  refine ⟨?_, ?_⟩
  · intro h
    obtain ⟨h, _⟩ := h
    exact h
  · intro h
    obtain ⟨hv, rfl⟩ := h
    refine ⟨⟨hv, rfl⟩, ?_⟩
    rw [settled_accrued]
    exact inI128_of_nonneg (by omega) (by omega)

theorem storeClaimableRewards_returns (hs : Sound s) {st : VaultState} (hst : StateOf s st)
    {r : Int} :
    Returns (storeClaimableRewards u) now s r t ↔
      AccrualFits s .legacy u ∧ VestingFits now (vestingPeriod s) (settled now s .legacy u) ∧
      r = claimable now s .legacy u ∧ t = afterClaim now u r s := by
  have hperiod : st.vestingPeriod = vestingPeriod s := hst.vestingPeriod
  simp only [storeClaimableRewards, returns_bind, getState_returns, hst.iff, and_assoc,
    exists_and_left, ↓existsAndEq, exists_eq_left, getUserPositionUnchecked_returns hs,
    accruePositionRewards_returns, hst.rewardIndex, accrue_eq_ok hs, returns_ask, returns_lift,
    returns_okOr, checkedSub_eq_some, setUserPosition, returns_modify, returns_pure, exists_const,
    true_and, hperiod]
  refine and_congr_right fun hfit => ?_
  rw [← and_assoc, vested_of_settled hs hfit, and_assoc]
  rfl

/-! ## Assets -/

@[simp] theorem isAssetSupported_returns {b : Bool} :
    Returns (isAssetSupported a) now s b t ↔ b = supported s a ∧ t = s := by
  simp [isAssetSupported, getSupportedAssets, supported, and_comm]

@[simp] theorem requireAssetSupported_returns {x : Unit} :
    Returns (requireAssetSupported a) now s x t ↔ supported s a = true ∧ t = s := by
  simp [requireAssetSupported]

@[simp] theorem getAssetTotalDeposits_returns {r : Int} :
    Returns (getAssetTotalDeposits a) now s r t ↔
      supported s a = true ∧ r = poolTotal s (.asset a) ∧ t = s := by
  simp only [getAssetTotalDeposits, returns_bind, requireAssetSupported_returns, returns_gets,
    and_assoc, exists_and_left, ↓existsAndEq, exists_const, true_and]
  rfl

@[simp] theorem getAssetRewardIndex_returns {r : Int} :
    Returns (getAssetRewardIndex a) now s r t ↔
      supported s a = true ∧ r = poolIndex s (.asset a) ∧ t = s := by
  simp only [getAssetRewardIndex, returns_bind, requireAssetSupported_returns, returns_gets,
    and_assoc, exists_and_left, ↓existsAndEq, exists_const, true_and]
  rfl

@[simp] theorem getUserAssetPositionUnchecked_returns {q : UserPosition} :
    Returns (getUserAssetPositionUnchecked u a) now s q t ↔ q = position s (.asset a) u ∧ t = s := by
  simp [getUserAssetPositionUnchecked, position]

@[simp] theorem accrueAssetPositionRewards_returns {index : Int} {q q' : UserPosition} :
    Returns (accrueAssetPositionRewards index q) now s q' t ↔
      accrueRewards now index q = .ok q' ∧ t = s := by
  simp [accrueAssetPositionRewards, and_comm]

theorem storeAssetDeposit_returns (hs : Sound s) (h0 : 0 ≤ amount) {r : UserPosition} :
    Returns (storeAssetDeposit u a amount) now s r t ↔
      supported s a = true ∧ AccrualFits s (.asset a) u ∧
      poolTotal s (.asset a) + amount ≤ i128Max ∧
      r = { settled now s (.asset a) u with balance := (position s (.asset a) u).balance + amount } ∧
      t = afterAssetMove now u a amount s := by
  have hbal := hs.balance_nonneg (p := .asset a) (u := u)
  have hle := hs.balance_le_total (p := .asset a) (u := u)
  simp only [storeAssetDeposit, returns_bind, requireAssetSupported_returns, and_assoc,
    exists_and_left, ↓existsAndEq, exists_eq_left, exists_const, getUserAssetPositionUnchecked_returns,
    getAssetRewardIndex_returns, getAssetTotalDeposits_returns, accrueAssetPositionRewards_returns,
    accrue_eq_ok hs, returns_okOr, checkedAdd_eq_some, setAssetTotalDeposits, setUserAssetPosition,
    returns_modify, returns_pure, true_and, settled_balance, and_self_left]
  refine and_congr_right fun _ => and_congr_right fun _ => ?_
  refine ⟨?_, ?_⟩
  · intro h
    obtain ⟨_, htot, rfl, rfl⟩ := h
    exact ⟨htot.2, rfl, rfl⟩
  · intro h
    obtain ⟨htot, rfl, rfl⟩ := h
    exact ⟨inI128_of_nonneg (by omega) (by omega), inI128_of_nonneg (by omega) htot, rfl, rfl⟩

theorem storeAssetWithdraw_returns (hs : Sound s) (h0 : 0 ≤ amount) {r : UserPosition} :
    Returns (storeAssetWithdraw u a amount) now s r t ↔
      supported s a = true ∧ AccrualFits s (.asset a) u ∧
      amount ≤ (position s (.asset a) u).balance ∧
      r = { settled now s (.asset a) u with balance := (position s (.asset a) u).balance - amount } ∧
      t = afterAssetMove now u a (-amount) s := by
  have hle := hs.balance_le_total (p := .asset a) (u := u)
  have hmax := hs.total_le (.asset a)
  simp only [storeAssetWithdraw, returns_bind, requireAssetSupported_returns, and_assoc,
    exists_and_left, ↓existsAndEq, exists_eq_left, exists_const, getUserAssetPositionUnchecked_returns,
    getAssetRewardIndex_returns, getAssetTotalDeposits_returns, accrueAssetPositionRewards_returns,
    accrue_eq_ok hs, returns_failIf, returns_okOr, checkedSub_eq_some, setAssetTotalDeposits,
    setUserAssetPosition, returns_modify, returns_pure, true_and, settled_balance, and_self_left,
    not_lt]
  refine and_congr_right fun _ => and_congr_right fun _ => and_congr_right fun hb => ?_
  have h1 : InI128 ((position s (.asset a) u).balance - amount) :=
    inI128_of_nonneg (by omega) (by omega)
  have h2 : InI128 (poolTotal s (.asset a) - amount) := inI128_of_nonneg (by omega) (by omega)
  simp only [h1, h2, true_and]
  rfl

theorem storeAssetRewardDistribution_returns (hs : Sound s) (h0 : 0 ≤ amount) {r : Int} :
    Returns (storeAssetRewardDistribution a amount) now s r t ↔
      supported s a = true ∧ Distributes s (.asset a) amount ∧
      r = poolIndex s (.asset a) + increment s (.asset a) amount ∧
      t = afterAssetDistribution a amount s := by
  have hidx := hs.poolIndex_nonneg (p := .asset a) ⟨0⟩
  simp only [storeAssetRewardDistribution, returns_bind, requireAssetSupported_returns, and_assoc,
    exists_and_left, ↓existsAndEq, exists_eq_left, exists_const, getAssetRewardIndex_returns,
    getAssetTotalDeposits_returns, returns_lift, checkedRewardIndexIncrement_eq_ok h0, returns_okOr,
    checkedAdd_eq_some, setAssetRewardIndex, returns_modify, returns_pure, true_and, and_self_left]
  refine and_congr_right fun _ => ?_
  refine ⟨?_, ?_⟩
  · intro h
    obtain ⟨hpos, hprod, hraise, hfit, rfl, rfl⟩ := h
    exact ⟨⟨hpos, hprod, hraise, hfit.2⟩, rfl, rfl⟩
  · intro h
    obtain ⟨⟨hpos, hprod, hraise, hfit⟩, rfl, rfl⟩ := h
    have hraise' : 0 < amount * REWARD_INDEX_SCALE / poolTotal s (.asset a) := hraise
    exact ⟨hpos, hprod, hraise, inI128_of_nonneg (by omega) hfit, rfl, rfl⟩

theorem storeAssetClaimableRewards_returns (hs : Sound s) {st : VaultState} (hst : StateOf s st)
    {r : Int} :
    Returns (storeAssetClaimableRewards u a) now s r t ↔
      supported s a = true ∧ AccrualFits s (.asset a) u ∧
      VestingFits now (vestingPeriod s) (settled now s (.asset a) u) ∧
      r = claimable now s (.asset a) u ∧ t = afterAssetClaim now u a r s := by
  have hperiod : st.vestingPeriod = vestingPeriod s := hst.vestingPeriod
  simp only [storeAssetClaimableRewards, returns_bind, requireAssetSupported_returns, and_assoc,
    exists_and_left, ↓existsAndEq, exists_eq_left, exists_const, getState_returns, hst.iff,
    getUserAssetPositionUnchecked_returns, getAssetRewardIndex_returns,
    accrueAssetPositionRewards_returns, accrue_eq_ok hs, returns_ask, returns_lift, returns_okOr,
    checkedSub_eq_some, setUserAssetPosition, returns_modify, returns_pure, true_and, hperiod,
    and_self_left]
  refine and_congr_right fun _ => and_congr_right fun hfit => ?_
  rw [← and_assoc, vested_of_settled hs hfit, and_assoc]
  rfl

theorem addSupportedAsset_returns {x : Unit} :
    Returns (addSupportedAsset a) now s x t ↔ t = afterAddAsset a s := by
  simp only [addSupportedAsset, getSupportedAssets, returns_bind, returns_gets, and_assoc,
    exists_and_left, ↓existsAndEq, exists_eq_left, true_and]
  by_cases h : supported s a = true
  · rw [afterAddAsset_of_supported h]
    unfold supported at h
    simp [h]
  · rw [afterAddAsset_of_not_supported h]
    unfold supported at h
    simp [h]

/-! ## Views -/

theorem readOnly_requireInitialized : ReadOnly requireInitialized :=
  fun _ _ _ _ h => (requireInitialized_returns.mp h).2

theorem readOnly_getState : ReadOnly getState := fun _ _ _ _ h => (getState_returns.mp h).2

theorem readOnly_requireAssetSupported (a : Address) : ReadOnly (requireAssetSupported a) :=
  fun _ _ _ _ h => (requireAssetSupported_returns.mp h).2

theorem readOnly_getAssetRewardIndex (a : Address) : ReadOnly (getAssetRewardIndex a) :=
  fun _ _ _ _ h => (getAssetRewardIndex_returns.mp h).2.2

theorem readOnly_getUserPositionUnchecked (u : Address) : ReadOnly (getUserPositionUnchecked u) := by
  refine .bind (.gets _) fun _ => .bind (.gets _) fun _ => .bind (.lift _) fun _ => ?_
  exact .bind (fun _ _ _ _ h => (returns_get.mp h).2) fun _ => .pure _

theorem readOnly_getUserPosition (u : Address) : ReadOnly (getUserPosition u) :=
  .bind readOnly_requireInitialized fun _ => readOnly_getUserPositionUnchecked u

theorem readOnly_getUserAssetPosition (u a : Address) : ReadOnly (getUserAssetPosition u a) :=
  .bind readOnly_requireInitialized fun _ => .bind (readOnly_requireAssetSupported a) fun _ => .gets _

theorem readOnly_previewUserRewards (u : Address) : ReadOnly (previewUserRewards u) := by
  refine .bind readOnly_requireInitialized fun _ => .bind readOnly_getState fun st => ?_
  refine .bind (readOnly_getUserPositionUnchecked u) fun q => ?_
  refine .bind (.bind .ask fun _ => .lift _) fun _ => ?_
  exact .bind .ask fun _ => .bind (.lift _) fun _ => .pure _

theorem readOnly_previewUserAssetRewards (u a : Address) :
    ReadOnly (previewUserAssetRewards u a) := by
  refine .bind readOnly_requireInitialized fun _ => .bind (readOnly_requireAssetSupported a) fun _ => ?_
  refine .bind readOnly_getState fun st => .bind (.gets _) fun q => ?_
  refine .bind (readOnly_getAssetRewardIndex a) fun _ => .bind (.bind .ask fun _ => .lift _) fun _ => ?_
  exact .bind .ask fun _ => .bind (.lift _) fun _ => .pure _

end Axionvera.Vault.StorageSpec

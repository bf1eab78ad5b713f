import Axionvera.Vault.Refinement

/-! # The legacy pool and an asset pool are one machine

`storage.rs` has the accounting of a pool twice: for the legacy pool, whose
balances are split into a liquid part and locks and whose distributions pass a
multiplier, and for assets. `machine` is that accounting once, over a pool's
index, total and positions. Both copies of the code compute it on every call,
whatever the amounts, as long as the legacy pool has no locks and no
multipliers. -/
namespace Axionvera.Vault.OneMachine
open Axionvera.Lib.Fallible Axionvera.Lib.Host Axionvera.Lib.KeyValue Axionvera.Lib.MachineInt
open Axionvera.Vault.Errors Axionvera.Vault.Types Axionvera.Vault.Storage Axionvera.Vault.Accounts
open Axionvera.Vault.StorageSpec Axionvera.Vault.Refinement

/-! ## Two copies of one accounting -/

/-- A call at storage level. -/
inductive Op where
  | deposit (user : Address) (amount : I128)
  | withdraw (user : Address) (amount : I128)
  | distribute (amount : I128)
  | claim (user : Address)

/-- What both copies return: the position after a deposit or a withdrawal, the
new index after a distribution, the amount of a claim. -/
inductive Answer where
  | position (q : UserPosition)
  | amount (x : Int)
  deriving DecidableEq

def legacyCall : Op → StoreM Answer
  | .deposit user amount => return .position (← storeDeposit user amount.val).2
  | .withdraw user amount => return .position (← storeWithdraw user amount.val).2
  | .distribute amount => return .amount (← storeRewardDistribution amount.val).rewardIndex
  | .claim user => return .amount (← storeClaimableRewards user)

def assetCall (asset : Address) : Op → StoreM Answer
  | .deposit user amount => return .position (← storeAssetDeposit user asset amount.val)
  | .withdraw user amount => return .position (← storeAssetWithdraw user asset amount.val)
  | .distribute amount => return .amount (← storeAssetRewardDistribution asset amount.val)
  | .claim user => return .amount (← storeAssetClaimableRewards user asset)

def callOn : PoolId → Op → StoreM Answer
  | .legacy => legacyCall
  | .asset a => assetCall a

/-- Calls one after the other, each at its time, with what each of them
answered. A call that fails is rolled back. -/
def runCalls (call : Op → StoreM Answer) : Storage → List (Nat × Op) → List (Option Answer) × Storage
  | s, [] => ([], s)
  | s, (now, op) :: rest =>
    let next := runCalls call (invoke (call op) now s) rest
    ((call op now s).value :: next.1, next.2)

/-! ## The machine -/

/-- What the accounting of a pool works on. -/
structure Books where
  index : Int
  total : Int
  position : Address → UserPosition

def Books.write (b : Books) (u : Address) (q : UserPosition) (total : Int) : Books :=
  { b with total := total, position := Function.update b.position u q }

def machine (period now : Nat) (b : Books) : Op → Option (Answer × Books)
  | .deposit u amount => do
    let q ← (accrueRewards now b.index (b.position u)).toOption
    let balance ← checkedAdd q.balance amount.val
    let total ← checkedAdd b.total amount.val
    let q := { q with balance := balance }
    return (.position q, b.write u q total)
  | .withdraw u amount => do
    let q ← (accrueRewards now b.index (b.position u)).toOption
    if q.balance < amount.val then none
    else
      let balance ← checkedSub q.balance amount.val
      let total ← checkedSub b.total amount.val
      let q := { q with balance := balance }
      return (.position q, b.write u q total)
  | .distribute amount => do
    let increment ← (checkedRewardIndexIncrement amount.val b.total).toOption
    let index ← checkedAdd b.index increment
    return (.amount index, { b with index := index })
  | .claim u => do
    let q ← (accrueRewards now b.index (b.position u)).toOption
    let vested ← (calculateVestedRewards now q period).toOption
    let remaining ← checkedSub q.accruedRewards vested
    return (.amount vested, b.write u { q with accruedRewards := remaining } b.total)

def runMachine (period : Nat) : Books → List (Nat × Op) → List (Option Answer) × Books
  | b, [] => ([], b)
  | b, (now, op) :: rest =>
    match machine period now b op with
    | some (answer, b') =>
      let next := runMachine period b' rest
      (some answer :: next.1, next.2)
    | none =>
      let next := runMachine period b rest
      (none :: next.1, next.2)

/-- The books of a pool. -/
def booksOf (s : Storage) (p : PoolId) : Books := ⟨poolIndex s p, poolTotal s p, position s p⟩

/-- A legacy pool on which both copies can be compared. -/
structure PlainLegacy (s : Storage) : Prop where
  state : ∃ st, StateOf s st
  no_locks : ∀ u, locks s u = []
  no_multipliers : s.utilizationMultipliers.getD [] = []
  liquid_fits : ∀ u, InI128 (liquid s u)

structure PlainAsset (s : Storage) (a : Address) : Prop where
  state : ∃ st, StateOf s st
  listed : supported s a = true

def Plain (s : Storage) : PoolId → Prop
  | .legacy => PlainLegacy s
  | .asset a => PlainAsset s a

section Machine
variable {period now : Nat} {b b' : Books} {r : Answer} {u : Address} {amount : I128}

theorem toOption_eq_some {ε α : Type} {x : Except ε α} {a : α} :
    x.toOption = some a ↔ x = .ok a := by
  cases x <;> simp [Except.toOption]

theorem machine_deposit : machine period now b (.deposit u amount) = some (r, b') ↔
    ∃ q, accrueRewards now b.index (b.position u) = .ok q ∧ InI128 (q.balance + amount.val) ∧
      InI128 (b.total + amount.val) ∧
      r = .position { q with balance := q.balance + amount.val } ∧
      b' = b.write u { q with balance := q.balance + amount.val } (b.total + amount.val) := by
  simp only [machine, Option.bind_eq_bind, Option.bind_eq_some_iff, toOption_eq_some,
    checkedAdd_eq_some, Option.pure_def, Option.some.injEq, Prod.mk.injEq, and_assoc,
    exists_and_left, ↓existsAndEq, true_and, eq_comm (b := r), eq_comm (b := b')]

theorem machine_withdraw : machine period now b (.withdraw u amount) = some (r, b') ↔
    ∃ q, accrueRewards now b.index (b.position u) = .ok q ∧ amount.val ≤ q.balance ∧
      InI128 (q.balance - amount.val) ∧ InI128 (b.total - amount.val) ∧
      r = .position { q with balance := q.balance - amount.val } ∧
      b' = b.write u { q with balance := q.balance - amount.val } (b.total - amount.val) := by
  simp only [machine, Option.bind_eq_bind, Option.bind_eq_some_iff, toOption_eq_some]
  refine exists_congr fun q => and_congr_right fun _ => ?_
  split
  · rename_i hlt
    simp only [reduceCtorEq, false_iff, not_and]
    omega
  · rename_i hle
    simp only [Option.bind_eq_some_iff, checkedSub_eq_some, Option.pure_def, Option.some.injEq,
      Prod.mk.injEq, and_assoc, exists_and_left, ↓existsAndEq, true_and, eq_comm (b := r),
      eq_comm (b := b'), not_lt.mp hle]

theorem machine_distribute : machine period now b (.distribute amount) = some (r, b') ↔
    ∃ i, checkedRewardIndexIncrement amount.val b.total = .ok i ∧ InI128 (b.index + i) ∧
      r = .amount (b.index + i) ∧ b' = { b with index := b.index + i } := by
  simp only [machine, Option.bind_eq_bind, Option.bind_eq_some_iff, toOption_eq_some,
    checkedAdd_eq_some, Option.pure_def, Option.some.injEq, Prod.mk.injEq, and_assoc,
    exists_and_left, ↓existsAndEq, true_and, eq_comm (b := r), eq_comm (b := b')]

theorem machine_claim : machine period now b (.claim u) = some (r, b') ↔
    ∃ q v, accrueRewards now b.index (b.position u) = .ok q ∧
      calculateVestedRewards now q period = .ok v ∧ InI128 (q.accruedRewards - v) ∧
      r = .amount v ∧
      b' = b.write u { q with accruedRewards := q.accruedRewards - v } b.total := by
  simp only [machine, Option.bind_eq_bind, Option.bind_eq_some_iff, toOption_eq_some,
    checkedSub_eq_some, Option.pure_def, Option.some.injEq, Prod.mk.injEq, and_assoc,
    exists_and_left, ↓existsAndEq, true_and, eq_comm (b := r), eq_comm (b := b')]

end Machine

/-- Accrual never moves the balance. -/
theorem accrueRewards_balance {now : Nat} {index : Int} {q q' : UserPosition}
    (h : accrueRewards now index q = .ok q') : q'.balance = q.balance := by
  unfold accrueRewards at h
  split at h
  · obtain rfl := pure_eq_ok.mp h
    rfl
  · split at h
    · simp only [bind_eq_ok] at h
      obtain ⟨_, _, _, _, h⟩ := h
      split at h
      · simp only [bind_eq_ok] at h
        obtain ⟨_, _, h⟩ := h
        obtain rfl := pure_eq_ok.mp h
        rfl
      · obtain rfl := pure_eq_ok.mp h
        rfl
    · obtain rfl := pure_eq_ok.mp h
      rfl

/-! ## The code computes the machine -/

/-- A call of the code on a pool succeeds exactly when the machine moves, with
the same answer and the books that the machine leaves. -/
structure Simulated (s : Storage) (p : PoolId) (now : Nat) (op : Op) : Prop where
  sound : ∀ r t, Returns (callOn p op) now s r t →
    machine (vestingPeriod s) now (booksOf s p) op = some (r, booksOf t p) ∧ Plain t p ∧
      vestingPeriod t = vestingPeriod s
  complete : ∀ r b, machine (vestingPeriod s) now (booksOf s p) op = some (r, b) →
    ∃ t, Returns (callOn p op) now s r t

/-- A description of the successful calls that fits the machine's. -/
theorem Simulated.intro {s : Storage} {p : PoolId} {now : Nat} {op : Op} {α : Type}
    (ok : α → Prop) (answer : α → Answer) (after : α → Storage)
    (hcode : ∀ r t, Returns (callOn p op) now s r t ↔ ∃ x, ok x ∧ r = answer x ∧ t = after x)
    (hmachine : ∀ r b, machine (vestingPeriod s) now (booksOf s p) op = some (r, b) ↔
      ∃ x, ok x ∧ r = answer x ∧ b = booksOf (after x) p)
    (hplain : ∀ x, ok x → Plain (after x) p ∧ vestingPeriod (after x) = vestingPeriod s) :
    Simulated s p now op where
  sound r t h := by
    obtain ⟨x, hx, rfl, rfl⟩ := (hcode r t).mp h
    exact ⟨(hmachine _ _).mpr ⟨x, hx, rfl, rfl⟩, hplain x hx⟩
  complete r b h := by
    obtain ⟨x, hx, rfl, rfl⟩ := (hmachine r b).mp h
    exact ⟨after x, (hcode _ _).mpr ⟨x, hx, rfl, rfl⟩⟩

section Asset
variable {s t : Storage} {a u : Address} {now : Nat}

def assetWrite (u a : Address) (q : UserPosition) (total : Int) (s : Storage) : Storage :=
  putAssetPosition u a q { s with assetTotalDeposits := s.assetTotalDeposits.set a total }

theorem booksOf_putAssetPosition (u a : Address) (q : UserPosition) (s : Storage) :
    booksOf (putAssetPosition u a q s) (.asset a) =
      (booksOf s (.asset a)).write u q (poolTotal s (.asset a)) := by
  have hpos : position (putAssetPosition u a q s) (.asset a) =
      Function.update (position s (.asset a)) u q := by
    funext v
    rw [position_putAssetPosition, Function.update_apply]
    simp only [and_true]
  simp only [booksOf, Books.write, hpos]
  rfl

theorem booksOf_assetWrite (u a : Address) (q : UserPosition) (total : Int) (s : Storage) :
    booksOf (assetWrite u a q total s) (.asset a) = (booksOf s (.asset a)).write u q total := by
  rw [assetWrite, booksOf_putAssetPosition]
  simp [booksOf, Books.write, poolTotal, poolIndex, FinMap.getD_set]
  rfl

theorem plainAsset_write (h : PlainAsset s a) (q : UserPosition) (total : Int) :
    PlainAsset (assetWrite u a q total s) a := by
  obtain ⟨⟨st, hst⟩, hlisted⟩ := h
  exact ⟨⟨st, hst.congr rfl⟩, hlisted⟩

theorem simulated_assetDeposit (h : PlainAsset s a) (amount : I128) :
    Simulated s (.asset a) now (.deposit u amount) := by
  refine .intro (fun q => accrueRewards now (poolIndex s (.asset a))
      (position s (.asset a) u) = .ok q ∧ InI128 (q.balance + amount.val) ∧
      InI128 (poolTotal s (.asset a) + amount.val))
    (fun q => .position { q with balance := q.balance + amount.val })
    (fun q => assetWrite u a { q with balance := q.balance + amount.val }
      (poolTotal s (.asset a) + amount.val) s) ?_ ?_ ?_
  · intro r t
    simp only [callOn, assetCall, storeAssetDeposit, returns_bind, requireAssetSupported_returns,
      getUserAssetPositionUnchecked_returns, getAssetRewardIndex_returns,
      getAssetTotalDeposits_returns, accrueAssetPositionRewards_returns, returns_okOr,
      checkedAdd_eq_some, setAssetTotalDeposits, setUserAssetPosition, returns_modify, returns_pure,
      h.listed, and_assoc, exists_and_left, ↓existsAndEq, exists_const, true_and]
    rfl
  · intro r b
    simp only [machine_deposit, booksOf_assetWrite, and_assoc]
    rfl
  · intro q _
    exact ⟨plainAsset_write h _ _, rfl⟩

theorem simulated_assetWithdraw (h : PlainAsset s a) (amount : I128) :
    Simulated s (.asset a) now (.withdraw u amount) := by
  refine .intro (fun q => accrueRewards now (poolIndex s (.asset a))
      (position s (.asset a) u) = .ok q ∧ amount.val ≤ q.balance ∧
      InI128 (q.balance - amount.val) ∧ InI128 (poolTotal s (.asset a) - amount.val))
    (fun q => .position { q with balance := q.balance - amount.val })
    (fun q => assetWrite u a { q with balance := q.balance - amount.val }
      (poolTotal s (.asset a) - amount.val) s) ?_ ?_ ?_
  · intro r t
    simp only [callOn, assetCall, storeAssetWithdraw, returns_bind, requireAssetSupported_returns,
      getUserAssetPositionUnchecked_returns, getAssetRewardIndex_returns,
      getAssetTotalDeposits_returns, accrueAssetPositionRewards_returns, returns_failIf, not_lt,
      returns_okOr, checkedSub_eq_some, setAssetTotalDeposits, setUserAssetPosition, returns_modify,
      returns_pure, h.listed, and_assoc, exists_and_left, ↓existsAndEq, exists_const, true_and]
    rfl
  · intro r b
    simp only [machine_withdraw, booksOf_assetWrite, and_assoc]
    rfl
  · intro q _
    exact ⟨plainAsset_write h _ _, rfl⟩

theorem simulated_assetDistribute (h : PlainAsset s a) (amount : I128) :
    Simulated s (.asset a) now (.distribute amount) := by
  refine .intro (fun i => checkedRewardIndexIncrement amount.val (poolTotal s (.asset a)) =
      .ok i ∧ InI128 (poolIndex s (.asset a) + i))
    (fun i => .amount (poolIndex s (.asset a) + i))
    (fun i => { s with
      assetRewardIndex := s.assetRewardIndex.set a (poolIndex s (.asset a) + i) }) ?_ ?_ ?_
  · intro r t
    simp only [callOn, assetCall, storeAssetRewardDistribution, returns_bind,
      requireAssetSupported_returns, getAssetRewardIndex_returns, getAssetTotalDeposits_returns,
      returns_lift, returns_okOr, checkedAdd_eq_some, setAssetRewardIndex, returns_modify,
      returns_pure, h.listed, and_assoc, exists_and_left, ↓existsAndEq, exists_const, true_and]
  · intro r b
    simp only [machine_distribute, and_assoc]
    simp [booksOf, poolIndex, FinMap.getD_set]
    rfl
  · intro i _
    obtain ⟨st, hst⟩ := h.state
    exact ⟨⟨⟨st, hst.congr rfl⟩, h.listed⟩, rfl⟩

theorem simulated_assetClaim (h : PlainAsset s a) : Simulated s (.asset a) now (.claim u) := by
  obtain ⟨st, hst⟩ := h.state
  have hperiod : st.vestingPeriod = vestingPeriod s := hst.vestingPeriod
  refine .intro (fun x : UserPosition × Int => accrueRewards now (poolIndex s (.asset a))
      (position s (.asset a) u) = .ok x.1 ∧
      calculateVestedRewards now x.1 (vestingPeriod s) = .ok x.2 ∧
      InI128 (x.1.accruedRewards - x.2))
    (fun x => .amount x.2)
    (fun x => putAssetPosition u a
      { x.1 with accruedRewards := x.1.accruedRewards - x.2 } s) ?_ ?_ ?_
  · intro r t
    simp only [callOn, assetCall, storeAssetClaimableRewards, returns_bind,
      requireAssetSupported_returns, getState_returns, hst.iff,
      getUserAssetPositionUnchecked_returns, getAssetRewardIndex_returns,
      accrueAssetPositionRewards_returns, returns_ask, returns_lift, returns_okOr,
      checkedSub_eq_some, setUserAssetPosition, returns_modify, returns_pure, h.listed, hperiod,
      and_assoc, exists_and_left, ↓existsAndEq, exists_const, true_and]
    rw [exists_comm, Prod.exists]
    rfl
  · intro r b
    simp only [machine_claim, booksOf_putAssetPosition, and_assoc, Prod.exists]
    rfl
  · intro x _
    exact ⟨⟨⟨st, hst.congr rfl⟩, h.listed⟩, rfl⟩

end Asset

section Legacy
variable {s t : Storage} {u : Address} {now : Nat}

theorem balance_of_plain (h : PlainLegacy s) (u : Address) :
    (position s .legacy u).balance = liquid s u := by
  rw [balance_eq, h.no_locks u]
  exact add_zero _

/-- Without locks the balance is the liquid balance, which fits. -/
theorem getUserPosition_of_plain (h : PlainLegacy s) {q : UserPosition} :
    Returns (getUserPositionUnchecked u) now s q t ↔ q = position s .legacy u ∧ t = s := by
  have hlocks : s.userLocks.getD u [] = [] := h.no_locks u
  have hsum : sumI128 (([] : List Lock).map Lock.amount) = 0 := rfl
  have hfit : InI128 (s.userLiquidBalance.getD u 0 + 0) := by
    rw [add_zero]
    exact h.liquid_fits u
  have hpos : position s .legacy u = ⟨s.userLiquidBalance.getD u 0 + 0, s.userRewardIndex.getD u 0,
      s.userAccruedRewards.getD u 0, s.userLastRewardTimestamp.getD u 0⟩ := by
    simp only [position, locked, h.no_locks u]
    rfl
  simp only [getUserPositionUnchecked, getLiquidBalanceUnchecked, getUserLocksUnchecked,
    returns_bind, returns_gets, returns_okOr, returns_get, returns_pure, checkedAdd_eq_some, hlocks,
    hsum, and_assoc, exists_and_left, ↓existsAndEq, true_and, hfit, hpos]

theorem unlockExpiredLocks_of_plain (h : PlainLegacy s) {limit : Nat} {x : Int} :
    Returns (unlockExpiredLocks u limit) now s x t ↔ x = 0 ∧ t = s := by
  have hlocks : s.userLocks.getD u [] = [] := h.no_locks u
  by_cases hl : limit = 0
  · simp [unlockExpiredLocks, hl]
  · simp [unlockExpiredLocks, hl, getUserLocksUnchecked, hlocks, unlockLoop]

def legacyWrite (u : Address) (q : UserPosition) (total : Int) (s : Storage) : Storage :=
  putPosition u q { s with
    userLiquidBalance := s.userLiquidBalance.put u q.balance
    totalDeposits := some total }

theorem booksOf_legacyWrite (h : PlainLegacy s) (u : Address) (q : UserPosition) (total : Int) :
    booksOf (legacyWrite u q total s) .legacy = (booksOf s .legacy).write u q total := by
  have hpos : position (legacyWrite u q total s) .legacy =
      Function.update (position s .legacy) u q := by
    funext v
    have hlocks : locks (legacyWrite u q total s) v = [] := h.no_locks v
    rw [Function.update_apply]
    split
    · rename_i hv
      subst hv
      simp only [position, locked, hlocks]
      simp [legacyWrite, putPosition, liquid, lockSum, FinMap.getD_put, FinMap.getD_set]
    · rename_i hv
      simp only [position, locked, hlocks, h.no_locks v]
      simp [legacyWrite, putPosition, liquid, FinMap.getD_put, FinMap.getD_set, hv]
  simp only [booksOf, Books.write, hpos]
  rfl

theorem booksOf_putPosition (u : Address) {q : UserPosition}
    (hq : q.balance = (position s .legacy u).balance) :
    booksOf (putPosition u q s) .legacy = (booksOf s .legacy).write u q (poolTotal s .legacy) := by
  have hpos : position (putPosition u q s) .legacy = Function.update (position s .legacy) u q := by
    funext v
    rw [Function.update_apply]
    split
    · rename_i hv
      subst hv
      obtain ⟨balance, index, accrued, since⟩ := q
      obtain rfl : balance = (position s .legacy v).balance := hq
      simp only [position, putPosition, FinMap.getD_put, FinMap.getD_set, if_true]
      rfl
    · rename_i hv
      simp only [position, putPosition, FinMap.getD_put, FinMap.getD_set, if_neg hv]
      rfl
  simp only [booksOf, Books.write, hpos]
  rfl

theorem plainLegacy_write (h : PlainLegacy s) {q : UserPosition} (hq : InI128 q.balance)
    (total : Int) : PlainLegacy (legacyWrite u q total s) := by
  obtain ⟨⟨st, hst⟩, hlocks, hmult, hliq⟩ := h
  refine ⟨⟨{ st with totalDeposits := total }, ?_⟩, hlocks, hmult, ?_⟩
  · exact ⟨hst.1, hst.2, hst.3, hst.4, rfl, hst.6, hst.7, hst.8, hst.9⟩
  · intro v
    have hread : liquid (legacyWrite u q total s) v = if v = u then q.balance else liquid s v :=
      FinMap.getD_put _ _ _ _
    rw [hread]
    split
    · exact hq
    · exact hliq v

theorem simulated_legacyDeposit (h : PlainLegacy s) (amount : I128) :
    Simulated s .legacy now (.deposit u amount) := by
  obtain ⟨st, hst⟩ := h.state
  refine .intro (fun q => accrueRewards now (poolIndex s .legacy) (position s .legacy u) =
      .ok q ∧ InI128 (q.balance + amount.val) ∧ InI128 (poolTotal s .legacy + amount.val))
    (fun q => .position { q with balance := q.balance + amount.val })
    (fun q => legacyWrite u { q with balance := q.balance + amount.val }
      (poolTotal s .legacy + amount.val) s) ?_ ?_ ?_
  · intro r t
    simp only [callOn, legacyCall, storeDeposit, returns_bind, getState_returns, hst.iff,
      getUserPosition_of_plain h, accruePositionRewards_returns, returns_okOr, checkedAdd_eq_some,
      getLiquidBalanceUnchecked, setLiquidBalance, setTotalDeposits, setUserPosition, returns_gets,
      returns_modify, returns_pure, hst.rewardIndex, hst.totalDeposits, and_assoc, exists_and_left,
      ↓existsAndEq, exists_const, true_and]
    refine exists_congr fun q => and_congr_right fun hq => ?_
    -- the liquid balance is checked as well, and is the balance
    have hbal : s.userLiquidBalance.getD u 0 = q.balance :=
      ((accrueRewards_balance hq).trans (balance_of_plain h u)).symm
    rw [hbal, ← and_assoc, and_self]
    rfl
  · intro r b
    simp only [machine_deposit, booksOf_legacyWrite h, and_assoc]
    rfl
  · intro q hq
    exact ⟨plainLegacy_write h hq.2.1 _, rfl⟩

theorem simulated_legacyWithdraw (h : PlainLegacy s) (amount : I128) :
    Simulated s .legacy now (.withdraw u amount) := by
  obtain ⟨st, hst⟩ := h.state
  refine .intro (fun q => accrueRewards now (poolIndex s .legacy) (position s .legacy u) =
      .ok q ∧ amount.val ≤ q.balance ∧ InI128 (q.balance - amount.val) ∧
      InI128 (poolTotal s .legacy - amount.val))
    (fun q => .position { q with balance := q.balance - amount.val })
    (fun q => legacyWrite u { q with balance := q.balance - amount.val }
      (poolTotal s .legacy - amount.val) s) ?_ ?_ ?_
  · intro r t
    simp only [callOn, legacyCall, storeWithdraw, returns_bind, getState_returns, hst.iff,
      getUserPosition_of_plain h, accruePositionRewards_returns, unlockExpiredLocks_of_plain h,
      returns_failIf, not_lt, returns_okOr, checkedSub_eq_some, getLiquidBalanceUnchecked,
      setLiquidBalance, setTotalDeposits, setUserPosition, returns_gets, returns_modify,
      returns_pure, hst.rewardIndex, hst.totalDeposits, and_assoc, exists_and_left, ↓existsAndEq,
      exists_const, true_and]
    refine exists_congr fun q => and_congr_right fun hq => ?_
    have hbal : s.userLiquidBalance.getD u 0 = q.balance :=
      ((accrueRewards_balance hq).trans (balance_of_plain h u)).symm
    rw [hbal]
    refine and_congr_right fun _ => ?_
    rw [← and_assoc, and_self]
    rfl
  · intro r b
    simp only [machine_withdraw, booksOf_legacyWrite h, and_assoc]
    rfl
  · intro q hq
    exact ⟨plainLegacy_write h hq.2.2.1 _, rfl⟩

theorem checkedRewardIndexIncrement_of_neg {amount total i : Int} (h : amount < 0) :
    ¬ checkedRewardIndexIncrement amount total = .ok i := by
  intro hi
  unfold checkedRewardIndexIncrement at hi
  split at hi
  · exact throw_ne_ok hi
  · rename_i htotal
    simp only [bind_eq_ok, okOr_eq_ok, checkedMul_eq_some] at hi
    obtain ⟨_, ⟨_, rfl⟩, increment, hdiv, hi⟩ := hi
    have hscaled : 0 ≤ -(amount * REWARD_INDEX_SCALE) := by
      rw [← Int.neg_mul]
      exact Int.mul_nonneg (by omega) scale_pos.le
    have hnonpos : (amount * REWARD_INDEX_SCALE).tdiv total ≤ 0 := by
      have hneg := Int.tdiv_nonneg hscaled (not_le.mp htotal).le
      rw [Int.neg_tdiv] at hneg
      omega
    unfold checkedDiv at hdiv
    split at hdiv
    · cases hdiv
    · obtain rfl := Option.some.inj hdiv
      rw [if_pos hnonpos] at hi
      exact throw_ne_ok hi

/-- Through a multiplier of one nothing is lost: where the product in `u128`
overflows, so does the scaled amount in `i128`, and a negative amount is refused
on both ways. -/
theorem increment_of_effective {amount total i : Int} (h : InI128 amount) :
    (∃ e, effectiveAmount amount 10000 = .ok e ∧ checkedRewardIndexIncrement e total = .ok i) ↔
      checkedRewardIndexIncrement amount total = .ok i := by
  by_cases h0 : 0 ≤ amount
  · simp only [effectiveAmount_eq_ok h0 h.2]
    refine ⟨?_, ?_⟩
    · intro hex
      obtain ⟨e, ⟨_, rfl⟩, hi⟩ := hex
      rwa [Nat.cast_ofNat, Int.mul_ediv_cancel amount (by decide)] at hi
    · intro hi
      obtain ⟨_, hprod, _⟩ := (checkedRewardIndexIncrement_eq_ok h0).mp hi
      refine ⟨amount, ⟨?_, ?_⟩, hi⟩
      · unfold REWARD_INDEX_SCALE PRECISION_FACTOR i128Max at hprod
        unfold u128Size
        omega
      · rw [Nat.cast_ofNat, Int.mul_ediv_cancel amount (by decide)]
  · have hneg : amount < 0 := not_le.mp h0
    refine ⟨?_, ?_⟩
    · intro hex
      obtain ⟨e, he, _⟩ := hex
      -- as a `u128` the amount is at least `2 ^ 127`
      have hbig : 170141183460469231731687303715884105728 ≤ asU128 amount := by
        have hlow := h.1
        unfold i128Min at hlow
        unfold asU128 u128Size
        omega
      simp only [effectiveAmount, bind_eq_ok, okOr_eq_ok, checkedMulU128_eq_some] at he
      obtain ⟨_, ⟨hlt, _⟩, _⟩ := he
      unfold u128Size at hlt
      omega
    · intro hi
      exact absurd hi (checkedRewardIndexIncrement_of_neg hneg)

theorem simulated_legacyDistribute (h : PlainLegacy s) (amount : I128) :
    Simulated s .legacy now (.distribute amount) := by
  obtain ⟨st, hst⟩ := h.state
  have hmult : calculateUtilizationMultiplier (poolTotal s .legacy) st.targetDeposits
      st.utilizationMultipliers = .ok 10000 := by
    rw [hst.utilizationMultipliers, h.no_multipliers]
    rfl
  refine .intro (fun i => checkedRewardIndexIncrement amount.val (poolTotal s .legacy) =
      .ok i ∧ InI128 (poolIndex s .legacy + i))
    (fun i => .amount (poolIndex s .legacy + i))
    (fun i => { s with rewardIndex := some (poolIndex s .legacy + i) }) ?_ ?_ ?_
  · intro r t
    simp only [callOn, legacyCall, storeRewardDistribution, returns_bind, getState_returns, hst.iff,
      returns_lift, hmult, returns_okOr, checkedAdd_eq_some, setRewardIndex, returns_modify,
      returns_pure, and_assoc, exists_and_left, ↓existsAndEq, exists_const, true_and,
      Except.ok.injEq, hst.rewardIndex, hst.totalDeposits]
    refine ⟨?_, ?_⟩
    · intro hex
      obtain ⟨e, he, i, hi, hfit, hr, ht⟩ := hex
      exact ⟨i, (increment_of_effective amount.inRange).mp ⟨e, he, hi⟩, hfit, hr, ht⟩
    · intro hex
      obtain ⟨i, hi, hfit, hr, ht⟩ := hex
      obtain ⟨e, he, hi⟩ := (increment_of_effective amount.inRange).mpr hi
      exact ⟨e, he, i, hi, hfit, hr, ht⟩
  · intro r b
    simp only [machine_distribute, and_assoc]
    rfl
  · intro i _
    exact ⟨⟨⟨{ st with rewardIndex := poolIndex s .legacy + i },
      ⟨hst.1, hst.2, hst.3, hst.4, hst.5, rfl, hst.7, hst.8, hst.9⟩⟩, h.no_locks, h.no_multipliers,
      h.liquid_fits⟩, rfl⟩

theorem simulated_legacyClaim (h : PlainLegacy s) : Simulated s .legacy now (.claim u) := by
  obtain ⟨st, hst⟩ := h.state
  have hperiod : st.vestingPeriod = vestingPeriod s := hst.vestingPeriod
  refine .intro (fun x : UserPosition × Int => accrueRewards now (poolIndex s .legacy)
      (position s .legacy u) = .ok x.1 ∧
      calculateVestedRewards now x.1 (vestingPeriod s) = .ok x.2 ∧
      InI128 (x.1.accruedRewards - x.2))
    (fun x => .amount x.2)
    (fun x => putPosition u
      { x.1 with accruedRewards := x.1.accruedRewards - x.2 } s) ?_ ?_ ?_
  · intro r t
    simp only [callOn, legacyCall, storeClaimableRewards, returns_bind, getState_returns, hst.iff,
      getUserPosition_of_plain h, accruePositionRewards_returns, returns_ask, returns_lift,
      returns_okOr, checkedSub_eq_some, setUserPosition, returns_modify, returns_pure, hperiod,
      hst.rewardIndex, and_assoc, exists_and_left, ↓existsAndEq, exists_const, true_and]
    rw [exists_comm, Prod.exists]
    rfl
  · intro r b
    simp only [machine_claim, Prod.exists]
    refine exists_congr fun q => exists_congr fun v => ?_
    rw [and_assoc, and_assoc]
    refine and_congr_right fun hq => ?_
    have hbal : q.balance = (position s .legacy u).balance := accrueRewards_balance hq
    rw [booksOf_putPosition (q := { q with accruedRewards := q.accruedRewards - v }) u hbal]
    rfl
  · intro x _
    exact ⟨⟨⟨st, hst.congr rfl⟩, h.no_locks,
      h.no_multipliers, h.liquid_fits⟩, rfl⟩

end Legacy

/-- **Both copies compute the machine**, call by call. -/
theorem simulated {s : Storage} {p : PoolId} (h : Plain s p) (now : Nat) (op : Op) :
    Simulated s p now op := by
  cases p with
  | legacy =>
    cases op with
    | deposit u amount => exact simulated_legacyDeposit h amount
    | withdraw u amount => exact simulated_legacyWithdraw h amount
    | distribute amount => exact simulated_legacyDistribute h amount
    | claim u => exact simulated_legacyClaim h
  | asset a =>
    cases op with
    | deposit u amount => exact simulated_assetDeposit h amount
    | withdraw u amount => exact simulated_assetWithdraw h amount
    | distribute amount => exact simulated_assetDistribute h amount
    | claim u => exact simulated_assetClaim h

/-! ## Whole runs -/

section Runs
variable {s t : Storage} {a : Address}

theorem runCalls_eq_runMachine {p : PoolId} (h : Plain s p) (ops : List (Nat × Op)) :
    (runCalls (callOn p) s ops).1 = (runMachine (vestingPeriod s) (booksOf s p) ops).1 ∧
      booksOf (runCalls (callOn p) s ops).2 p =
        (runMachine (vestingPeriod s) (booksOf s p) ops).2 := by
  induction ops generalizing s with
  | nil => exact ⟨rfl, rfl⟩
  | cons head rest ih =>
    obtain ⟨now, op⟩ := head
    have hsim := simulated h now op
    unfold runCalls runMachine
    cases hm : machine (vestingPeriod s) now (booksOf s p) op with
    | none =>
      have hfail : ∀ r t, ¬ Returns (callOn p op) now s r t := by
        intro r t hret
        rw [(hsim.sound r t hret).1] at hm
        cases hm
      have hvalue : (callOn p op now s).value = none := by
        cases hv : (callOn p op now s).value with
        | none => rfl
        | some r =>
          obtain ⟨t, hret⟩ := value_eq_some.mp hv
          exact absurd hret (hfail r t)
      rw [invoke_of_not_returns hfail, hvalue]
      obtain ⟨hanswers, hbooks⟩ := ih h
      exact ⟨congrArg (List.cons none) hanswers, hbooks⟩
    | some result =>
      obtain ⟨r, b⟩ := result
      obtain ⟨t, hret⟩ := hsim.complete r b hm
      obtain ⟨hstep, hplain, hperiod⟩ := hsim.sound r t hret
      obtain rfl : booksOf t p = b := by
        rw [hstep] at hm
        cases hm
        rfl
      rw [invoke_of_returns hret, value_eq_some.mpr ⟨t, hret⟩, ← hperiod]
      obtain ⟨hanswers, hbooks⟩ := ih hplain
      exact ⟨congrArg (List.cons (some r)) hanswers, hbooks⟩

/-- A legacy pool that nobody has used, of a vault without multipliers. -/
structure FreshLegacy (s : Storage) : Prop where
  state : ∃ st, StateOf s st
  no_locks : ∀ u, locks s u = []
  no_multipliers : s.utilizationMultipliers.getD [] = []
  total : poolTotal s .legacy = 0
  index : poolIndex s .legacy = 0
  position : ∀ u, position s .legacy u = ⟨0, 0, 0, 0⟩

/-- An asset that was just added. -/
structure FreshAsset (s : Storage) (a : Address) : Prop where
  state : ∃ st, StateOf s st
  listed : supported s a = true
  total : poolTotal s (.asset a) = 0
  index : poolIndex s (.asset a) = 0
  position : ∀ u, position s (.asset a) u = ⟨0, 0, 0, 0⟩

theorem FreshLegacy.plain (h : FreshLegacy s) : PlainLegacy s := by
  refine ⟨h.state, h.no_locks, h.no_multipliers, ?_⟩
  intro u
  have hzero : liquid s u = 0 := by
    have hbal := congrArg UserPosition.balance (h.position u)
    rw [balance_eq, h.no_locks u] at hbal
    exact (add_zero _).symm.trans hbal
  rw [hzero]
  exact inI128_of_nonneg le_rfl (by decide)

/-- **The legacy pool and an asset pool are the same machine.** The same calls,
with any amounts and at any times, succeed on both or on neither, with the same
answers, and leave the same total, index and positions; this holds for every
run, so after each of its calls. -/
theorem pools_run_alike (hl : FreshLegacy s) (ha : FreshAsset t a)
    (hp : vestingPeriod s = vestingPeriod t) (ops : List (Nat × Op)) :
    (runCalls legacyCall s ops).1 = (runCalls (assetCall a) t ops).1 ∧
    poolTotal (runCalls legacyCall s ops).2 .legacy =
      poolTotal (runCalls (assetCall a) t ops).2 (.asset a) ∧
    poolIndex (runCalls legacyCall s ops).2 .legacy =
      poolIndex (runCalls (assetCall a) t ops).2 (.asset a) ∧
    ∀ u, position (runCalls legacyCall s ops).2 .legacy u =
      position (runCalls (assetCall a) t ops).2 (.asset a) u := by
  have hstart : booksOf s .legacy = booksOf t (.asset a) := by
    have hpos : position s .legacy = position t (.asset a) :=
      funext fun u => (hl.position u).trans (ha.position u).symm
    simp only [booksOf, hl.total, hl.index, ha.total, ha.index, hpos]
  obtain ⟨hlegacy, hlbooks⟩ := runCalls_eq_runMachine (p := .legacy) hl.plain ops
  obtain ⟨hasset, habooks⟩ :=
    runCalls_eq_runMachine (p := .asset a) (show PlainAsset t a from ⟨ha.state, ha.listed⟩) ops
  rw [hp, hstart] at hlegacy hlbooks
  have hbooks := hlbooks.trans habooks.symm
  refine ⟨hlegacy.trans hasset.symm, congrArg Books.total hbooks, congrArg Books.index hbooks, ?_⟩
  intro u
  exact congrArg (fun b => b.position u) hbooks

/-- A vault with a vesting period of 1000 and one asset. -/
def listedVault : Storage :=
  afterAddAsset ⟨6⟩ (initialStorage ⟨1⟩ ⟨2⟩ ⟨3⟩ 1000 0 [])

theorem listedVault_state : StateOf listedVault ⟨⟨1⟩, ⟨2⟩, ⟨3⟩, 0, 0, 1000, 0, []⟩ :=
  ⟨rfl, rfl, rfl, rfl, rfl, rfl, rfl, rfl, rfl⟩

theorem freshLegacy_listedVault : FreshLegacy listedVault :=
  ⟨⟨_, listedVault_state⟩, fun _ => rfl, rfl, rfl, rfl, fun _ => rfl⟩

theorem freshAsset_listedVault : FreshAsset listedVault ⟨6⟩ :=
  ⟨⟨_, listedVault_state⟩, rfl, rfl, rfl, fun _ => rfl⟩

/-- A deposit, a withdrawal of too much, a distribution and a claim halfway. -/
def fourOps : List (Nat × Op) :=
  [(10, .deposit ⟨4⟩ 100), (20, .withdraw ⟨4⟩ 101), (30, .distribute 100000), (40, .claim ⟨4⟩),
    (540, .claim ⟨4⟩)]

theorem pools_run_alike_four :
    (runCalls legacyCall listedVault fourOps).1 = (runCalls (assetCall ⟨6⟩) listedVault fourOps).1 ∧
    (runCalls legacyCall listedVault fourOps).1 =
      [some (.position ⟨100, 0, 0, 0⟩), none, some (.amount 1000000000000), some (.amount 0),
        some (.amount 50000)] := by
  refine ⟨?_, rfl⟩
  exact (pools_run_alike freshLegacy_listedVault freshAsset_listedVault rfl fourOps).1

end Runs
end Axionvera.Vault.OneMachine

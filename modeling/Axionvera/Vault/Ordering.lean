import Axionvera.Lib.Ownership
import Axionvera.Vault.Principal

/-! # Two users within one ledger

A user's call reads and writes the entries stored under that user, reads the
reward indices and the configuration, and adds to the totals. In the terms of
`Lib.Ownership` it is a step of that user, so the calls of two users commute. -/
namespace Axionvera.Vault.Ordering
open Axionvera.Lib.Host Axionvera.Lib.KeyValue Axionvera.Lib.MachineInt Axionvera.Lib.Ownership
open Axionvera.Vault.Types Axionvera.Vault.Storage Axionvera.Vault.Contract Axionvera.Vault.Chain
open Axionvera.Vault.Accounts Axionvera.Vault.Effects Axionvera.Vault.Refinement
open Axionvera.Vault.Principal

/-! ## What is stored for a user -/

/-- The entries of a user in one asset pool. -/
structure AssetSlot where
  balance : Option Int
  index : Option Int
  accrued : Option Int
  since : Option Nat

/-- All entries of a user. -/
structure Slot where
  liquid : Option Int
  locks : Option (List Lock)
  index : Option Int
  accrued : Option Int
  since : Option Nat
  assets : Address → AssetSlot

def slot (s : Storage) (u : Address) : Slot where
  liquid := s.userLiquidBalance.get u
  locks := s.userLocks.get u
  index := s.userRewardIndex.get u
  accrued := s.userAccruedRewards.get u
  since := s.userLastRewardTimestamp.get u
  assets a := {
    balance := s.userAssetBalance.get (u, a)
    index := s.userAssetRewardIndex.get (u, a)
    accrued := s.userAssetAccruedRewards.get (u, a)
    since := s.userAssetLastRewardTimestamp.get (u, a) }

/-- The storage without the users' entries and without the totals. -/
def common (s : Storage) : Storage :=
  { s with
    totalDeposits := none
    assetTotalDeposits := .empty
    userLiquidBalance := .empty
    userLocks := .empty
    userRewardIndex := .empty
    userAccruedRewards := .empty
    userLastRewardTimestamp := .empty
    userAssetBalance := .empty
    userAssetRewardIndex := .empty
    userAssetAccruedRewards := .empty
    userAssetLastRewardTimestamp := .empty }

abbrev Totals : Type := Option Int × FinMap Address Int

def totals (s : Storage) : Totals := (s.totalDeposits, s.assetTotalDeposits)

theorem storage_ext (s t : Storage) (hslot : ∀ u, slot s u = slot t u)
    (hcommon : common s = common t) (htotal : totals s = totals t) : s = t := by
  have hassets : ∀ k : Address × Address, (slot s k.1).assets k.2 = (slot t k.1).assets k.2 :=
    fun k => congrFun (congrArg Slot.assets (hslot k.1)) k.2
  have h1 : s.userLiquidBalance = t.userLiquidBalance :=
    FinMap.ext fun u => congrArg Slot.liquid (hslot u)
  have h2 : s.userLocks = t.userLocks := FinMap.ext fun u => congrArg Slot.locks (hslot u)
  have h3 : s.userRewardIndex = t.userRewardIndex := FinMap.ext fun u => congrArg Slot.index (hslot u)
  have h4 : s.userAccruedRewards = t.userAccruedRewards :=
    FinMap.ext fun u => congrArg Slot.accrued (hslot u)
  have h5 : s.userLastRewardTimestamp = t.userLastRewardTimestamp :=
    FinMap.ext fun u => congrArg Slot.since (hslot u)
  have h6 : s.userAssetBalance = t.userAssetBalance :=
    FinMap.ext fun k => congrArg AssetSlot.balance (hassets k)
  have h7 : s.userAssetRewardIndex = t.userAssetRewardIndex :=
    FinMap.ext fun k => congrArg AssetSlot.index (hassets k)
  have h8 : s.userAssetAccruedRewards = t.userAssetAccruedRewards :=
    FinMap.ext fun k => congrArg AssetSlot.accrued (hassets k)
  have h9 : s.userAssetLastRewardTimestamp = t.userAssetLastRewardTimestamp :=
    FinMap.ext fun k => congrArg AssetSlot.since (hassets k)
  obtain ⟨h10, h11⟩ := Prod.mk.inj htotal
  cases s
  cases t
  simp only [common, Storage.mk.injEq, true_and, and_true] at hcommon
  simp only [Storage.mk.injEq]
  simp_all

/-- How the storage is made up. -/
def parts : Parts Storage Address Slot Storage Totals where
  slot := slot
  common := common
  total := totals
  ext := storage_ext

/-! ## What a user's call depends on -/

section Reading
variable {s t : Storage} {u : Address} {now limit : Nat}
variable (hs : slot s u = slot t u) (hc : common s = common t)

include hs in
theorem liquid_congr : liquid s u = liquid t u := congrArg (fun x => x.liquid.getD 0) hs

include hs in
theorem locks_congr : locks s u = locks t u := congrArg (fun x => x.locks.getD []) hs

include hs in
theorem withdrawable_congr : withdrawable now s u = withdrawable now t u := by
  simp only [withdrawable, liquid_congr hs, locks_congr hs]

include hs in
theorem position_congr (p : PoolId) : position s p u = position t p u := by
  cases p with
  | legacy =>
    have hi := congrArg (fun x => x.index.getD 0) hs
    have ha := congrArg (fun x => x.accrued.getD 0) hs
    have ht := congrArg (fun x => x.since.getD 0) hs
    simp only [position, locked, liquid_congr hs, locks_congr hs, UserPosition.mk.injEq, true_and]
    exact ⟨hi, ha, ht⟩
  | asset a =>
    have hx := congrFun (congrArg Slot.assets hs) a
    simp only [position, UserPosition.mk.injEq]
    exact ⟨congrArg (fun x => x.balance.getD 0) hx, congrArg (fun x => x.index.getD 0) hx,
      congrArg (fun x => x.accrued.getD 0) hx, congrArg (fun x => x.since.getD 0) hx⟩

include hc in
theorem poolIndex_congr (p : PoolId) : poolIndex s p = poolIndex t p := by
  cases p with
  | legacy => exact congrArg (fun x => x.rewardIndex.getD 0) hc
  | asset a => exact congrArg (fun x => x.assetRewardIndex.getD a 0) hc

include hs hc

theorem settled_congr (p : PoolId) : settled now s p u = settled now t p u := by
  simp only [settled, position_congr hs, poolIndex_congr hc]

theorem claimable_congr (p : PoolId) : claimable now s p u = claimable now t p u := by
  have hperiod : vestingPeriod s = vestingPeriod t := congrArg (fun x => x.vestingPeriod.getD 0) hc
  simp only [claimable, settled_congr hs hc, hperiod]

theorem claimed_congr (p : PoolId) (paid : Int) : claimed now s p u paid = claimed now t p u paid := by
  have hpending : pending s p u = pending t p u :=
    congrArg UserPosition.accruedRewards (@settled_congr s t u 0 hs hc p)
  simp only [claimed, settled_congr hs hc, hpending]

end Reading

/-! ## What a user's call writes -/

/-- The reward entries of a slot, replaced. -/
def Slot.withRewards (x : Slot) (q : UserPosition) : Slot :=
  { x with
    index := FinMap.entry q.rewardIndex
    accrued := FinMap.entry q.accruedRewards
    since := some q.lastRewardTimestamp }

def AssetSlot.ofPosition (q : UserPosition) : AssetSlot where
  balance := FinMap.entry q.balance
  index := FinMap.entry q.rewardIndex
  accrued := FinMap.entry q.accruedRewards
  since := some q.lastRewardTimestamp

/-- The locks left by a pass over them, which writes nothing if none is set
free. -/
def locksAfter (now limit : Nat) (x : Slot) (ls : List Lock) : Option (List Lock) :=
  if released now limit ls = [] then x.locks else some (kept now limit ls)

/-! ## The calls of a user -/

/-- Whose call it is, for the calls that users make. -/
def caller : Call → Option Address
  | .deposit u _ => some u
  | .withdraw u _ => some u
  | .lock u _ _ => some u
  | .unlockExpired u _ => some u
  | .claimRewards u => some u
  | .depositAsset u _ _ => some u
  | .withdrawAsset u _ _ => some u
  | .claimRewardsForAsset u _ => some u
  | _ => none

/-- What a successful call of a user writes. -/
def userWrite (now : Nat) : Call → Storage → Storage
  | .deposit u amount, s => afterDeposit now u amount.val s
  | .withdraw u amount, s => afterWithdraw now u amount.val s
  | .lock u amount duration, s => afterLock now u amount.val duration.toNat s
  | .unlockExpired u limit, s => afterUnlock now limit.toNat u s
  | .claimRewards u, s => afterClaim now u (claimable now s .legacy u) s
  | .depositAsset u a amount, s => afterAssetMove now u a amount.val s
  | .withdrawAsset u a amount, s => afterAssetMove now u a (-amount.val) s
  | .claimRewardsForAsset u a, s => afterAssetClaim now u a (claimable now s (.asset a) u) s
  | _, s => s

/-- What it returns. -/
def userValue (now : Nat) : Call → Storage → Value
  | .unlockExpired u limit, s => .int (lockSum (released now limit.toNat (locks s u)))
  | .claimRewards u, s => .int (claimable now s .legacy u)
  | .claimRewardsForAsset u a, s => .int (claimable now s (.asset a) u)
  | _, _ => .unit

/-- What it adds to the totals. -/
def addTotals : Call → Totals → Totals
  | .deposit _ amount, m => (some (m.1.getD 0 + amount.val), m.2)
  | .withdraw _ amount, m => (some (m.1.getD 0 + -amount.val), m.2)
  | .depositAsset _ a amount, m => (m.1, m.2.increase a amount.val)
  | .withdrawAsset _ a amount, m => (m.1, m.2.increase a (-amount.val))
  | _, m => m

variable {τ : Type} {D : Deployment τ} {env : Env} {w w' : World τ} {call call' : Call} {value : Value}
variable {u v : Address}

theorem storage_of_effect (h : Effect D env w call value w') (hu : caller call = some u) :
    w'.storage = userWrite w.timestamp call w.storage ∧
      value = userValue w.timestamp call w.storage ∧ w'.timestamp = w.timestamp := by
  cases h with
  | claimRewards _ _ _ _ hpaid | claimRewardsForAsset _ _ _ _ _ hpaid =>
    subst hpaid
    exact ⟨rfl, rfl, rfl⟩
  | unlockExpired _ _ _ hx =>
    subst hx
    exact ⟨rfl, rfl, rfl⟩
  | deposit | withdraw | lock | depositAsset | withdrawAsset => exact ⟨rfl, rfl, rfl⟩
  | _ => cases hu

theorem addTotals_comm (c c' : Call) (m : Totals) :
    addTotals c (addTotals c' m) = addTotals c' (addTotals c m) := by
  have hlegacy : ∀ (x y : Int) (t : Option Int),
      some ((some (t.getD 0 + x)).getD 0 + y) = some ((some (t.getD 0 + y)).getD 0 + x) :=
    fun x y t => congrArg some (add_right_comm _ _ _)
  cases c with
  | deposit u x | withdraw u x =>
    cases c' with
    | deposit v y | withdraw v y => exact Prod.ext (hlegacy _ _ _) rfl
    | _ => rfl
  | depositAsset u a x | withdrawAsset u a x =>
    cases c' with
    | depositAsset v b y | withdrawAsset v b y => exact Prod.ext rfl (FinMap.increase_comm _ _ _ _ _)
    | _ => rfl
  | _ => rfl

/-- A write that replaces one slot, by what is in it and in the common part, is
a step of its owner. -/
theorem owned_of_slot {f : Storage → Storage} {add : Totals → Totals} (F : Storage → Slot)
    (hslot : ∀ s v, slot (f s) v = if v = u then F s else slot s v)
    (hF : ∀ s t, slot s u = slot t u → common s = common t → F s = F t)
    (hcommon : ∀ s, common (f s) = common s) (htotal : ∀ s, totals (f s) = add (totals s)) :
    Owned parts u f add where
  other s v hv := (hslot s v).trans (if_neg hv)
  common := hcommon
  own s t hs hc := by
    change slot (f s) u = slot (f t) u
    rw [hslot, hslot, if_pos rfl, if_pos rfl]
    exact hF s t hs hc
  total := htotal

section Owners
variable (now limit duration : Nat) (u a : Address) (amount : Int)

theorem owned_afterDeposit : Owned parts u (afterDeposit now u amount)
    fun m => (some (m.1.getD 0 + amount), m.2) := by
  refine owned_of_slot (fun s => ({ slot s u with
    liquid := FinMap.entry (liquid s u + amount) } : Slot).withRewards (settled now s .legacy u))
    (fun s v => ?_) (fun s t hs hc => ?_) (fun _ => rfl) fun _ => rfl
  · by_cases hv : v = u
    · subst hv
      simp only [slot, afterDeposit, putPosition, FinMap.get_put_self, FinMap.get_set_self,
        if_true, Slot.withRewards]
    · simp only [slot, afterDeposit, putPosition, FinMap.get_put_ne _ _ hv,
        FinMap.get_set_ne _ _ hv, if_neg hv]
  · simp only [hs, liquid_congr hs, settled_congr hs hc]

theorem owned_afterLock : Owned parts u (afterLock now u amount duration) id := by
  refine owned_of_slot (fun s => ({ slot s u with
    liquid := FinMap.entry (liquid s u - amount)
    locks := some (locks s u ++ [newLock now amount duration]) } : Slot).withRewards
      (settled now s .legacy u))
    (fun s v => ?_) (fun s t hs hc => ?_) (fun _ => rfl) fun _ => rfl
  · by_cases hv : v = u
    · subst hv
      simp only [slot, afterLock, putPosition, FinMap.get_put_self, FinMap.get_set_self, if_true,
        Slot.withRewards]
    · simp only [slot, afterLock, putPosition, FinMap.get_put_ne _ _ hv, FinMap.get_set_ne _ _ hv,
        if_neg hv]
  · simp only [hs, liquid_congr hs, locks_congr hs, settled_congr hs hc]

theorem owned_afterUnlock : Owned parts u (afterUnlock now limit u) id := by
  refine owned_of_slot (fun s => { slot s u with
    liquid := if released now limit (locks s u) = [] then (slot s u).liquid
      else FinMap.entry (liquid s u + lockSum (released now limit (locks s u)))
    locks := locksAfter now limit (slot s u) (locks s u) })
    (fun s v => ?_) (fun s t hs hc => ?_) (fun _ => rfl) fun _ => rfl
  · by_cases hr : released now limit (locks s u) = []
    · rw [afterUnlock_of_nil hr]
      by_cases hv : v = u
      · subst hv
        simp only [locksAfter, hr, if_true]
      · rw [if_neg hv]
    · rw [afterUnlock_of_ne_nil hr]
      by_cases hv : v = u
      · subst hv
        simp only [slot, locksAfter, FinMap.get_put_self, FinMap.get_set_self, if_true, if_neg hr]
      · simp only [slot, FinMap.get_put_ne _ _ hv, FinMap.get_set_ne _ _ hv, if_neg hv]
  · simp only [hs, liquid_congr hs, locks_congr hs]

theorem owned_afterWithdraw : Owned parts u (afterWithdraw now u amount)
    fun m => (some (m.1.getD 0 + -amount), m.2) := by
  refine owned_of_slot (fun s => ({ slot s u with
    liquid := FinMap.entry (withdrawable now s u - amount)
    locks := locksAfter now WITHDRAW_UNLOCK_LIMIT (slot s u) (locks s u) } : Slot).withRewards
      (settled now s .legacy u))
    (fun s v => ?_) (fun s t hs hc => ?_) (fun _ => rfl) fun _ => rfl
  · by_cases hv : v = u
    · subst hv
      simp only [slot, afterWithdraw, afterUnlock, putPosition, FinMap.get_put_self,
        FinMap.get_set_self, if_true, Slot.withRewards, locksAfter, apply_ite FinMap.get, ite_apply]
    · simp only [slot, afterWithdraw, afterUnlock, putPosition, FinMap.get_put_ne _ _ hv,
        FinMap.get_set_ne _ _ hv, if_neg hv, apply_ite FinMap.get, ite_apply, ite_self]
  · simp only [hs, withdrawable_congr hs, locks_congr hs, settled_congr hs hc]

theorem owned_afterClaim : Owned parts u
    (fun s => afterClaim now u (claimable now s .legacy u) s) id := by
  refine owned_of_slot
    (fun s => (slot s u).withRewards (claimed now s .legacy u (claimable now s .legacy u)))
    (fun s v => ?_) (fun s t hs hc => ?_) (fun _ => rfl) fun _ => rfl
  · by_cases hv : v = u
    · subst hv
      simp only [slot, afterClaim, putPosition, FinMap.get_put_self, FinMap.get_set_self, if_true,
        Slot.withRewards]
    · simp only [slot, afterClaim, putPosition, FinMap.get_put_ne _ _ hv, FinMap.get_set_ne _ _ hv,
        if_neg hv]
  · simp only [hs, claimable_congr hs hc, claimed_congr hs hc]

/-- A write of one asset position, computed from the slot and the common part. -/
theorem owned_putAssetPosition {add : Totals → Totals} (q : Storage → UserPosition)
    (g : Storage → FinMap Address Int)
    (hq : ∀ s t, slot s u = slot t u → common s = common t → q s = q t)
    (hg : ∀ s, (s.totalDeposits, g s) = add (totals s)) :
    Owned parts u (fun s => putAssetPosition u a (q s) { s with assetTotalDeposits := g s }) add := by
  refine owned_of_slot (fun s => { slot s u with
    assets := Function.update (slot s u).assets a (.ofPosition (q s)) })
    (fun s v => ?_) (fun s t hs hc => ?_) (fun _ => rfl) hg
  · by_cases hv : v = u
    · subst hv
      simp only [slot, putAssetPosition, if_true, Slot.mk.injEq, true_and]
      funext b
      by_cases hb : b = a
      · subst hb
        simp only [FinMap.get_put_self, FinMap.get_set_self, Function.update_self,
          AssetSlot.ofPosition]
      · have hk : ((v, b) : Address × Address) ≠ (v, a) := fun h => hb (Prod.mk.inj h).2
        simp only [FinMap.get_put_ne _ _ hk, FinMap.get_set_ne _ _ hk, Function.update_of_ne hb]
    · have hk : ∀ b, ((v, b) : Address × Address) ≠ (u, a) := fun b h => hv (Prod.mk.inj h).1
      simp only [slot, putAssetPosition, FinMap.get_put_ne _ _ (hk _), FinMap.get_set_ne _ _ (hk _),
        if_neg hv]
  · simp only [hs, hq s t hs hc]

theorem owned_afterAssetMove : Owned parts u (afterAssetMove now u a amount)
    fun m => (m.1, m.2.increase a amount) := by
  refine owned_putAssetPosition u a _ _ (fun s t hs hc => ?_) fun _ => rfl
  simp only [settled_congr hs hc, position_congr hs]

theorem owned_afterAssetClaim : Owned parts u
    (fun s => afterAssetClaim now u a (claimable now s (.asset a) u) s) id := by
  refine owned_putAssetPosition u a (fun s => claimed now s (.asset a) u (claimable now s (.asset a) u))
    Storage.assetTotalDeposits (fun s t hs hc => ?_) fun _ => rfl
  simp only [claimable_congr hs hc, claimed_congr hs hc]

end Owners

theorem owned_userWrite (now : Nat) (hu : caller call = some u) :
    Owned parts u (userWrite now call) (addTotals call) := by
  cases call with
  | deposit x amount =>
    obtain rfl := Option.some.inj hu
    exact owned_afterDeposit now x amount.val
  | withdraw x amount =>
    obtain rfl := Option.some.inj hu
    exact owned_afterWithdraw now x amount.val
  | lock x amount duration =>
    obtain rfl := Option.some.inj hu
    exact owned_afterLock now duration.toNat x amount.val
  | unlockExpired x limit =>
    obtain rfl := Option.some.inj hu
    exact owned_afterUnlock now limit.toNat x
  | claimRewards x =>
    obtain rfl := Option.some.inj hu
    exact owned_afterClaim now x
  | depositAsset x a amount =>
    obtain rfl := Option.some.inj hu
    exact owned_afterAssetMove now x a amount.val
  | withdrawAsset x a amount =>
    obtain rfl := Option.some.inj hu
    exact owned_afterAssetMove now x a (-amount.val)
  | claimRewardsForAsset x a =>
    obtain rfl := Option.some.inj hu
    exact owned_afterAssetClaim now x a
  | _ => cases hu

theorem userValue_congr (now : Nat) (hu : caller call = some u) (s t : Storage)
    (hs : slot s u = slot t u) (hc : common s = common t) :
    userValue now call s = userValue now call t := by
  cases call with
  | unlockExpired x limit =>
    obtain rfl := Option.some.inj hu
    simp only [userValue, locks_congr hs]
  | claimRewards x =>
    obtain rfl := Option.some.inj hu
    simp only [userValue, claimable_congr hs hc]
  | claimRewardsForAsset x a =>
    obtain rfl := Option.some.inj hu
    simp only [userValue, claimable_congr hs hc]
  | _ => rfl

/-! ## What a user's call does to the tokens -/

/-- What a transfer adds to a balance. -/
def shift (token : Option Address) (src dst : Address) (amount : Int) (k a : Address) : Int :=
  (if some k = token ∧ a = dst then amount else 0) - (if some k = token ∧ a = src then amount else 0)

/-- What a user's call adds to the token balances. -/
def flow (config : Config) (contract : Address) : Call → Value → Address → Address → Int
  | .deposit u amount, _ => shift config.depositToken u contract amount.val
  | .withdraw u amount, _ => shift config.depositToken contract u amount.val
  | .claimRewards u, value => shift config.rewardToken contract u (amountOf value)
  | .depositAsset u a amount, _ => shift (some a) u contract amount.val
  | .withdrawAsset u a amount, _ => shift (some a) contract u amount.val
  | .claimRewardsForAsset u _, value => shift config.rewardToken contract u (amountOf value)
  | _, _ => fun _ _ => 0

theorem balance_of_transfer (hD : D.Lawful) {t t' : τ} {token src dst : Address} {amount : Int}
    {o : Option Address} (ho : o = some token)
    (h : D.transfer t token src dst amount = some t') (k a : Address) :
    D.balance t' k a = D.balance t k a + shift o src dst amount k a := by
  rw [hD.transfer_exact _ _ _ _ _ _ h k a, shift, ho]
  simp only [Option.some.injEq]
  omega

theorem balance_of_pays (hD : D.Lawful) {paid : Int} {tokens : τ}
    (h : Pays D env w u paid tokens) (k a : Address) :
    D.balance tokens k a = D.balance w.tokens k a +
      shift w.storage.rewardToken env.currentContract u paid k a := by
  cases h with
  | nothing => simp [shift]
  | payout _ htok _ htr => exact balance_of_transfer hD htok htr k a

theorem balance_of_effect (hD : D.Lawful) (h : Effect D env w call value w')
    (hu : caller call = some u) (k a : Address) :
    D.balance w'.tokens k a = D.balance w.tokens k a +
      flow (configOf w.storage) env.currentContract call value k a := by
  cases h with
  | deposit _ _ _ htok htr => exact balance_of_transfer hD htok htr k a
  | withdraw _ _ _ htok _ _ htr => exact balance_of_transfer hD htok htr k a
  | lock | unlockExpired => exact (add_zero _).symm
  | claimRewards _ _ _ _ _ hpay => exact balance_of_pays hD hpay k a
  | depositAsset _ _ _ _ htr => exact balance_of_transfer hD rfl htr k a
  | withdrawAsset _ _ _ _ _ _ htr => exact balance_of_transfer hD rfl htr k a
  | claimRewardsForAsset _ _ _ _ _ _ hpay => exact balance_of_pays hD hpay k a
  | _ => cases hu

/-! ## Order -/

/-- The calls of two users at one ledger time can be made in either order: the
storage, every token balance and both answers are the same. -/
theorem order_irrelevant (hD : D.Lawful) (hr : Reachable D w) (huv : u ≠ v)
    (hu : caller call = some u) (hv : caller call' = some v) {env' : Env}
    (hc : env.currentContract = D.contract) (hc' : env'.currentContract = D.contract)
    {w₁ w₂ w₁' w₂' : World τ} {x x' y y' : Value}
    (h₁ : Returns (exec D.client call) env w x w₁) (h₂ : Returns (exec D.client call') env' w₁ y w₂)
    (h₁' : Returns (exec D.client call') env' w y' w₁')
    (h₂' : Returns (exec D.client call) env w₁' x' w₂') :
    w₂.storage = w₂'.storage ∧ (∀ k a, D.balance w₂.tokens k a = D.balance w₂'.tokens k a) ∧
      x = x' ∧ y = y' := by
  have hready := ready_of_reachable hr
  have e₁ := effect_of_returns hready h₁
  have e₁' := effect_of_returns hready h₁'
  have e₂ := effect_of_returns (ready_of_effect hready e₁) h₂
  have e₂' := effect_of_returns (ready_of_effect hready e₁') h₂'
  obtain ⟨hs₁, hx, ht₁⟩ := storage_of_effect e₁ hu
  obtain ⟨hs₁', hy', ht₁'⟩ := storage_of_effect e₁' hv
  obtain ⟨hs₂, hy, _⟩ := storage_of_effect e₂ hv
  obtain ⟨hs₂', hx', _⟩ := storage_of_effect e₂' hu
  rw [ht₁, hs₁] at hs₂ hy
  rw [ht₁', hs₁'] at hs₂' hx'
  have hf := owned_userWrite w.timestamp hu
  have hg := owned_userWrite w.timestamp hv
  have hxx : x = x' := by
    rw [hx, hx']
    exact (hg.unseen huv (userValue_congr w.timestamp hu) w.storage).symm
  have hyy : y = y' := by
    rw [hy, hy']
    exact hf.unseen huv.symm (userValue_congr w.timestamp hv) w.storage
  refine ⟨?_, fun k a => ?_, hxx, hyy⟩
  · rw [hs₂, hs₂']
    exact (hf.comm hg huv (addTotals_comm call call') w.storage).symm
  · rw [balance_of_effect hD e₂ hv, balance_of_effect hD e₁ hu, balance_of_effect hD e₂' hu,
      balance_of_effect hD e₁' hv, configOf_of_effect e₁, configOf_of_effect e₁', hc, hc', hxx, hyy]
    exact add_right_comm _ _ _

/-- Alice and bob have staked, and rewards are due. -/
def sharedVault : World Bank :=
  (session 1000000 plainOpening [(10, .deposit alice 100), (20, .deposit bob 50),
    (30, .distributeRewards 150000)]).2

theorem order_irrelevant_claim_withdraw :
    (exec bank.client (.claimRewards alice) openEnv sharedVault).value = some (.int 100000) ∧
    (invoke (exec bank.client (.withdraw bob 20)) openEnv
      (invoke (exec bank.client (.claimRewards alice)) openEnv sharedVault)).storage =
    (invoke (exec bank.client (.claimRewards alice)) openEnv
      (invoke (exec bank.client (.withdraw bob 20)) openEnv sharedVault)).storage := by
  have hr : Reachable bank sharedVault := session_reachable 1000000 plainOpening (rfl) _
  obtain ⟨_, h₁⟩ := returns_of_isOk (m := exec bank.client (.claimRewards alice)) (r := openEnv)
    (s := sharedVault) (rfl)
  obtain ⟨_, h₂⟩ := returns_of_isOk (m := exec bank.client (.withdraw bob 20)) (r := openEnv)
    (s := invoke (exec bank.client (.claimRewards alice)) openEnv sharedVault) (rfl)
  obtain ⟨_, h₁'⟩ := returns_of_isOk (m := exec bank.client (.withdraw bob 20)) (r := openEnv)
    (s := sharedVault) (rfl)
  obtain ⟨_, h₂'⟩ := returns_of_isOk (m := exec bank.client (.claimRewards alice)) (r := openEnv)
    (s := invoke (exec bank.client (.withdraw bob 20)) openEnv sharedVault) (rfl)
  refine ⟨rfl, ?_⟩
  exact (order_irrelevant (bankDeployment_lawful vaultAddress) hr (show alice ≠ bob by decide)
    rfl rfl rfl rfl h₁ h₂ h₁' h₂').1

end Axionvera.Vault.Ordering

import Mathlib.Algebra.Order.Field.Rat
import Mathlib.Data.Rat.Cast.Order
import Mathlib.Tactic.FieldSimp
import Mathlib.Tactic.Linarith
import Mathlib.Tactic.Positivity
import Mathlib.Tactic.Ring
import Axionvera.Lib.KeyValue
import Axionvera.Lib.Transition

/-! # Pools that pay rewards through an index

A pool keeps one cumulative index, in rewards per unit of stake times `scale`.
An account remembers the index it was last settled at and earns
`balance * (index - its index) / scale`, rounded down, at its next settlement.
A distribution only raises the index.

The reference is the eager ledger: each distribution hands every account its
exact rational share at once. Settling late and rounding twice (once in the
index, once per settlement) stays within the bounds of `Ledger.lower` and
`Ledger.upper`, and never pays out more than was distributed. -/
namespace Axionvera.Lib.RewardPool
open Axionvera.Lib.KeyValue Axionvera.Lib.Transition

structure Account where
  balance : ℤ
  index : ℤ
  accrued : ℤ
  since : ℕ

structure Pool (U : Type) where
  index : ℤ
  total : ℤ
  account : U → Account

/-- One distribution, with the stakes it was shared over. -/
structure Distribution (U : Type) where
  amount : ℤ
  total : ℤ
  balance : U → ℤ

/-- What a step does to a pool. A `touch` settles one account, moves its
balance by `delta` and pays it `paid` out of its accrued rewards. -/
inductive Move (U : Type) where
  | idle
  | touch (u : U) (delta paid : ℤ) (now : ℕ)
  | distribute (d : Distribution U)

section Defs
variable {U : Type} (scale : ℤ)

def Account.gain (a : Account) (index : ℤ) : ℤ := a.balance * (index - a.index) / scale

def Account.settle (a : Account) (index : ℤ) (now : ℕ) : Account where
  balance := a.balance
  index := index
  accrued := a.accrued + a.gain scale index
  since := if 0 < a.gain scale index then now else a.since

def Pool.pending (P : Pool U) (u : U) : ℤ :=
  (P.account u).accrued + (P.account u).gain scale P.index

def Pool.distribute (P : Pool U) (amount : ℤ) : Pool U :=
  { P with index := P.index + amount * scale / P.total }

def Pool.touch [DecidableEq U] (P : Pool U) (u : U) (delta paid : ℤ) (now : ℕ) : Pool U where
  index := P.index
  total := P.total + delta
  account := Function.update P.account u
    { (P.account u).settle scale P.index now with
      balance := (P.account u).balance + delta
      accrued := P.pending scale u - paid }

inductive Step [DecidableEq U] : Pool U → Move U → Pool U → Prop
  | idle {P : Pool U} : Step P .idle P
  | touch {P : Pool U} {u : U} {delta paid : ℤ} {now : ℕ} :
      0 ≤ (P.account u).balance + delta → 0 ≤ paid → paid ≤ P.pending scale u →
      Step P (.touch u delta paid now) (P.touch scale u delta paid now)
  | distribute {P : Pool U} {d : Distribution U} : 0 < P.total → 0 ≤ d.amount →
      d.total = P.total → d.balance = (fun u => (P.account u).balance) →
      Step P (.distribute d) (P.distribute scale d.amount)

end Defs

variable {U : Type} {scale : ℤ} {P P' : Pool U}

/-! ## Well-formed pools -/

structure Pool.Good (P : Pool U) : Prop where
  finite : {u | (P.account u).balance ≠ 0 ∨ (P.account u).accrued ≠ 0}.Finite
  total_eq : P.total = ∑ᶠ u, (P.account u).balance
  balance_nonneg : ∀ u, 0 ≤ (P.account u).balance
  accrued_nonneg : ∀ u, 0 ≤ (P.account u).accrued
  index_nonneg : ∀ u, 0 ≤ (P.account u).index
  index_le : ∀ u, (P.account u).index ≤ P.index

theorem Pool.Good.finite_balance (h : P.Good) : {u | (P.account u).balance ≠ 0}.Finite :=
  h.finite.subset fun _ hu => Or.inl hu

theorem Pool.Good.balance_le_total (h : P.Good) (u : U) : (P.account u).balance ≤ P.total := by
  rw [h.total_eq]
  exact le_finsum h.finite_balance h.balance_nonneg u

theorem Pool.Good.sum_le_total (h : P.Good) (S : Finset U) :
    ∑ u ∈ S, (P.account u).balance ≤ P.total := by
  rw [h.total_eq]
  exact sum_le_finsum h.finite_balance h.balance_nonneg S

theorem Pool.Good.total_nonneg (h : P.Good) : 0 ≤ P.total := by
  simpa using h.sum_le_total ∅

theorem Pool.Good.delta_nonneg (h : P.Good) (u : U) :
    0 ≤ (P.account u).balance * (P.index - (P.account u).index) :=
  mul_nonneg (h.balance_nonneg u) (sub_nonneg.mpr (h.index_le u))

theorem Pool.Good.gain_nonneg (hs : 0 < scale) (h : P.Good) (u : U) :
    0 ≤ (P.account u).gain scale P.index :=
  Int.ediv_nonneg (h.delta_nonneg u) hs.le

theorem Pool.Good.pending_nonneg (hs : 0 < scale) (h : P.Good) (u : U) :
    0 ≤ P.pending scale u :=
  add_nonneg (h.accrued_nonneg u) (h.gain_nonneg hs u)

theorem Pool.Good.index_pool_nonneg (h : P.Good) (u : U) : 0 ≤ P.index :=
  (h.index_nonneg u).trans (h.index_le u)

theorem Pool.Good.increment_nonneg (hs : 0 < scale) {amount : ℤ} (ht : 0 < P.total)
    (ha : 0 ≤ amount) : 0 ≤ amount * scale / P.total :=
  Int.ediv_nonneg (mul_nonneg ha hs.le) ht.le

theorem Pool.Good.distribute (hs : 0 < scale) (h : P.Good) {amount : ℤ} (ht : 0 < P.total)
    (ha : 0 ≤ amount) : (P.distribute scale amount).Good where
  finite := h.finite
  total_eq := h.total_eq
  balance_nonneg := h.balance_nonneg
  accrued_nonneg := h.accrued_nonneg
  index_nonneg := h.index_nonneg
  index_le u := by
    have := Pool.Good.increment_nonneg hs ht ha
    have := h.index_le u
    simp only [Pool.distribute]
    omega

variable [DecidableEq U]

theorem touch_account_self (u : U) (delta paid : ℤ) (now : ℕ) :
    (P.touch scale u delta paid now).account u =
      { (P.account u).settle scale P.index now with
        balance := (P.account u).balance + delta
        accrued := P.pending scale u - paid } := by
  simp [Pool.touch]

theorem touch_account_other {u v : U} (h : v ≠ u) (delta paid : ℤ) (now : ℕ) :
    (P.touch scale u delta paid now).account v = P.account v := by
  simp [Pool.touch, h]

theorem Pool.Good.touch (h : P.Good) {u : U} {delta paid : ℤ} {now : ℕ}
    (hb : 0 ≤ (P.account u).balance + delta) (hp : paid ≤ P.pending scale u) :
    (P.touch scale u delta paid now).Good where
  finite := by
    refine (h.finite.insert u).subset ?_
    intro v hv
    by_cases hvu : v = u
    · exact Or.inl hvu
    · rw [Set.mem_ofPred_eq, touch_account_other hvu] at hv
      exact Or.inr hv
  total_eq := by
    have hsum := finsum_update h.finite_balance u ((P.account u).balance + delta)
    have hupd : ∀ v, ((P.touch scale u delta paid now).account v).balance =
        Function.update (fun v => (P.account v).balance) u ((P.account u).balance + delta) v := by
      intro v
      by_cases hvu : v = u
      · subst hvu; simp [touch_account_self]
      · simp [touch_account_other hvu, hvu]
    rw [finsum_congr hupd, hsum, ← h.total_eq]
    simp [Pool.touch]
  balance_nonneg v := by
    by_cases hvu : v = u
    · subst hvu; simpa [touch_account_self] using hb
    · rw [touch_account_other hvu]; exact h.balance_nonneg v
  accrued_nonneg v := by
    by_cases hvu : v = u
    · subst hvu; simpa [touch_account_self] using hp
    · rw [touch_account_other hvu]; exact h.accrued_nonneg v
  index_nonneg v := by
    by_cases hvu : v = u
    · subst hvu
      rw [touch_account_self]
      exact h.index_pool_nonneg v
    · rw [touch_account_other hvu]; exact h.index_nonneg v
  index_le v := by
    by_cases hvu : v = u
    · subst hvu; rw [touch_account_self]; exact le_rfl
    · rw [touch_account_other hvu]; exact h.index_le v

/-- Every step keeps a pool well formed. -/
theorem Step.good (hs : 0 < scale) {e : Move U} (h : Step scale P e P') (hg : P.Good) :
    P'.Good := by
  cases h with
  | idle => exact hg
  | touch hb _ hp => exact hg.touch hb hp
  | distribute ht ha _ _ => exact hg.distribute hs ht ha

/-! ## Pending rewards -/

theorem pending_touch_self (u : U) (delta paid : ℤ) (now : ℕ) :
    (P.touch scale u delta paid now).pending scale u = P.pending scale u - paid := by
  simp only [Pool.pending, touch_account_self, Account.settle, Account.gain]
  simp [Pool.touch]

theorem pending_touch_other {u v : U} (h : v ≠ u) (delta paid : ℤ) (now : ℕ) :
    (P.touch scale u delta paid now).pending scale v = P.pending scale v := by
  simp only [Pool.pending, touch_account_other h]
  rfl

omit [DecidableEq U] in
theorem pending_distribute_le (hs : 0 < scale) (hg : P.Good) {amount : ℤ} (ht : 0 < P.total)
    (ha : 0 ≤ amount) (u : U) :
    P.pending scale u ≤ (P.distribute scale amount).pending scale u := by
  have hinc := Pool.Good.increment_nonneg hs ht ha
  have hmul : (P.account u).balance * (P.index - (P.account u).index) ≤
      (P.account u).balance * (P.index + amount * scale / P.total - (P.account u).index) :=
    mul_le_mul_of_nonneg_left (by omega) (hg.balance_nonneg u)
  have hdiv := Int.ediv_le_ediv hs hmul
  simp only [Pool.pending, Account.gain, Pool.distribute]
  omega

/-- What an event pays to `u`. -/
def Move.paidTo (u : U) : Move U → ℤ
  | .touch v _ paid _ => if v = u then paid else 0
  | _ => 0

/-- Apart from distributions, a step lowers pending rewards by what it pays. -/
theorem Step.pending_eq {e : Move U} (h : Step scale P e P') (hd : ∀ d, e ≠ .distribute d) (u : U) :
    P'.pending scale u = P.pending scale u - e.paidTo u := by
  cases h with
  | idle => exact (sub_zero _).symm
  | @touch v delta paid now =>
    by_cases hv : v = u
    · subst hv
      rw [pending_touch_self, Move.paidTo, if_pos rfl]
    · rw [pending_touch_other (Ne.symm hv), Move.paidTo, if_neg hv, sub_zero]
  | @distribute d => exact absurd rfl (hd d)

/-- A distribution never lowers them. -/
theorem Step.pending_le (hs : 0 < scale) (hg : P.Good) {d : Distribution U}
    (h : Step scale P (.distribute d) P') (u : U) : P.pending scale u ≤ P'.pending scale u := by
  cases h with
  | distribute ht ha _ _ => exact pending_distribute_le hs hg ht ha u

/-! ## Stakes -/

/-- What an event adds to the stakes. -/
def Move.delta : Move U → ℤ
  | .touch _ delta _ _ => delta
  | _ => 0

omit [DecidableEq U] in
@[simp] theorem Move.delta_idle : (.idle : Move U).delta = 0 := rfl

omit [DecidableEq U] in
@[simp] theorem Move.delta_touch (u : U) (delta paid : ℤ) (now : ℕ) :
    (Move.touch u delta paid now).delta = delta := rfl

omit [DecidableEq U] in
@[simp] theorem Move.delta_distribute (d : Distribution U) : (Move.distribute d).delta = 0 := rfl

omit [DecidableEq U] in
@[simp] theorem Move.delta_ite {c : Prop} [Decidable c] (m : Move U) :
    (if c then m else .idle).delta = if c then m.delta else 0 := by
  split
  · rfl
  · rfl

theorem Step.total_eq {e : Move U} (h : Step scale P e P') : P'.total = P.total + e.delta := by
  cases h with
  | idle => exact (add_zero _).symm
  | touch => rfl
  | distribute => exact (add_zero _).symm

/-- What an event adds to the stake of `u`. -/
def Move.staked (u : U) : Move U → ℤ
  | .touch v delta _ _ => if v = u then delta else 0
  | _ => 0

@[simp] theorem Move.staked_idle (u : U) : (.idle : Move U).staked u = 0 := rfl

@[simp] theorem Move.staked_touch (u v : U) (delta paid : ℤ) (now : ℕ) :
    (Move.touch v delta paid now).staked u = if v = u then delta else 0 := rfl

@[simp] theorem Move.staked_distribute (u : U) (d : Distribution U) :
    (Move.distribute d).staked u = 0 := rfl

@[simp] theorem Move.staked_ite {c : Prop} [Decidable c] (u : U) (m : Move U) :
    (if c then m else .idle).staked u = if c then m.staked u else 0 := by
  split
  · rfl
  · rfl

theorem Step.balance_eq {e : Move U} (h : Step scale P e P') (u : U) :
    (P'.account u).balance = (P.account u).balance + e.staked u := by
  cases h with
  | idle => exact (add_zero _).symm
  | @touch v delta paid now =>
    rw [Move.staked]
    split
    · rename_i hv
      subst hv
      rw [touch_account_self]
    · rename_i hv
      rw [touch_account_other (Ne.symm hv), add_zero]
  | distribute => exact (add_zero _).symm

/-- Moves of one account at one time add up: the first has settled it. -/
theorem touch_touch (u : U) (delta delta' paid : ℤ) (now : ℕ) :
    (P.touch scale u delta 0 now).touch scale u delta' paid now =
      P.touch scale u (delta + delta') paid now := by
  have haccount : ∀ v, ((P.touch scale u delta 0 now).touch scale u delta' paid now).account v =
      (P.touch scale u (delta + delta') paid now).account v := by
    intro v
    by_cases hv : v = u
    · subst hv
      have hindex : (P.touch scale v delta 0 now).index = P.index := rfl
      rw [touch_account_self, pending_touch_self, touch_account_self, touch_account_self, hindex]
      simp [Account.settle, Account.gain, add_assoc]
    · rw [touch_account_other hv, touch_account_other hv, touch_account_other hv]
  rw [Pool.mk.injEq]
  exact ⟨rfl, add_assoc _ _ _, funext haccount⟩

/-- An account that is only settled has the same settlement at that time. -/
theorem settle_touch_zero (u v : U) (now : ℕ) :
    ((P.touch scale u 0 0 now).account v).settle scale (P.touch scale u 0 0 now).index now =
      (P.account v).settle scale P.index now := by
  have hindex : (P.touch scale u 0 0 now).index = P.index := rfl
  rw [hindex]
  by_cases hv : v = u
  · subst hv
    rw [touch_account_self]
    simp [Account.settle, Account.gain, Pool.pending]
  · rw [touch_account_other hv]

/-! ## What a step leaves alone -/

/-- The account an event is about. -/
def Move.subject : Move U → Option U
  | .touch u _ _ _ => some u
  | _ => none

theorem Step.account_other {e : Move U} (h : Step scale P e P') {u : U} (hu : e.subject ≠ some u) :
    P'.account u = P.account u := by
  cases h with
  | idle => rfl
  | @touch v delta paid now =>
    refine touch_account_other ?_ _ _ _
    intro huv
    exact hu (congrArg some huv.symm)
  | distribute => rfl

theorem Step.index_eq {e : Move U} (h : Step scale P e P') (hd : ∀ d, e ≠ .distribute d) :
    P'.index = P.index := by
  cases h with
  | idle => rfl
  | touch => rfl
  | @distribute d => exact absurd rfl (hd d)

/-- No step lowers the index. -/
theorem Step.index_le {e : Move U} (h : Step scale P e P') (hs : 0 < scale) : P.index ≤ P'.index := by
  cases h with
  | idle => exact le_rfl
  | touch => exact le_rfl
  | distribute ht ha =>
    have hraise : 0 ≤ _ * scale / P.total := Pool.Good.increment_nonneg hs ht ha
    exact le_add_of_nonneg_right hraise

/-! ## Accounts with nothing to settle -/

/-- An account with nothing to settle has nothing to settle after a step that
distributes nothing: its rewards fall by what it is paid, and their date stays. -/
theorem Step.account_of_gain_zero {e : Move U} (h : Step scale P e P')
    (hd : ∀ d, e ≠ .distribute d) {u : U} (hg : (P.account u).gain scale P.index = 0) :
    (P'.account u).gain scale P'.index = 0 ∧
    (P'.account u).accrued = (P.account u).accrued - e.paidTo u ∧
    (P'.account u).since = (P.account u).since := by
  cases h with
  | idle => exact ⟨hg, (sub_zero _).symm, rfl⟩
  | @touch v delta paid now =>
    by_cases hv : v = u
    · subst hv
      rw [touch_account_self, Pool.pending, Account.settle, hg, Move.paidTo, if_pos rfl]
      refine ⟨?_, ?_, rfl⟩
      · simp [Account.gain, Pool.touch]
      · rw [add_zero]
    · rw [touch_account_other (Ne.symm hv), Move.paidTo, if_neg hv, sub_zero]
      exact ⟨hg, rfl, rfl⟩
  | @distribute d => exact absurd rfl (hd d)

theorem Step.paidTo_nonneg {e : Move U} (h : Step scale P e P') (u : U) : 0 ≤ e.paidTo u := by
  cases h with
  | idle => exact le_rfl
  | touch _ h0 =>
    rw [Move.paidTo]
    split
    · exact h0
    · exact le_rfl
  | distribute => exact le_rfl

/-! ## Vesting

Rewards vest linearly over a period from the last time something was added to
them. -/

def Account.vested (a : Account) (period now : ℕ) : ℤ :=
  if period = 0 then a.accrued
  else if a.since = 0 then 0
  else if period ≤ now - a.since then a.accrued
  else a.accrued * (now - a.since : ℕ) / period

/-- The vested part of what an account would have if it were settled now. -/
def Pool.vested (scale : ℤ) (P : Pool U) (period now : ℕ) (u : U) : ℤ :=
  ((P.account u).settle scale P.index now).vested period now

theorem Account.vested_nonneg {a : Account} (h : 0 ≤ a.accrued) (period now : ℕ) :
    0 ≤ a.vested period now := by
  unfold Account.vested
  split_ifs
  · exact h
  · exact le_rfl
  · exact h
  · exact Int.ediv_nonneg (Int.mul_nonneg h (Int.natCast_nonneg _)) (Int.natCast_nonneg _)

theorem Account.vested_le {a : Account} (h : 0 ≤ a.accrued) (period now : ℕ) :
    a.vested period now ≤ a.accrued := by
  unfold Account.vested
  split_ifs with hp _ he
  · exact le_rfl
  · exact h
  · exact le_rfl
  · refine Int.ediv_le_of_le_mul (by omega) ?_
    exact mul_le_mul_of_nonneg_left (by omega) h

theorem Account.vested_mono {a : Account} (h : 0 ≤ a.accrued) (period : ℕ) {now later : ℕ}
    (ht : now ≤ later) : a.vested period now ≤ a.vested period later := by
  by_cases hp : period = 0
  · simp only [Account.vested, if_pos hp, le_refl]
  by_cases hs : a.since = 0
  · simp only [Account.vested, if_neg hp, if_pos hs, le_refl]
  by_cases hl : period ≤ later - a.since
  · -- everything has vested by the later time
    have hall : a.vested period later = a.accrued := by
      simp only [Account.vested, if_neg hp, if_neg hs, if_pos hl]
    rw [hall]
    exact Account.vested_le h period now
  · have hn : ¬ period ≤ now - a.since := by omega
    simp only [Account.vested, if_neg hp, if_neg hs, if_neg hl, if_neg hn]
    refine Int.ediv_le_ediv (by omega) ?_
    exact mul_le_mul_of_nonneg_left (by omega) h

theorem Account.vested_settle_of_gain_zero {a : Account} {index : ℤ}
    (hg : a.gain scale index = 0) (period now t : ℕ) :
    (a.settle scale index now).vested period t = a.vested period t := by
  simp [Account.vested, Account.settle, hg]

/-- New rewards restart the vesting of all of them. -/
theorem Account.vested_settle_of_gain_pos {a : Account} {index : ℤ}
    (hg : 0 < a.gain scale index) {period : ℕ} (hp : 0 < period) (now : ℕ) :
    (a.settle scale index now).vested period now = 0 := by
  simp [Account.vested, Account.settle, hg, hp.ne']

omit [DecidableEq U] in
theorem Pool.vested_mono (hs : 0 < scale) (hg : P.Good) {period : ℕ} (hp : 0 < period)
    {now later : ℕ} (ht : now ≤ later) (u : U) :
    P.vested scale period now u ≤ P.vested scale period later u := by
  rcases (hg.gain_nonneg hs u).lt_or_eq with hgain | hgain
  · rw [Pool.vested, Pool.vested, Account.vested_settle_of_gain_pos hgain hp,
      Account.vested_settle_of_gain_pos hgain hp]
  · rw [Pool.vested, Pool.vested, Account.vested_settle_of_gain_zero hgain.symm,
      Account.vested_settle_of_gain_zero hgain.symm]
    exact Account.vested_mono (hg.accrued_nonneg u) period ht

omit [DecidableEq U] in
theorem Pool.vested_nonneg (hs : 0 < scale) (hg : P.Good) (period now : ℕ) (u : U) :
    0 ≤ P.vested scale period now u :=
  Account.vested_nonneg (hg.pending_nonneg hs u) period now

/-- A touched account is settled: settling it again finds nothing to add. -/
theorem vested_touch_self (u : U) (delta paid : ℤ) (period now : ℕ) :
    (P.touch scale u delta paid now).vested scale period now u =
      Account.vested { (P.account u).settle scale P.index now with
        accrued := P.pending scale u - paid } period now := by
  have hgain : ((P.touch scale u delta paid now).account u).gain scale
      (P.touch scale u delta paid now).index = 0 := by
    rw [touch_account_self]
    simp [Account.gain, Pool.touch, Account.settle]
  rw [Pool.vested, Account.vested_settle_of_gain_zero hgain, touch_account_self]
  rfl

/-- **Vested rewards stay vested** through a step at time `now`, less what it
pays, unless a distribution adds to an account that had nothing to settle. -/
theorem Step.vested_le {e : Move U} (h : Step scale P e P') (hs : 0 < scale) (hg : P.Good)
    {period now : ℕ} (hp : 0 < period) {u : U}
    (htime : ∀ v delta paid t, e = .touch v delta paid t → t = now)
    (hpay : e.paidTo u = 0 ∨ e.paidTo u = P.vested scale period now u)
    (hrest : ∀ d, e = .distribute d → (P.account u).gain scale P.index = 0 →
      (P'.account u).gain scale P'.index = 0) :
    P.vested scale period now u ≤ P'.vested scale period now u + e.paidTo u := by
  have hnonneg := Pool.vested_nonneg hs (h.good hs hg) period now u
  rcases hpay with hpay | hpay
  swap
  · rw [hpay]
    omega
  rw [hpay, add_zero]
  cases h with
  | idle => exact le_rfl
  | @touch v delta paid t =>
    obtain rfl := htime v delta paid t rfl
    by_cases hv : v = u
    · subst hv
      rw [Move.paidTo, if_pos rfl] at hpay
      rw [vested_touch_self, hpay, sub_zero]
      exact le_rfl
    · rw [Pool.vested, Pool.vested, touch_account_other (Ne.symm hv)]
      exact le_rfl
  | @distribute d =>
    rcases (hg.gain_nonneg hs u).lt_or_eq with hgain | hgain
    · rw [Pool.vested, Account.vested_settle_of_gain_pos hgain hp]
      exact hnonneg
    · have hgain' := hrest d rfl hgain.symm
      rw [Pool.vested, Pool.vested, Account.vested_settle_of_gain_zero hgain.symm,
        Account.vested_settle_of_gain_zero hgain']
      exact le_rfl

end Axionvera.Lib.RewardPool

import Mathlib.Algebra.BigOperators.Field
import Axionvera.Lib.RewardPool

/-! # Lazy settlement against the eager ledger

`share` is what the eager ledger has handed to an account: the exact rational
part of every distribution. `Pool.exact` is what the lazy pool owes an account
before the last rounding. Along every run that starts with empty accounts,
`paid + exact` never passes `share`, and falls behind it by at most the stake
over `scale` for each distribution (the index is rounded down) and one unit for
each settlement (the gain is rounded down). -/
namespace Axionvera.Lib.RewardLedger
open Axionvera.Lib.KeyValue Axionvera.Lib.Transition Axionvera.Lib.RewardPool

/-! ## What a run has handed out -/

section Defs
variable {U : Type}

/-- The distributions of a run, latest first. -/
def distributions : List (Move U) → List (Distribution U)
  | [] => []
  | .distribute d :: h => d :: distributions h
  | _ :: h => distributions h

/-- The distribution that a move is, if it is one. -/
def Move.distribution : Move U → Option (Distribution U)
  | .distribute d => some d
  | _ => none

theorem distributions_eq_filterMap (h : List (Move U)) :
    distributions h = h.filterMap Move.distribution := by
  induction h with
  | nil => rfl
  | cons e h ih => cases e <;> simp [distributions, Move.distribution, List.filterMap_cons, ih]

/-- The exact part of one distribution that belongs to `u`. -/
def Distribution.part (d : Distribution U) (u : U) : ℚ := d.amount * d.balance u / d.total

/-- What the eager ledger has credited to `u`. -/
def share (ds : List (Distribution U)) (u : U) : ℚ := (ds.map fun d => Distribution.part d u).sum

/-- The stakes of `u`, one for each distribution. -/
def staked (ds : List (Distribution U)) (u : U) : ℤ := (ds.map fun d => d.balance u).sum

def distributed (ds : List (Distribution U)) : ℤ := (ds.map fun d => d.amount).sum

variable [DecidableEq U]

def paidTo (u : U) : List (Move U) → ℤ
  | [] => 0
  | .touch v _ paid _ :: h => (if v = u then paid else 0) + paidTo u h
  | _ :: h => paidTo u h

theorem paidTo_cons (u : U) (e : Move U) (h : List (Move U)) :
    paidTo u (e :: h) = e.paidTo u + paidTo u h := by
  cases e <;> simp [paidTo, Move.paidTo]

def touches (u : U) : List (Move U) → ℕ
  | [] => 0
  | .touch v _ _ _ :: h => (if v = u then 1 else 0) + touches u h
  | _ :: h => touches u h

end Defs

/-- What an account is owed before the last rounding. -/
def Pool.exact {U : Type} (scale : ℤ) (P : Pool U) (u : U) : ℚ :=
  (P.account u).accrued + (P.account u).balance * (P.index - (P.account u).index) / scale

variable {U : Type} {scale : ℤ} {P P' P₀ : Pool U}

/-! ## Rounding down -/

theorem cast_ediv_le {s : ℤ} (hs : 0 < s) (x : ℤ) : ((x / s : ℤ) : ℚ) ≤ x / s := by
  have hs' : (0 : ℚ) < s := by exact_mod_cast hs
  rw [le_div_iff₀ hs']
  exact_mod_cast Int.ediv_mul_le x hs.ne'

theorem le_cast_ediv_add_one {s : ℤ} (hs : 0 < s) (x : ℤ) : (x : ℚ) / s ≤ (x / s : ℤ) + 1 := by
  have hs' : (0 : ℚ) < s := by exact_mod_cast hs
  rw [div_le_iff₀ hs']
  exact_mod_cast (Int.lt_ediv_add_one_mul_self x hs).le

theorem pending_le_exact (hs : 0 < scale) (u : U) : (P.pending scale u : ℚ) ≤ Pool.exact scale P u := by
  have h := cast_ediv_le hs ((P.account u).balance * (P.index - (P.account u).index))
  push_cast at h
  simp only [Pool.pending, Account.gain, Pool.exact, Int.cast_add]
  linarith

theorem exact_le_pending_add_one (hs : 0 < scale) (u : U) :
    Pool.exact scale P u ≤ P.pending scale u + 1 := by
  have h := le_cast_ediv_add_one hs ((P.account u).balance * (P.index - (P.account u).index))
  push_cast at h
  simp only [Pool.pending, Account.gain, Pool.exact, Int.cast_add]
  linarith

/-! ## The exact debt, step by step -/

section Steps
variable [DecidableEq U]

theorem exact_touch_self (u : U) (delta paid : ℤ) (now : ℕ) :
    Pool.exact scale (P.touch scale u delta paid now) u = P.pending scale u - paid := by
  simp only [Pool.exact, touch_account_self, Account.settle]
  simp [Pool.touch]

theorem exact_touch_other {u v : U} (h : v ≠ u) (delta paid : ℤ) (now : ℕ) :
    Pool.exact scale (P.touch scale u delta paid now) v = Pool.exact scale P v := by
  simp only [Pool.exact, touch_account_other h]
  rfl

end Steps

theorem exact_distribute (amount : ℤ) (u : U) :
    Pool.exact scale (P.distribute scale amount) u =
      Pool.exact scale P u + (P.account u).balance * ((amount * scale / P.total : ℤ) : ℚ) / scale := by
  simp only [Pool.exact, Pool.distribute]
  push_cast
  ring

/-- The index credits at most the exact part of a distribution. -/
theorem increment_le_part (hs : 0 < scale) {amount total b : ℤ} (ht : 0 < total) (hb : 0 ≤ b) :
    (b : ℚ) * ((amount * scale / total : ℤ) : ℚ) / scale ≤ amount * b / total := by
  have hs' : (0 : ℚ) < scale := by exact_mod_cast hs
  have ht' : (0 : ℚ) < total := by exact_mod_cast ht
  have hb' : (0 : ℚ) ≤ b := by exact_mod_cast hb
  have h := mul_le_mul_of_nonneg_left (cast_ediv_le ht (amount * scale)) hb'
  have hx : (b : ℚ) * (((amount * scale : ℤ) : ℚ) / total) = amount * b / total * scale := by
    push_cast; field_simp
  rw [hx] at h
  rwa [div_le_iff₀ hs']

/-- And misses it by at most `b / scale`. -/
theorem part_le_increment (hs : 0 < scale) {amount total b : ℤ} (ht : 0 < total) (hb : 0 ≤ b) :
    (amount * b / total : ℚ) ≤ b * ((amount * scale / total : ℤ) : ℚ) / scale + b / scale := by
  have hs' : (0 : ℚ) < scale := by exact_mod_cast hs
  have ht' : (0 : ℚ) < total := by exact_mod_cast ht
  have hb' : (0 : ℚ) ≤ b := by exact_mod_cast hb
  have h := mul_le_mul_of_nonneg_left (le_cast_ediv_add_one ht (amount * scale)) hb'
  have hx : (b : ℚ) * (((amount * scale : ℤ) : ℚ) / total) = amount * b / total * scale := by
    push_cast; field_simp
  rw [hx] at h
  rw [← add_div, le_div_iff₀ hs']
  linarith

/-! ## Bounds along a run -/

variable [DecidableEq U]

/-- Accounts as a pool starts with them. -/
structure Pool.Fresh (P : Pool U) : Prop where
  good : P.Good
  balance_zero : ∀ u, (P.account u).balance = 0
  accrued_zero : ∀ u, (P.account u).accrued = 0

/-- The pool nobody has used yet. -/
def emptyPool : Pool U := ⟨0, 0, fun _ => ⟨0, 0, 0, 0⟩⟩

omit [DecidableEq U] in
theorem fresh_emptyPool : Pool.Fresh (emptyPool : Pool U) where
  good :=
    { finite := by simp [emptyPool]
      total_eq := by simp [emptyPool]
      balance_nonneg := fun _ => le_rfl
      accrued_nonneg := fun _ => le_rfl
      index_nonneg := fun _ => le_rfl
      index_le := fun _ => le_rfl }
  balance_zero _ := rfl
  accrued_zero _ := rfl

/-- The bookkeeping that holds between the events of a run and its last pool. -/
structure Ledger (scale : ℤ) (h : List (Move U)) (P : Pool U) : Prop where
  good : P.Good
  upper : ∀ u, paidTo u h + Pool.exact scale P u ≤ share (distributions h) u
  lower : ∀ u, share (distributions h) u - staked (distributions h) u / scale - touches u h ≤
    paidTo u h + Pool.exact scale P u
  paid_nonneg : ∀ u, 0 ≤ paidTo u h
  backed : ∀ d ∈ distributions h, 0 < d.total ∧ 0 ≤ d.amount ∧ ∀ S : Finset U,
    ∑ u ∈ S, d.balance u ≤ d.total
  finite : {u | paidTo u h ≠ 0}.Finite

theorem Ledger.init (hf : Pool.Fresh P) : Ledger scale [] P where
  good := hf.good
  upper u := by simp [paidTo, Pool.exact, share, distributions, hf.balance_zero, hf.accrued_zero]
  lower u := by
    simp [paidTo, Pool.exact, share, staked, distributions, touches, hf.balance_zero,
      hf.accrued_zero]
  paid_nonneg u := le_rfl
  backed d hd := by simp [distributions] at hd
  finite := by simp [paidTo]

theorem Ledger.idle {h : List (Move U)} (hl : Ledger scale h P) : Ledger scale (.idle :: h) P :=
  ⟨hl.good, hl.upper, hl.lower, hl.paid_nonneg, hl.backed, hl.finite⟩

theorem Ledger.touch (hs : 0 < scale) {h : List (Move U)} (hl : Ledger scale h P) {u : U}
    {delta paid : ℤ} {now : ℕ} (hb : 0 ≤ (P.account u).balance + delta) (h0 : 0 ≤ paid)
    (hp : paid ≤ P.pending scale u) :
    Ledger scale (.touch u delta paid now :: h) (P.touch scale u delta paid now) where
  good := hl.good.touch hb hp
  upper v := by
    have hu := hl.upper v
    by_cases hv : v = u
    · subst hv
      have := @pending_le_exact U scale P hs v
      rw [exact_touch_self]
      simp only [paidTo, distributions, if_true]
      push_cast
      linarith
    · rw [exact_touch_other hv]
      simpa only [paidTo, distributions, if_neg (Ne.symm hv), zero_add] using hu
  lower v := by
    have hw := hl.lower v
    by_cases hv : v = u
    · subst hv
      have := @exact_le_pending_add_one U scale P hs v
      rw [exact_touch_self]
      simp only [paidTo, distributions, touches, if_true]
      push_cast
      linarith
    · rw [exact_touch_other hv]
      simpa only [paidTo, distributions, touches, if_neg (Ne.symm hv), zero_add] using hw
  paid_nonneg v := by
    have := hl.paid_nonneg v
    simp only [paidTo]
    split <;> omega
  backed d hd := hl.backed d hd
  finite := by
    refine (hl.finite.insert u).subset ?_
    intro v hv
    by_cases hvu : v = u
    · exact Or.inl hvu
    · exact Or.inr (by simpa [paidTo, Ne.symm hvu] using hv)

theorem Ledger.distribute (hs : 0 < scale) {h : List (Move U)} (hl : Ledger scale h P)
    {d : Distribution U} (ht : 0 < P.total) (ha : 0 ≤ d.amount) (hdt : d.total = P.total)
    (hdb : d.balance = fun u => (P.account u).balance) :
    Ledger scale (.distribute d :: h) (P.distribute scale d.amount) where
  good := hl.good.distribute hs ht ha
  upper u := by
    have hu := hl.upper u
    have hi := @increment_le_part scale hs d.amount P.total _ ht (hl.good.balance_nonneg u)
    rw [exact_distribute]
    simp only [paidTo, distributions, share, List.map_cons, List.sum_cons, Distribution.part, hdt,
      hdb] at hu ⊢
    linarith
  lower u := by
    have hw := hl.lower u
    have hi := @part_le_increment scale hs d.amount P.total _ ht (hl.good.balance_nonneg u)
    rw [exact_distribute]
    simp only [paidTo, distributions, touches, share, staked, List.map_cons, List.sum_cons,
      Distribution.part, hdt, hdb] at hw ⊢
    rw [Int.cast_add, add_div]
    linarith
  paid_nonneg u := hl.paid_nonneg u
  backed e he := by
    rcases List.mem_cons.mp he with rfl | he
    · rw [hdt, hdb]
      exact ⟨ht, ha, fun S => hl.good.sum_le_total S⟩
    · exact hl.backed e he
  finite := hl.finite

theorem Ledger.step (hs : 0 < scale) {h : List (Move U)} (hl : Ledger scale h P) {e : Move U}
    (he : Step scale P e P') : Ledger scale (e :: h) P' := by
  cases he with
  | idle => exact hl.idle
  | touch hb h0 hp => exact hl.touch hs hb h0 hp
  | distribute ht ha hdt hdb => exact hl.distribute hs ht ha hdt hdb

/-- **Lazy settlement keeps the books.** -/
theorem ledger_of_run (hs : 0 < scale) (hf : Pool.Fresh P₀) {h : List (Move U)}
    (hr : Run (Step scale) P₀ h P) : Ledger scale h P :=
  hr.induct (Ledger.init hf) fun _ _ _ _ _ hl he => hl.step hs he

/-! ## Consequences -/

variable {h : List (Move U)}

theorem Ledger.paid_add_pending_le (hs : 0 < scale) (hl : Ledger scale h P) (u : U) :
    (paidTo u h : ℚ) + P.pending scale u ≤ share (distributions h) u := by
  have := hl.upper u
  have := @pending_le_exact U scale P hs u
  linarith

theorem Ledger.le_paid_add_pending (hs : 0 < scale) (hl : Ledger scale h P) (u : U) :
    share (distributions h) u - staked (distributions h) u / scale - (1 + touches u h) ≤
      (paidTo u h : ℚ) + P.pending scale u := by
  have := hl.lower u
  have := @exact_le_pending_add_one U scale P hs u
  linarith

omit [DecidableEq U] in
/-- The exact parts of one distribution add up to at most its amount. -/
theorem sum_part_le {d : Distribution U} (ht : 0 < d.total) (ha : 0 ≤ d.amount)
    {S : Finset U} (hS : ∑ u ∈ S, d.balance u ≤ d.total) :
    ∑ u ∈ S, Distribution.part d u ≤ d.amount := by
  have ht' : (0 : ℚ) < d.total := by exact_mod_cast ht
  have ha' : (0 : ℚ) ≤ d.amount := by exact_mod_cast ha
  have hS' : (∑ u ∈ S, (d.balance u : ℚ)) ≤ d.total := by exact_mod_cast hS
  simp only [Distribution.part]
  rw [← Finset.sum_div, ← Finset.mul_sum, div_le_iff₀ ht']
  exact mul_le_mul_of_nonneg_left hS' ha'

omit [DecidableEq U] in
theorem sum_share_le {ds : List (Distribution U)} (S : Finset U)
    (hb : ∀ d ∈ ds, 0 < d.total ∧ 0 ≤ d.amount ∧ ∑ u ∈ S, d.balance u ≤ d.total) :
    ∑ u ∈ S, share ds u ≤ distributed ds := by
  induction ds with
  | nil => simp [share, distributed]
  | cons d ds ih =>
    obtain ⟨ht, ha, hS⟩ := hb d (by simp)
    have hd := sum_part_le ht ha hS
    have hds := ih fun e he => hb e (by simp [he])
    simp only [share, distributed, List.map_cons, List.sum_cons, Finset.sum_add_distrib,
      Int.cast_add] at hds ⊢
    linarith

/-- No finite group of accounts is paid and owed more than was distributed. -/
theorem Ledger.sum_le_distributed (hs : 0 < scale) (hl : Ledger scale h P) (S : Finset U) :
    ∑ u ∈ S, (paidTo u h + P.pending scale u) ≤ distributed (distributions h) := by
  have hle : ∑ u ∈ S, ((paidTo u h : ℚ) + P.pending scale u) ≤
      ∑ u ∈ S, share (distributions h) u :=
    Finset.sum_le_sum fun u _ => hl.paid_add_pending_le hs u
  have hsh := @sum_share_le U (distributions h) S fun d hd =>
    ⟨(hl.backed d hd).1, (hl.backed d hd).2.1, (hl.backed d hd).2.2 S⟩
  exact_mod_cast hle.trans hsh

/-- Only finitely many accounts are paid or owed anything. -/
theorem Ledger.finite_paid_pending (hl : Ledger scale h P) :
    {u | paidTo u h + P.pending scale u ≠ 0}.Finite := by
  refine (hl.finite.union hl.good.finite).subset ?_
  intro u hu
  by_contra hn
  simp only [Set.mem_union, Set.mem_ofPred_eq, not_or, not_not] at hn
  obtain ⟨hp, hb, ha⟩ := hn
  exact hu (by simp [Pool.pending, Account.gain, hp, hb, ha])

/-- **Nobody is owed what was not distributed**, summed over all accounts. -/
theorem Ledger.finsum_le_distributed (hs : 0 < scale) (hl : Ledger scale h P) :
    ∑ᶠ u, (paidTo u h + P.pending scale u) ≤ distributed (distributions h) := by
  rw [finsum_eq_sum _ hl.finite_paid_pending]
  exact hl.sum_le_distributed hs _

end Axionvera.Lib.RewardLedger

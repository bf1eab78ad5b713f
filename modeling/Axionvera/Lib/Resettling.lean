import Axionvera.Lib.RewardPool

/-! # Settling an account more often

Two pools with the same stakes and the same index, of which the second has
settled some accounts more often. While only the index moves, the `standing` of
an account rests, and what the account was paid and is owed is the standing plus
what its stake has earned, rounded down. So it is enough to follow the standings:
settling puts an account on a multiple of `scale` at or below the exact amount,
and one settlement more costs it less than one unit. -/
namespace Axionvera.Lib.Resettling
open Axionvera.Lib.RewardPool

section Defs
variable {U : Type}

/-- What an account was paid and credited, times `scale`, less what its stake had
earned before. -/
def standing (scale : ℤ) (P : Pool U) (paid : U → ℤ) (u : U) : ℤ :=
  (paid u + (P.account u).accrued) * scale - (P.account u).balance * (P.account u).index

/-- The second pool has settled each account `v` up to `extra v` times more often. -/
structure Trails (scale : ℤ) (extra : U → ℕ) (P : Pool U) (paid : U → ℤ) (P' : Pool U)
    (paid' : U → ℤ) : Prop where
  index : P'.index = P.index
  total : P'.total = P.total
  balance : ∀ v, (P'.account v).balance = (P.account v).balance
  below : ∀ v, standing scale P' paid' v ≤ standing scale P paid v
  near : ∀ v, standing scale P paid v ≤ standing scale P' paid' v + extra v * scale

/-- Two moves that do the same to the stakes and to the index. -/
inductive Alike : Move U → Move U → Prop
  | idle : Alike .idle .idle
  | touch {u : U} {delta paid paid' : ℤ} {now now' : ℕ} :
      Alike (.touch u delta paid now) (.touch u delta paid' now')
  | distribute {d d' : Distribution U} : d.amount = d'.amount → Alike (.distribute d) (.distribute d')

end Defs

variable {U : Type} {scale : ℤ} {extra : U → ℕ} {P P' Q Q' : Pool U} {paid paid' : U → ℤ}

theorem Trails.refl (scale : ℤ) (P : Pool U) (paid : U → ℤ) :
    Trails scale (fun _ => 0) P paid P paid where
  index := rfl
  total := rfl
  balance _ := rfl
  below _ := le_rfl
  near _ := by simp

/-! ## Standings and amounts -/

theorem paid_add_pending_eq (hs : 0 < scale) (P : Pool U) (paid : U → ℤ) (u : U) :
    paid u + P.pending scale u =
      (standing scale P paid u + (P.account u).balance * P.index) / scale := by
  have hsplit : standing scale P paid u + (P.account u).balance * P.index =
      (P.account u).balance * (P.index - (P.account u).index) +
        (paid u + (P.account u).accrued) * scale := by
    unfold standing
    ring
  rw [hsplit, Int.add_mul_ediv_right _ _ hs.ne', Pool.pending, Account.gain]
  ring

theorem Trails.le (hs : 0 < scale) (h : Trails scale extra P paid P' paid') (v : U) :
    paid' v + P'.pending scale v ≤ paid v + P.pending scale v := by
  rw [paid_add_pending_eq hs, paid_add_pending_eq hs, h.index, h.balance]
  exact Int.ediv_le_ediv hs (add_le_add_left (h.below v) _)

theorem Trails.le_add (hs : 0 < scale) (h : Trails scale extra P paid P' paid') (v : U) :
    paid v + P.pending scale v ≤ paid' v + P'.pending scale v + extra v := by
  have hnear := h.near v
  rw [paid_add_pending_eq hs, paid_add_pending_eq hs, h.index, h.balance,
    ← Int.add_mul_ediv_right _ _ hs.ne']
  exact Int.ediv_le_ediv hs (by linarith)

/-! ## Steps -/

theorem Trails.distribute (h : Trails scale extra P paid P' paid') (amount : ℤ) :
    Trails scale extra (P.distribute scale amount) paid (P'.distribute scale amount) paid' where
  index := by
    simp only [Pool.distribute, h.index, h.total]
  total := h.total
  balance := h.balance
  below := h.below
  near := h.near

variable [DecidableEq U]

/-- What was paid after a move. -/
def paidAfter (e : Move U) (paid : U → ℤ) (v : U) : ℤ := e.paidTo v + paid v

theorem standing_touch_self (u : U) (delta x : ℤ) (now : ℕ) :
    standing scale (P.touch scale u delta x now) (paidAfter (.touch u delta x now) paid) u =
      (paid u + P.pending scale u) * scale - ((P.account u).balance + delta) * P.index := by
  simp only [standing, touch_account_self, Account.settle, paidAfter, Move.paidTo, if_true]
  ring

theorem standing_touch_other {u v : U} (h : v ≠ u) (delta x : ℤ) (now : ℕ) :
    standing scale (P.touch scale u delta x now) (paidAfter (.touch u delta x now) paid) v =
      standing scale P paid v := by
  simp only [standing, touch_account_other h, paidAfter, Move.paidTo, if_neg (Ne.symm h), zero_add]

theorem balance_touch (u v : U) (delta x : ℤ) (now : ℕ) :
    ((P.touch scale u delta x now).account v).balance =
      (P.account v).balance + if v = u then delta else 0 := by
  by_cases h : v = u
  · subst h
    rw [touch_account_self, if_pos rfl]
  · rw [touch_account_other h, if_neg h, add_zero]

/-- The same account is settled in both pools. -/
theorem Trails.touch (hs : 0 < scale) (h : Trails scale extra P paid P' paid') (u : U)
    (delta x x' : ℤ) (now now' : ℕ) :
    Trails scale extra
      (P.touch scale u delta x now) (paidAfter (.touch u delta x now) paid)
      (P'.touch scale u delta x' now') (paidAfter (.touch u delta x' now') paid') where
  index := h.index
  total := congrArg (· + delta) h.total
  balance v := by rw [balance_touch, balance_touch, h.balance]
  below v := by
    by_cases hv : v = u
    · subst hv
      have hle := mul_le_mul_of_nonneg_right (h.le hs v) hs.le
      rw [standing_touch_self, standing_touch_self, h.index, h.balance]
      linarith
    · rw [standing_touch_other hv, standing_touch_other hv]
      exact h.below v
  near v := by
    by_cases hv : v = u
    · subst hv
      have hle := mul_le_mul_of_nonneg_right (h.le_add hs v) hs.le
      rw [standing_touch_self, standing_touch_self, h.index, h.balance]
      linarith
    · rw [standing_touch_other hv, standing_touch_other hv]
      exact h.near v

/-- One settlement more in the second pool. -/
theorem Trails.settle (hs : 0 < scale) (h : Trails scale extra P paid P' paid') (u : U) (x : ℤ)
    (now : ℕ) :
    Trails scale (fun v => extra v + if v = u then 1 else 0) P paid
      (P'.touch scale u 0 x now) (paidAfter (.touch u 0 x now) paid') where
  index := h.index
  total := (add_zero _).trans h.total
  balance v := by
    rw [balance_touch, h.balance]
    split <;> exact add_zero _
  below v := by
    by_cases hv : v = u
    · subst hv
      have hbelow := h.below v
      have hfloor := Int.ediv_mul_le
        (standing scale P' paid' v + (P'.account v).balance * P'.index) hs.ne'
      rw [standing_touch_self, paid_add_pending_eq hs]
      linarith
    · rw [standing_touch_other hv]
      exact h.below v
  near v := by
    by_cases hv : v = u
    · subst hv
      have hnear := h.near v
      have hceil := Int.lt_ediv_add_one_mul_self
        (standing scale P' paid' v + (P'.account v).balance * P'.index) hs
      rw [standing_touch_self, paid_add_pending_eq hs, if_pos rfl]
      push_cast
      linarith
    · rw [standing_touch_other hv, if_neg hv]
      exact h.near v

theorem paidAfter_of_none {e : Move U} (h : ∀ v, e.paidTo v = 0) (paid : U → ℤ) :
    paidAfter e paid = paid := by
  funext v
  rw [paidAfter, h, zero_add]

/-- Both pools make a step that is the same but for what it pays. -/
theorem Trails.step (hs : 0 < scale) (h : Trails scale extra P paid P' paid') {e e' : Move U}
    (halike : Alike e e') (he : Step scale P e Q) (he' : Step scale P' e' Q') :
    Trails scale extra Q (paidAfter e paid) Q' (paidAfter e' paid') := by
  cases halike with
  | idle =>
    cases he
    cases he'
    rw [paidAfter_of_none fun _ => rfl, paidAfter_of_none fun _ => rfl]
    exact h
  | touch =>
    cases he
    cases he'
    exact h.touch hs _ _ _ _ _ _
  | distribute hamount =>
    cases he
    cases he'
    rw [paidAfter_of_none fun _ => rfl, paidAfter_of_none fun _ => rfl, ← hamount]
    exact h.distribute _

/-- The second pool rests. -/
theorem Trails.idle_step (h : Trails scale extra P paid P' paid') (he : Step scale P' .idle Q') :
    Trails scale extra P paid Q' (paidAfter .idle paid') := by
  cases he
  rw [paidAfter_of_none fun _ => rfl]
  exact h

/-- The second pool settles an account without the first. -/
theorem Trails.settle_step (hs : 0 < scale) (h : Trails scale extra P paid P' paid') {u : U} {x : ℤ}
    {now : ℕ} (he : Step scale P' (.touch u 0 x now) Q') :
    Trails scale (fun v => extra v + if v = u then 1 else 0) P paid Q'
      (paidAfter (.touch u 0 x now) paid') := by
  cases he
  exact h.settle hs u x now

end Axionvera.Lib.Resettling

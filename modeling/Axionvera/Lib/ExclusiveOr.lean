import Mathlib.Data.List.Perm.Basic
import Mathlib.Data.Nat.Bitwise
import Mathlib.Logic.Function.Basic

/-! # Sums under exclusive or

A sum under exclusive or forgets the order of its terms and everything about how
often a term occurs but whether it is even or odd (`xorSum_map_congr`). Over the
natural numbers, terms that are different powers of two show this number of
occurrences, so that it cannot be told less (`testBit_xorSum`). -/
namespace Axionvera.Lib.ExclusiveOr

class XorGroup (H : Type) extends XorOp H, Zero H where
  xor_assoc : ∀ a b c : H, a ^^^ b ^^^ c = a ^^^ (b ^^^ c)
  xor_comm : ∀ a b : H, a ^^^ b = b ^^^ a
  xor_zero : ∀ a : H, a ^^^ 0 = a
  xor_self : ∀ a : H, a ^^^ a = 0

instance : XorGroup Nat where
  xor_assoc := Nat.xor_assoc
  xor_comm := Nat.xor_comm
  xor_zero := Nat.xor_zero
  xor_self := Nat.xor_self

instance : XorGroup UInt8 where
  zero := UInt8.ofNat 0
  xor_assoc := UInt8.xor_assoc
  xor_comm := UInt8.xor_comm
  xor_zero _ := UInt8.xor_zero
  xor_self _ := UInt8.xor_self

/-- Place by place. -/
instance {ι H : Type} [XorGroup H] : XorGroup (ι → H) where
  xor a b i := a i ^^^ b i
  zero _ := 0
  xor_assoc _ _ _ := funext fun _ => XorGroup.xor_assoc _ _ _
  xor_comm _ _ := funext fun _ => XorGroup.xor_comm _ _
  xor_zero _ := funext fun _ => XorGroup.xor_zero _
  xor_self _ := funext fun _ => XorGroup.xor_self _

variable {H α : Type} [XorGroup H] {a b : H}

theorem zero_xor (a : H) : 0 ^^^ a = a := by rw [XorGroup.xor_comm, XorGroup.xor_zero]

theorem xor_xor_cancel_left (a b : H) : a ^^^ (a ^^^ b) = b := by
  rw [← XorGroup.xor_assoc, XorGroup.xor_self, zero_xor]

theorem xor_eq_self : a ^^^ b = a ↔ b = 0 := by
  refine ⟨?_, ?_⟩
  · intro h
    have hcancel := xor_xor_cancel_left a b
    rw [h, XorGroup.xor_self] at hcancel
    exact hcancel.symm
  · intro h
    rw [h, XorGroup.xor_zero]

theorem eq_of_xor_eq_zero (h : a ^^^ b = 0) : a = b := by
  have hcancel := xor_xor_cancel_left a b
  rw [h, XorGroup.xor_zero] at hcancel
  exact hcancel

def xorSum (l : List H) : H := l.foldr (· ^^^ ·) 0

@[simp] theorem xorSum_nil : xorSum ([] : List H) = 0 := rfl

@[simp] theorem xorSum_cons (a : H) (l : List H) : xorSum (a :: l) = a ^^^ xorSum l := rfl

theorem xorSum_append (l₁ l₂ : List H) : xorSum (l₁ ++ l₂) = xorSum l₁ ^^^ xorSum l₂ := by
  induction l₁ with
  | nil => exact (zero_xor _).symm
  | cons a l₁ ih => rw [List.cons_append, xorSum_cons, xorSum_cons, ih, XorGroup.xor_assoc]

theorem xorSum_perm {l₁ l₂ : List H} (h : l₁.Perm l₂) : xorSum l₁ = xorSum l₂ := by
  induction h with
  | nil => rfl
  | cons a _ ih => rw [xorSum_cons, xorSum_cons, ih]
  | swap a b l =>
    rw [xorSum_cons, xorSum_cons, xorSum_cons, xorSum_cons, ← XorGroup.xor_assoc,
      ← XorGroup.xor_assoc, XorGroup.xor_comm b a]
  | trans _ _ ih₁ ih₂ => exact ih₁.trans ih₂

/-! ## Only the parity counts -/

variable [DecidableEq α]

/-- Terms that all occur an even number of times cancel. -/
theorem xorSum_map_eq_zero (f : α → H) (l : List α) (heven : ∀ a, l.count a % 2 = 0) :
    xorSum (l.map f) = 0 := by
  -- the first term occurs a second time, and the rest without both is again even
  induction hn : l.length using Nat.strong_induction_on generalizing l with
  | _ n ih =>
    cases l with
    | nil => rfl
    | cons a l =>
      have hmem : a ∈ l := by
        refine List.count_pos_iff.mp ?_
        have ha := heven a
        rw [List.count_cons_self] at ha
        omega
      have hrest : ∀ b, (l.erase a).count b % 2 = 0 := by
        intro b
        have hb := heven b
        rw [(List.perm_cons_erase hmem).cons a |>.count_eq b] at hb
        simp only [List.count_cons] at hb
        omega
      have hlength : (l.erase a).length < n := by
        rw [← hn, List.length_cons]
        exact Nat.lt_succ_of_le (List.length_erase_le)
      rw [List.map_cons, xorSum_cons, xorSum_perm ((List.perm_cons_erase hmem).map f), List.map_cons,
        xorSum_cons, xor_xor_cancel_left]
      exact ih _ hlength _ hrest rfl

/-- Every term occurs equally often up to pairs. -/
def SameParity (l₁ l₂ : List α) : Prop := ∀ a, l₁.count a % 2 = l₂.count a % 2

theorem SameParity.of_perm {l₁ l₂ : List α} (h : l₁.Perm l₂) : SameParity l₁ l₂ :=
  fun a => congrArg (· % 2) (h.count_eq a)

theorem SameParity.not_cons (a : α) (l : List α) : ¬ SameParity (a :: l) l := by
  intro h
  have ha := h a
  rw [List.count_cons_self] at ha
  omega

theorem xorSum_map_congr (f : α → H) {l₁ l₂ : List α} (h : SameParity l₁ l₂) :
    xorSum (l₁.map f) = xorSum (l₂.map f) := by
  have heven : ∀ a, (l₁ ++ l₂).count a % 2 = 0 := by
    intro a
    have ha := h a
    rw [List.count_append]
    omega
  have hzero := xorSum_map_eq_zero f (l₁ ++ l₂) heven
  rw [List.map_append, xorSum_append] at hzero
  exact eq_of_xor_eq_zero hzero

/-- A bit for each term shows whether the term occurs an odd number of times. -/
theorem testBit_xorSum {code : α → Nat} (hcode : Function.Injective code) (l : List α) (a : α) :
    (xorSum (l.map fun b => 2 ^ code b)).testBit (code a) = decide (l.count a % 2 = 1) := by
  induction l with
  | nil => simp
  | cons b l ih =>
    rw [List.map_cons, xorSum_cons, Nat.testBit_xor, ih, Nat.testBit_two_pow, List.count_cons]
    by_cases hab : b = a
    · subst hab
      rcases Nat.mod_two_eq_zero_or_one (l.count b) with h | h
      · simp [h, Nat.add_mod]
      · simp [h, Nat.add_mod]
    · simp [hab, hcode.ne hab]

theorem sameParity_of_xorSum_eq {code : α → Nat} (hcode : Function.Injective code)
    {l₁ l₂ : List α}
    (h : xorSum (l₁.map fun b => 2 ^ code b) = xorSum (l₂.map fun b => 2 ^ code b)) :
    SameParity l₁ l₂ := by
  intro a
  have hbit := congrArg (fun n => Nat.testBit n (code a)) h
  simp only [testBit_xorSum hcode, decide_eq_decide] at hbit
  omega

end Axionvera.Lib.ExclusiveOr

import Mathlib.Data.List.Basic

/-! # Steps that write what one owner owns

A state is made of a slot for each owner, of totals, and of a common part that
the steps considered here only read. A step of one owner writes that owner's
slot, from the slot and the common part alone, and adds to the totals. Steps of
different owners then commute (`Owned.comm`), and neither sees the other
(`Owned.unseen`). -/
namespace Axionvera.Lib.Ownership

variable {σ κ ρ γ μ α : Type}

/-- How a state is made up. -/
structure Parts (σ κ ρ γ μ : Type) where
  slot : σ → κ → ρ
  common : σ → γ
  total : σ → μ
  ext : ∀ s t, (∀ k, slot s k = slot t k) → common s = common t → total s = total t → s = t

/-- `f` is a step of owner `k`, which changes the totals by `add`. -/
structure Owned (P : Parts σ κ ρ γ μ) (k : κ) (f : σ → σ) (add : μ → μ) : Prop where
  other : ∀ s j, j ≠ k → P.slot (f s) j = P.slot s j
  common : ∀ s, P.common (f s) = P.common s
  own : ∀ s t, P.slot s k = P.slot t k → P.common s = P.common t →
    P.slot (f s) k = P.slot (f t) k
  total : ∀ s, P.total (f s) = add (P.total s)

variable {P : Parts σ κ ρ γ μ} {j k : κ} {f g : σ → σ} {add add' : μ → μ}

/-- What can be told from an owner's slot and the common part does not change
under another owner's step. -/
theorem Owned.unseen (hg : Owned P j g add) (hjk : k ≠ j) {see : σ → α}
    (hsee : ∀ s t, P.slot s k = P.slot t k → P.common s = P.common t → see s = see t) (s : σ) :
    see (g s) = see s :=
  hsee _ _ (hg.other s k hjk) (hg.common s)

/-- The slots after two steps, seen from the first owner. -/
theorem Owned.slot_comm (hf : Owned P k f add) (hg : Owned P j g add') (hjk : k ≠ j) (s : σ) :
    P.slot (g (f s)) k = P.slot (f (g s)) k := by
  rw [hg.other _ _ hjk]
  exact (hg.unseen hjk (fun s t => hf.own s t) s).symm

/-- **Steps of different owners commute.** -/
theorem Owned.comm (hf : Owned P k f add) (hg : Owned P j g add') (hjk : k ≠ j)
    (hadd : ∀ m, add (add' m) = add' (add m)) (s : σ) : f (g s) = g (f s) := by
  refine P.ext _ _ (fun i => ?_) ?_ ?_
  · by_cases hik : i = k
    · subst hik
      exact (hf.slot_comm hg hjk s).symm
    · by_cases hij : i = j
      · subst hij
        exact hg.slot_comm hf hjk.symm s
      · rw [hf.other _ _ hik, hg.other _ _ hij, hg.other _ _ hij, hf.other _ _ hik]
  · rw [hf.common, hg.common, hg.common, hf.common]
  · rw [hf.total, hg.total, hg.total, hf.total, hadd]

end Axionvera.Lib.Ownership

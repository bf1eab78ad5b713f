import Axionvera.Vault.Principal

/-! # The utilization curve

A distribution is scaled by the multiplier that the configured curve has at the
current utilization. The code narrows the utilization to 32 bits before it looks
it up, so the curve is followed exactly as long as nothing is cut off: far above
the target the multiplier is that of a low utilization. -/
namespace Axionvera.Vault.Curve
open Axionvera.Lib.Fallible Axionvera.Lib.Host Axionvera.Lib.MachineInt
open Axionvera.Vault.Errors Axionvera.Vault.Types Axionvera.Vault.Storage Axionvera.Vault.Contract
open Axionvera.Vault.Chain Axionvera.Vault.Accounts Axionvera.Vault.Principal

variable {total target : Int} {points : List MultiplierPoint} {m : UInt32}

/-- Deposits over target in basis points, rounded down. -/
def utilizationBps (total target : Int) : Int := total * 10000 / target

/-- What a curve says at a utilization: the multiplier of the first point at or
above it, or else of the last point. -/
def curveAt (utilization : Int) (points : List MultiplierPoint) : Option UInt32 :=
  ((points.find? fun p => decide (utilization ≤ p.utilizationBps.toNat)).or points.getLast?).map
    MultiplierPoint.multiplierBps

theorem selectMultiplier_eq (n : Nat) (selected : UInt32) (points : List MultiplierPoint) :
    selectMultiplier n selected points =
      ((points.find? fun p => decide ((n : Int) ≤ p.utilizationBps.toNat)).map
        MultiplierPoint.multiplierBps).getD selected := by
  induction points with
  | nil => rfl
  | cons p rest ih =>
    unfold selectMultiplier
    by_cases hp : n ≤ p.utilizationBps.toNat
    · simp [hp]
    · simp [hp, ih]

/-- The loop, begun with the last point selected, reads the curve. -/
theorem curveAt_eq (n : Nat) {last : MultiplierPoint} (hlast : points.getLast? = some last) :
    curveAt n points = some (selectMultiplier n last.multiplierBps points) := by
  rw [curveAt, hlast, selectMultiplier_eq]
  cases points.find? fun p => decide ((n : Int) ≤ p.utilizationBps.toNat) with
  | none => rfl
  | some p => rfl

/-- The code reads the curve at the utilization that the cast leaves. -/
theorem calculateUtilizationMultiplier_eq_ok (h0 : 0 ≤ total) (ht : 0 < target)
    (hne : points ≠ []) : calculateUtilizationMultiplier total target points = .ok m ↔
      total * 10000 ≤ i128Max ∧ curveAt (asU32 (utilizationBps total target)) points = some m := by
  have hprod : 0 ≤ total * 10000 := Int.mul_nonneg h0 (by decide)
  have hfit : InI128 (total * 10000) ↔ total * 10000 ≤ i128Max :=
    ⟨fun h => h.2, fun h => ⟨by unfold i128Min; omega, h⟩⟩
  cases points with
  | nil => exact absurd rfl hne
  | cons p rest =>
    rw [curveAt_eq _ (List.getLast?_eq_some_getLast (List.cons_ne_nil p rest))]
    simp only [calculateUtilizationMultiplier, if_neg (not_le.mpr ht), bind_eq_ok, okOr_eq_ok,
      checkedMul_eq_some, and_assoc, exists_and_left, ↓existsAndEq, checkedDiv_of_pos hprod ht,
      Option.some.injEq, exists_eq_left', true_and, pure_eq_ok, hfit, utilizationBps]
    exact and_congr_right fun _ => eq_comm

/-- A curve that takes every utilization of 32 bits for its first point and every
greater one for its last. -/
def cliff : List MultiplierPoint := [⟨4294967295, 20000⟩, ⟨4294967295, 10000⟩]

theorem curveAt_cliff {x : Int} (h : x < u32Size) : curveAt x cliff = some 20000 := by
  have hfirst : x ≤ 4294967295 := by
    unfold u32Size at h
    omega
  simp [curveAt, cliff, hfirst]

theorem curveAt_cliff_above {x : Int} (h : (u32Size : Int) ≤ x) : curveAt x cliff = some 10000 := by
  have hpast : ¬ x ≤ 4294967295 := by
    unfold u32Size at h
    omega
  simp [curveAt, cliff, hpast]

/-- **Where the curve is followed.** For given deposits and target the multiplier
is the one that the curve has at their utilization, whatever the curve, exactly
if the utilization is below `2 ^ 32` basis points or its product overflows and
nothing is returned. -/
theorem multiplier_follows_curve_iff (total target : Int) (h0 : 0 ≤ total) (ht : 0 < target) :
    (∀ points, points ≠ [] → validateUtilizationMultipliers points = .ok () →
      ∀ m, calculateUtilizationMultiplier total target points = .ok m →
        curveAt (utilizationBps total target) points = some m) ↔
    (total * 10000 ≤ i128Max → utilizationBps total target < u32Size) := by
  have hutil : 0 ≤ utilizationBps total target :=
    Int.ediv_nonneg (Int.mul_nonneg h0 (by decide)) ht.le
  refine ⟨?_, ?_⟩
  · -- beyond the cast the cliff tells the two utilizations apart
    intro h hfit
    by_contra hlarge
    have hok : calculateUtilizationMultiplier total target cliff = .ok 20000 :=
      (calculateUtilizationMultiplier_eq_ok h0 ht (List.cons_ne_nil _ _)).mpr
        ⟨hfit, curveAt_cliff (asU32_lt _)⟩
    have hcurve := h cliff (List.cons_ne_nil _ _) rfl _ hok
    rw [curveAt_cliff_above (not_lt.mp hlarge)] at hcurve
    exact absurd (Option.some.inj hcurve) (by decide)
  · intro h points hne _ m hok
    obtain ⟨hfit, hcurve⟩ := (calculateUtilizationMultiplier_eq_ok h0 ht hne).mp hok
    rwa [asU32_of_lt hutil (h hfit)] at hcurve

/-- Generous while the vault is at most half full. -/
def bonus : List MultiplierPoint := [⟨5000, 20000⟩, ⟨10000, 15000⟩, ⟨20000, 10000⟩]

theorem multiplier_follows_curve_iff_bonus :
    calculateUtilizationMultiplier 60 100 bonus = .ok 15000 ∧
      curveAt (utilizationBps 60 100) bonus = some 15000 := by
  have hok : calculateUtilizationMultiplier 60 100 bonus = .ok 15000 := rfl
  exact ⟨hok, (multiplier_follows_curve_iff 60 100 (by decide) (by decide)).mpr (fun _ => by decide)
    bonus (List.cons_ne_nil _ _) rfl 15000 hok⟩

/-- A vault with a target of one unit that holds 429497 of them: its utilization
is past `2 ^ 32` basis points, and it pays the bonus of an empty vault. -/
theorem multiplier_of_truncated_utilization : ∃ w : World Bank, Reachable bank w ∧
    w.storage.targetDeposits = some 1 ∧ w.storage.utilizationMultipliers = some bonus ∧
    poolTotal w.storage .legacy = 429497 ∧ multiplier w.storage = .ok 20000 ∧
    curveAt (utilizationBps 429497 1) bonus = some 10000 := by
  have hreach := session_reachable 1000000 ⟨0, 1, bonus⟩ (rfl)
    [(10, .deposit alice 429497)]
  exact ⟨_, hreach, rfl, rfl, rfl, rfl, rfl⟩

end Axionvera.Vault.Curve

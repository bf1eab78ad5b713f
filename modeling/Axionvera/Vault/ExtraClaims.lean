import Axionvera.Lib.Resettling
import Axionvera.Vault.Rewards

/-! # Claiming more often

Two runs from one start, of which the second makes the calls of the first and
some claims of one user on one pool besides. A claim settles its user and rounds
down, so that each of these claims costs the user at most one unit, and it touches
nobody else. What a run pays out depends on its calls only: time, failed calls and
the tokens outside are free to differ. -/
namespace Axionvera.Vault.ExtraClaims
open Axionvera.Lib.Host Axionvera.Lib.MachineInt Axionvera.Lib.Transition
open Axionvera.Lib.RewardPool Axionvera.Lib.Resettling
open Axionvera.Vault.Types Axionvera.Vault.Storage Axionvera.Vault.Contract Axionvera.Vault.Chain
open Axionvera.Vault.Accounts Axionvera.Vault.StorageSpec Axionvera.Vault.Effects
open Axionvera.Vault.Refinement Axionvera.Vault.Principal Axionvera.Vault.Rewards

variable {τ : Type} {D : Deployment τ} {w₀ w w' w₁ : World τ} {h h' : List (Entry τ)}
  {p q : PoolId} {u v : Address} {n : Nat} {e : Entry τ} {c : Call} {cs : List Call}

/-! ## The calls of a run -/

def callOf : Entry τ → Option Call
  | .ok _ call _ _ => some call
  | .failed _ _ => none
  | .outside => none

/-- The calls that succeed, latest first. -/
def callsOf (h : List (Entry τ)) : List Call := h.filterMap callOf

theorem callsOf_cons_none (hnone : callOf e = none) : callsOf (e :: h) = callsOf h :=
  List.filterMap_cons_none hnone

theorem callsOf_cons_some (hsome : callOf e = some c) : callsOf (e :: h) = c :: callsOf h :=
  List.filterMap_cons_some hsome

/-- The second list is the first with `n` claims of `u` on the pool inserted. -/
inductive Inserted (p : PoolId) (u : Address) : Nat → List Call → List Call → Prop
  | nil : Inserted p u 0 [] []
  | keep {n : Nat} {c : Call} {cs cs' : List Call} : Inserted p u n cs cs' →
      Inserted p u n (c :: cs) (c :: cs')
  | insert {n : Nat} {c : Call} {cs cs' : List Call} : ClaimOf p u c → Inserted p u n cs cs' →
      Inserted p u (n + 1) cs (c :: cs')

/-- A step that is no call which succeeds writes nothing and pays nothing. -/
theorem rest_of_step (hs : ChainStep D w e w') (hnone : callOf e = none) :
    w'.storage = w.storage ∧ ∀ q v, paidBy q v e = 0 := by
  cases hs with
  | ok => cases hnone
  | failed _ hfails =>
    rw [invoke_of_not_returns hfails]
    exact ⟨rfl, fun _ _ => rfl⟩
  | outside => exact ⟨rfl, fun _ _ => rfl⟩

theorem paidAfter_move (q : PoolId) (e : Entry τ) (h : List (Entry τ)) :
    paidAfter (move q e) (fun v => paidOut q v h) = fun v => paidOut q v (e :: h) := by
  funext v
  rw [paidAfter, paidTo_move, paidOut_cons]

/-- A run whose latest call is `c`, up to what came after that call. -/
theorem latest_call (hr : ChainRun D w₀ h w) (hcalls : callsOf h = c :: cs) :
    ∃ h₁ w₁ env value w₂, ChainRun D w₀ h₁ w₁ ∧ callsOf h₁ = cs ∧
      ChainStep D w₁ (.ok env c w₁ value) w₂ ∧ w₂.storage = w.storage ∧
      ∀ q v, paidOut q v (.ok env c w₁ value :: h₁) = paidOut q v h := by
  induction hr with
  | nil => cases hcalls
  | @snoc h w w' e hr hs ih =>
    cases hcall : callOf e with
    | none =>
      obtain ⟨hstorage, hpaid⟩ := rest_of_step hs hcall
      rw [callsOf_cons_none hcall] at hcalls
      obtain ⟨h₁, w₁, env, value, w₂, hr₁, hcs, hstep, heq, hout⟩ := ih hcalls
      refine ⟨h₁, w₁, env, value, w₂, hr₁, hcs, hstep, heq.trans hstorage.symm, ?_⟩
      intro q v
      rw [hout, paidOut_cons, hpaid, zero_add]
    | some c' =>
      rw [callsOf_cons_some hcall] at hcalls
      obtain ⟨rfl, rfl⟩ := List.cons_eq_cons.mp hcalls
      cases hs with
      | ok hcontract hret =>
        obtain rfl := Option.some.inj hcall
        exact ⟨h, w, _, _, w', hr, rfl, .ok hcontract hret, rfl, fun _ _ => rfl⟩
      | failed => cases hcall
      | outside => cases hcall

theorem storage_of_no_calls (hr : ChainRun D w₀ h w) (hcalls : callsOf h = []) :
    w.storage = w₀.storage ∧ ∀ q v, paidOut q v h = 0 := by
  induction hr with
  | nil => exact ⟨rfl, fun _ _ => rfl⟩
  | @snoc h w w' e hr hs ih =>
    cases hcall : callOf e with
    | none =>
      obtain ⟨hstorage, hpaid⟩ := rest_of_step hs hcall
      rw [callsOf_cons_none hcall] at hcalls
      obtain ⟨hbefore, hout⟩ := ih hcalls
      refine ⟨hstorage.trans hbefore, ?_⟩
      intro q v
      rw [paidOut_cons, hpaid, hout, add_zero]
    | some c =>
      rw [callsOf_cons_some hcall] at hcalls
      cases hcalls

/-! ## The same call in both runs -/

theorem multiplierBps_congr {s t : Storage} (hconfig : configOf t = configOf s)
    (htotal : poolTotal t .legacy = poolTotal s .legacy) : multiplierBps t = multiplierBps s := by
  have htarget : t.targetDeposits = s.targetDeposits := congrArg Config.targetDeposits hconfig
  have hcurve : t.utilizationMultipliers = s.utilizationMultipliers :=
    congrArg Config.utilizationMultipliers hconfig
  unfold multiplierBps multiplier
  rw [htotal, htarget, hcurve]

/-- A call does the same to a pool wherever the configuration and the deposits are
the same. -/
theorem alike_of_call {value value' : Value} (hconfig : configOf w'.storage = configOf w.storage)
    (htotal : poolTotal w'.storage .legacy = poolTotal w.storage .legacy) (q : PoolId) (c : Call) :
    Alike (callMove w value q c) (callMove w' value' q c) := by
  cases c with
  | distributeRewards amount =>
    simp only [callMove]
    split
    · refine .distribute ?_
      simp only [distributionOf, effective, multiplierBps_congr hconfig htotal]
    · exact .idle
  | distributeRewardsForAsset _ a amount =>
    simp only [callMove]
    split
    · exact .distribute rfl
    · exact .idle
  | deposit | withdraw | lock | claimRewards | depositAsset | withdrawAsset
  | claimRewardsForAsset =>
    simp only [callMove]
    split
    · exact .touch
    · exact .idle
  | _ => exact .idle

/-! ## Both runs -/

/-- How many claims more an account has made. -/
def extra (p : PoolId) (u : Address) (n : Nat) (q : PoolId) (v : Address) : Nat :=
  if q = p ∧ v = u then n else 0

/-- The second run trails the first in every pool. -/
def Compared (p : PoolId) (u : Address) (n : Nat) (s : Storage) (h : List (Entry τ)) (s' : Storage)
    (h' : List (Entry τ)) : Prop :=
  ∀ q, Trails REWARD_INDEX_SCALE (extra p u n q) (pool s q) (fun v => paidOut q v h)
    (pool s' q) fun v => paidOut q v h'

/-- What a claim is for the pools. -/
theorem callMove_claim (hc : ClaimOf p u c) (value : Value) : ∃ x now,
    callMove w value p c = .touch u 0 x now ∧ ∀ q, q ≠ p → callMove w value q c = .idle := by
  cases c with
  | claimRewards v =>
    obtain ⟨rfl, rfl⟩ := hc
    refine ⟨_, _, by rw [callMove, if_pos rfl], ?_⟩
    intro q hq
    rw [callMove, if_neg hq]
  | claimRewardsForAsset v a =>
    obtain ⟨rfl, rfl⟩ := hc
    refine ⟨_, _, by rw [callMove, if_pos rfl], ?_⟩
    intro q hq
    rw [callMove, if_neg hq]
  | _ => cases hc

theorem extra_succ (p : PoolId) (u : Address) (n : Nat) :
    extra p u (n + 1) p = fun v => extra p u n p v + if v = u then 1 else 0 := by
  funext v
  unfold extra
  split <;> simp_all

theorem extra_other (hq : q ≠ p) (n m : Nat) : extra p u n q = extra p u m q := by
  funext v
  simp [extra, hq]

theorem Compared.keep {env env' : Env} {value value' : Value} {w₂ w₂' : World τ}
    (hcompared : Compared p u n w.storage h w'.storage h')
    (hconfig : configOf w'.storage = configOf w.storage)
    (hr : Ready w.storage) (hr' : Ready w'.storage)
    (hs : ChainStep D w (.ok env c w value) w₂) (hs' : ChainStep D w' (.ok env' c w' value') w₂') :
    Compared p u n w₂.storage (.ok env c w value :: h) w₂'.storage (.ok env' c w' value' :: h') := by
  intro q
  have halike : Alike (callMove w value q c) (callMove w' value' q c) :=
    alike_of_call hconfig (hcompared .legacy).total q c
  have hstep := (hcompared q).step scale_pos halike (pool_step hr hs q) (pool_step hr' hs' q)
  rwa [← paidAfter_move, ← paidAfter_move]

theorem Compared.insert {env : Env} {value : Value} {w₂ : World τ}
    (hcompared : Compared p u n w.storage h w'.storage h') (hr' : Ready w'.storage)
    (hclaim : ClaimOf p u c) (hs' : ChainStep D w' (.ok env c w' value) w₂) :
    Compared p u (n + 1) w.storage h w₂.storage (.ok env c w' value :: h') := by
  intro q
  obtain ⟨x, now, hmine, hothers⟩ := @callMove_claim τ w' p u c hclaim value
  have hstep := pool_step hr' hs' q
  rw [← paidAfter_move]
  by_cases hq : q = p
  · subst hq
    have hmove : move q (.ok env c w' value) = .touch u 0 x now := hmine
    rw [hmove] at hstep ⊢
    rw [extra_succ]
    exact (hcompared q).settle_step scale_pos hstep
  · have hmove : move q (.ok env c w' value) = .idle := hothers q hq
    rw [hmove] at hstep ⊢
    rw [extra_other hq (n + 1) n]
    exact (hcompared q).idle_step hstep

/-- **The runs compared**, by induction on the second one. -/
theorem compared_of_runs (h0 : Started D w₀) (hr : ChainRun D w₀ h w) (hr' : ChainRun D w₀ h' w')
    (hins : Inserted p u n (callsOf h) (callsOf h')) :
    Compared p u n w.storage h w'.storage h' := by
  induction hr' generalizing h w n with
  | nil =>
    obtain ⟨rfl, hcalls⟩ : n = 0 ∧ callsOf h = [] := by
      generalize callsOf h = cs at hins
      cases hins
      exact ⟨rfl, rfl⟩
    obtain ⟨hstorage, hout⟩ := storage_of_no_calls hr hcalls
    intro q
    have hnone : extra p u 0 q = fun _ => 0 := by
      funext v
      simp [extra]
    rw [hnone, hstorage]
    simp only [hout]
    exact .refl _ _ _
  | @snoc h' w₁' w₂' e' hr' hs' ih =>
    have hready' := ready_of_run h0 hr'
    cases hcall : callOf e' with
    | none =>
      obtain ⟨hstorage, hpaid⟩ := rest_of_step hs' hcall
      rw [callsOf_cons_none hcall] at hins
      intro q
      have hbefore := ih hr hins q
      simp only [paidOut_cons, hpaid, zero_add, hstorage]
      exact hbefore
    | some c =>
      rw [callsOf_cons_some hcall] at hins
      cases hs' with
      | failed => cases hcall
      | outside => cases hcall
      | ok hcontract hret =>
        obtain rfl := Option.some.inj hcall
        generalize hcalls : callsOf h = cs at hins
        cases hins with
        | insert hclaim hins =>
          exact (ih hr (hcalls ▸ hins)).insert hready' hclaim (.ok hcontract hret)
        | keep hins =>
          obtain ⟨h₁, w₁, env, value, w₂, hr₁, rfl, hstep, hstorage, hout⟩ := latest_call hr hcalls
          have hconfig := (configOf_of_run h0 hr').trans (configOf_of_run h0 hr₁).symm
          have hkept := (ih hr₁ hins).keep hconfig (ready_of_run h0 hr₁) hready' hstep
            (.ok hcontract hret)
          intro q
          have hq := hkept q
          simp only [hout, hstorage] at hq
          exact hq

/-- **Interacting more often never pays more.** For two runs from one start, of
which the second makes the successful calls of the first and `n` claims of `u` on
the pool besides, what `u` was paid and is owed on that pool is no more and at most
`n` less in the second, and every other account of every pool comes out the same. -/
theorem extra_claims_never_pay (h0 : Started D w₀) (hr : ChainRun D w₀ h w)
    (hr' : ChainRun D w₀ h' w') (hins : Inserted p u n (callsOf h) (callsOf h')) :
    (∀ q v, (q ≠ p ∨ v ≠ u) →
      paidOut q v h' + pending w'.storage q v = paidOut q v h + pending w.storage q v) ∧
    paidOut p u h' + pending w'.storage p u ≤ paidOut p u h + pending w.storage p u ∧
    paidOut p u h + pending w.storage p u ≤ paidOut p u h' + pending w'.storage p u + n := by
  have hcompared := compared_of_runs h0 hr hr' hins
  have hle := fun q v => (hcompared q).le scale_pos v
  have hge := fun q v => (hcompared q).le_add scale_pos v
  refine ⟨?_, hle p u, ?_⟩
  · intro q v hother
    have hnone : extra p u n q v = 0 := if_neg (not_and_or.mpr hother)
    have hupper := hge q v
    rw [hnone, Nat.cast_zero, add_zero] at hupper
    exact le_antisymm (hle q v) hupper
  · have hself : extra p u n p u = n := if_pos ⟨rfl, rfl⟩
    have hupper := hge p u
    rw [hself] at hupper
    exact hupper

/-- Two thirds of two distributions. -/
def patientCalls : List (Nat × Call) :=
  [(10, .deposit alice 2), (11, .deposit bob 1), (12, .distributeRewards 100000),
    (14, .distributeRewards 100000)]

/-- The same with a claim between them. -/
def eagerCalls : List (Nat × Call) :=
  [(10, .deposit alice 2), (11, .deposit bob 1), (12, .distributeRewards 100000),
    (13, .claimRewards alice), (14, .distributeRewards 100000)]

theorem extra_claims_never_pay_eager :
    paidOut .legacy alice (session 1000000 plainOpening patientCalls).1 +
      pending (session 1000000 plainOpening patientCalls).2.storage .legacy alice = 133333 ∧
    paidOut .legacy alice (session 1000000 plainOpening eagerCalls).1 +
      pending (session 1000000 plainOpening eagerCalls).2.storage .legacy alice = 133332 ∧
    paidOut .legacy bob (session 1000000 plainOpening eagerCalls).1 +
        pending (session 1000000 plainOpening eagerCalls).2.storage .legacy bob =
      paidOut .legacy bob (session 1000000 plainOpening patientCalls).1 +
        pending (session 1000000 plainOpening patientCalls).2.storage .legacy bob := by
  have hpatient : callsOf (session 1000000 plainOpening patientCalls).1 =
      (patientCalls.map Prod.snd).reverse := rfl
  have heager : callsOf (session 1000000 plainOpening eagerCalls).1 =
      (eagerCalls.map Prod.snd).reverse := rfl
  have hins : Inserted .legacy alice 1 (callsOf (session 1000000 plainOpening patientCalls).1)
      (callsOf (session 1000000 plainOpening eagerCalls).1) := by
    rw [hpatient, heager]
    exact .keep (.insert ⟨rfl, rfl⟩ (.keep (.keep (.keep .nil))))
  have hcost := extra_claims_never_pay (started_opened 1000000 plainOpening plainOpening_rich)
    (session_run 1000000 plainOpening patientCalls) (session_run 1000000 plainOpening eagerCalls) hins
  exact ⟨rfl, rfl, hcost.1 .legacy bob (Or.inr (by decide))⟩

end Axionvera.Vault.ExtraClaims

import Axionvera.Vault.Principal

/-! # Rewards along a run

What users were paid and what they are owed, against what was distributed: call
by call (`pending_of_call`), against the exact proportional shares
(`paid_add_pending_bounds`) and in total (`legacy_rewards_le_effective`). -/
namespace Axionvera.Vault.Rewards
open Axionvera.Lib.Host Axionvera.Lib.KeyValue Axionvera.Lib.MachineInt Axionvera.Lib.Transition
open Axionvera.Lib.RewardPool Axionvera.Lib.RewardLedger
open Axionvera.Vault.Types Axionvera.Vault.Storage Axionvera.Vault.Contract Axionvera.Vault.Chain
open Axionvera.Vault.Accounts Axionvera.Vault.StorageSpec Axionvera.Vault.Effects
open Axionvera.Vault.Refinement Axionvera.Vault.Principal

variable {τ : Type} {D : Deployment τ} {env : Env} {w₀ w w' : World τ} {h : List (Entry τ)}
variable {call : Call} {value : Value}

/-! ## One call -/

/-- The call distributes rewards to the pool. -/
def DistributesTo (p : PoolId) : Call → Prop
  | .distributeRewards _ => p = .legacy
  | .distributeRewardsForAsset _ a _ => p = .asset a
  | _ => False

/-- The call is a claim of `u` on the pool. -/
def ClaimOf (p : PoolId) (u : Address) : Call → Prop
  | .claimRewards v => p = .legacy ∧ v = u
  | .claimRewardsForAsset v a => p = .asset a ∧ v = u
  | _ => False

instance (p : PoolId) (u : Address) (call : Call) : Decidable (ClaimOf p u call) := by
  cases call <;> unfold ClaimOf <;> infer_instance

/-- Only claims pay, and only their own user. -/
theorem callMove_paidTo {p : PoolId} {u : Address} (hc : ¬ ClaimOf p u call) :
    (callMove w value p call).paidTo u = 0 := by
  cases call with
  | claimRewards v =>
    rw [callMove]
    split
    · rename_i hp
      exact if_neg fun hv => hc ⟨hp, hv⟩
    · rfl
  | claimRewardsForAsset v a =>
    rw [callMove]
    split
    · rename_i hp
      exact if_neg fun hv => hc ⟨hp, hv⟩
    · rfl
  | deposit | withdraw | lock | distributeRewards | depositAsset | withdrawAsset
  | distributeRewardsForAsset =>
    rw [callMove]
    split
    · simp [Move.paidTo]
    · rfl
  | _ => rfl

theorem callMove_ne_distribute {p : PoolId} (hd : ¬ DistributesTo p call)
    (d : Distribution Address) : callMove w value p call ≠ .distribute d := by
  intro hm
  cases call with
  | distributeRewards =>
    rw [callMove, if_neg (show ¬ p = .legacy from hd)] at hm
    cases hm
  | distributeRewardsForAsset _ a =>
    rw [callMove, if_neg (show ¬ p = .asset a from hd)] at hm
    cases hm
  | deposit | withdraw | lock | claimRewards | depositAsset | withdrawAsset | claimRewardsForAsset =>
    rw [callMove] at hm
    split at hm
    · cases hm
    · cases hm
  | _ => cases hm

/-- **No reward is stolen or counted twice.** A successful call leaves everybody's
pending rewards in every pool exactly as they were, except that a distribution
to the pool can raise them and the user's own claim lowers them by exactly what
it pays out. -/
theorem pending_of_call (hr : Reachable D w) (hret : Returns (exec D.client call) env w value w')
    (p : PoolId) (u : Address) :
    (¬ DistributesTo p call → ¬ ClaimOf p u call →
      pending w'.storage p u = pending w.storage p u) ∧
    (DistributesTo p call → pending w.storage p u ≤ pending w'.storage p u) ∧
    (ClaimOf p u call → ∃ paid, value = .int paid ∧ 0 ≤ paid ∧ Pays D env w u paid w'.tokens ∧
      pending w'.storage p u = pending w.storage p u - paid) := by
  have hready := ready_of_reachable hr
  have heff := effect_of_returns hready hret
  have hstep := effect_step hready.sound heff p
  refine ⟨fun hd hc => ?_, fun hd => ?_, fun hc => ?_⟩
  · have hp := hstep.pending_eq (callMove_ne_distribute hd) u
    rw [callMove_paidTo hc, sub_zero] at hp
    exact hp
  · cases heff with
    | distributeRewards =>
      obtain rfl : p = .legacy := hd
      exact hstep.pending_le scale_pos (hready.sound.good _) u
    | distributeRewardsForAsset =>
      obtain rfl := hd
      rw [callMove, if_pos rfl] at hstep
      exact hstep.pending_le scale_pos (hready.sound.good _) u
    | _ => cases hd
  · cases heff with
    | @claimRewards v _ _ _ _ _ _ hpaid hpay =>
      obtain ⟨rfl, rfl⟩ := hc
      have hp := hstep.pending_eq (fun d hm => by cases hm) v
      rw [callMove, if_pos rfl, Move.paidTo, if_pos rfl] at hp
      refine ⟨_, rfl, ?_, hpay, hp⟩
      rw [hpaid]
      exact claimable_nonneg hready.sound _ _ _
    | @claimRewardsForAsset v _ _ _ _ _ _ _ _ hpaid hpay =>
      obtain ⟨rfl, rfl⟩ := hc
      rw [callMove, if_pos rfl] at hstep
      have hp := hstep.pending_eq (fun d hm => by cases hm) v
      rw [Move.paidTo, if_pos rfl] at hp
      refine ⟨_, rfl, ?_, hpay, hp⟩
      rw [hpaid]
      exact claimable_nonneg hready.sound _ _ _
    | _ => cases hc

/-- Half of the stake, then rewards, then nothing claimed yet. -/
def earningSession : List (Entry Bank) × World Bank :=
  session 1000000 plainOpening [(10, .deposit alice 30),
    (11, .deposit bob 10), (12, .distributeRewards 200000)]

theorem plainOpening_rich :
    (exec bank.client plainOpening.call openEnv (unopened 1000000)).isOk = true := rfl

theorem earningSession_reachable : Reachable bank earningSession.2 :=
  session_reachable 1000000 plainOpening plainOpening_rich _

theorem pending_of_call_claim : pending earningSession.2.storage .legacy alice = 150000 ∧
    ∃ paid w', Returns (exec bank.client (.claimRewards alice)) openEnv earningSession.2 (.int paid) w' ∧
      pending w'.storage .legacy alice = 150000 - paid ∧
      pending w'.storage .legacy bob = pending earningSession.2.storage .legacy bob := by
  have hpend : pending earningSession.2.storage .legacy alice = 150000 := rfl
  obtain ⟨value, hret⟩ := returns_of_isOk
    (m := exec bank.client (.claimRewards alice)) (r := openEnv) (s := earningSession.2)
    (rfl)
  obtain ⟨paid, rfl, _, _, hp⟩ := (pending_of_call earningSession_reachable hret .legacy alice).2.2
    ⟨rfl, rfl⟩
  have hbob := (pending_of_call earningSession_reachable hret .legacy bob).1 (by simp [DistributesTo])
    (by simp [ClaimOf, alice, bob])
  exact ⟨hpend, paid, _, hret, by rw [hp, hpend], hbob⟩

/-! ## Whole runs -/

/-- What one step of the chain pays to `u` as rewards of the pool. -/
def paidBy (p : PoolId) (u : Address) : Entry τ → Int
  | .ok _ (.claimRewards v) _ value => if p = .legacy ∧ v = u then amountOf value else 0
  | .ok _ (.claimRewardsForAsset v a) _ value => if p = .asset a ∧ v = u then amountOf value else 0
  | _ => 0

/-- All rewards of the pool that `u` was paid. -/
def paidOut (p : PoolId) (u : Address) (h : List (Entry τ)) : Int := (h.map (paidBy p u)).sum

theorem paidOut_cons (p : PoolId) (u : Address) (e : Entry τ) (h : List (Entry τ)) :
    paidOut p u (e :: h) = paidBy p u e + paidOut p u h := by
  rw [paidOut, List.map_cons, List.sum_cons]
  rfl

/-- The distribution that one step made to the pool, with the stakes it found. -/
def distributedBy (p : PoolId) : Entry τ → Option (Distribution Address)
  | .ok _ (.distributeRewards amount) pre _ =>
    if p = .legacy then some (distributionOf pre.storage .legacy (effective pre.storage amount.val))
    else none
  | .ok _ (.distributeRewardsForAsset _ a amount) pre _ =>
    if p = .asset a then some (distributionOf pre.storage (.asset a) amount.val) else none
  | _ => none

/-- All distributions to the pool, latest first. -/
def distributionsTo (p : PoolId) (h : List (Entry τ)) : List (Distribution Address) :=
  h.filterMap (distributedBy p)

/-- A successful call of `u` on the pool. -/
def callsBy (p : PoolId) (u : Address) : Entry τ → Bool
  | .ok _ (.deposit v _) _ _ => decide (p = .legacy ∧ v = u)
  | .ok _ (.withdraw v _) _ _ => decide (p = .legacy ∧ v = u)
  | .ok _ (.lock v _ _) _ _ => decide (p = .legacy ∧ v = u)
  | .ok _ (.unlockExpired v _) _ _ => decide (p = .legacy ∧ v = u)
  | .ok _ (.claimRewards v) _ _ => decide (p = .legacy ∧ v = u)
  | .ok _ (.depositAsset v a _) _ _ => decide (p = .asset a ∧ v = u)
  | .ok _ (.withdrawAsset v a _) _ _ => decide (p = .asset a ∧ v = u)
  | .ok _ (.claimRewardsForAsset v a) _ _ => decide (p = .asset a ∧ v = u)
  | _ => false

theorem paidTo_move (p : PoolId) (u : Address) (e : Entry τ) :
    (move p e).paidTo u = paidBy p u e := by
  cases e with
  | ok env call pre value =>
    have hother : ¬ ClaimOf p u call → (move p (.ok env call pre value)).paidTo u = 0 :=
      callMove_paidTo
    cases call with
    | claimRewards v => by_cases hp : p = .legacy <;> simp [move, callMove, paidBy, Move.paidTo, hp]
    | claimRewardsForAsset v a =>
      by_cases hp : p = .asset a <;> simp [move, callMove, paidBy, Move.paidTo, hp]
    | _ => exact hother fun hc => hc
  | failed => rfl
  | outside => rfl

theorem paidTo_moves (p : PoolId) (u : Address) (h : List (Entry τ)) :
    paidTo u (h.map (move p)) = paidOut p u h := by
  induction h with
  | nil => rfl
  | cons e h ih =>
    rw [List.map_cons, paidTo_cons, paidTo_move, ih]
    rfl

theorem distribution_move (p : PoolId) (e : Entry τ) :
    Move.distribution (move p e) = distributedBy p e := by
  cases e with
  | ok env call pre value =>
    cases call with
    | distributeRewards amount =>
      by_cases hp : p = .legacy <;> simp [move, callMove, distributedBy, Move.distribution, hp]
    | distributeRewardsForAsset admin a amount =>
      by_cases hp : p = .asset a <;> simp [move, callMove, distributedBy, Move.distribution, hp]
    | deposit | withdraw | lock | claimRewards | depositAsset | withdrawAsset
    | claimRewardsForAsset =>
      rw [move, callMove]
      split
      · rfl
      · rfl
    | _ => rfl
  | failed => rfl
  | outside => rfl

theorem distributions_moves (p : PoolId) (h : List (Entry τ)) :
    distributions (h.map (move p)) = distributionsTo p h := by
  rw [distributions_eq_filterMap, List.filterMap_map]
  exact congrArg (h.filterMap ·) (funext (distribution_move p))

/-- Settling steps are calls of the user; unlocking is a call that settles
nothing. -/
theorem touches_le_calls (p : PoolId) (u : Address) (h : List (Entry τ)) :
    touches u (h.map (move p)) ≤ h.countP (callsBy p u) := by
  induction h with
  | nil => exact le_rfl
  | cons e h ih =>
    have hone : touches u [move p e] ≤ if callsBy p u e = true then 1 else 0 := by
      cases e with
      | ok env call pre value =>
        cases call with
        | deposit v | withdraw v | lock v | claimRewards v =>
          by_cases hp : p = .legacy <;> by_cases hv : v = u <;>
            simp [move, callMove, touches, callsBy, hp, hv]
        | depositAsset v a | withdrawAsset v a | claimRewardsForAsset v a =>
          by_cases hp : p = .asset a <;> by_cases hv : v = u <;>
            simp [move, callMove, touches, callsBy, hp, hv]
        | distributeRewards =>
          by_cases hp : p = .legacy <;> simp [move, callMove, touches, hp]
        | distributeRewardsForAsset _ a =>
          by_cases hp : p = .asset a <;> simp [move, callMove, touches, hp]
        | _ => exact Nat.zero_le _
      | failed => exact Nat.zero_le _
      | outside => exact Nat.zero_le _
    have hsplit : touches u ((e :: h).map (move p)) =
        touches u [move p e] + touches u (h.map (move p)) := by
      rw [List.map_cons]
      cases move p e <;> simp [touches]
    rw [hsplit, List.countP_cons]
    omega

/-- **Lazy accounting agrees with exact proportional shares.** For every run,
every pool and every user, what was paid plus what is pending never passes the
sum of `E * b / T` over the distributions, and falls behind it by at most
`b / 10 ^ 9` for each distribution and one unit for each call of the user, plus
one; summed over all users it never passes what was distributed. -/
theorem paid_add_pending_bounds (h0 : Started D w₀) (hr : ChainRun D w₀ h w) (p : PoolId) :
    (∀ u, share (distributionsTo p h) u -
          (staked (distributionsTo p h) u : ℚ) / (10 ^ 9 : ℚ) -
          (1 + (h.countP (callsBy p u) : ℚ)) ≤
        (paidOut p u h : ℚ) + (pending w.storage p u : ℚ) ∧
      (paidOut p u h : ℚ) + (pending w.storage p u : ℚ) ≤ share (distributionsTo p h) u) ∧
    {u | paidOut p u h + pending w.storage p u ≠ 0}.Finite ∧
    ∑ᶠ u, (paidOut p u h + pending w.storage p u) ≤ distributed (distributionsTo p h) := by
  have hl := ledger_of_chainRun h0 hr p
  have hscale : ((REWARD_INDEX_SCALE : ℤ) : ℚ) = 10 ^ 9 := by norm_num [REWARD_INDEX_SCALE, PRECISION_FACTOR]
  refine ⟨fun u => ⟨?_, ?_⟩, ?_, ?_⟩
  · have hlow := hl.le_paid_add_pending scale_pos u
    have hcount : (touches u (h.map (move p)) : ℚ) ≤ h.countP (callsBy p u) := by
      exact_mod_cast touches_le_calls p u h
    rw [paidTo_moves, distributions_moves, hscale] at hlow
    unfold pending
    linarith
  · have hup := hl.paid_add_pending_le scale_pos u
    rw [paidTo_moves, distributions_moves] at hup
    exact hup
  · have hfin := hl.finite_paid_pending
    simp only [paidTo_moves] at hfin
    exact hfin
  · have hsum := hl.finsum_le_distributed scale_pos
    simp only [paidTo_moves, distributions_moves] at hsum
    exact hsum

theorem paid_add_pending_bounds_earning :
    distributed (distributionsTo .legacy earningSession.1) = 200000 ∧
    (paidOut .legacy alice earningSession.1 : ℚ) + pending earningSession.2.storage .legacy alice ≤
      share (distributionsTo .legacy earningSession.1) alice ∧
    ∑ᶠ u, (paidOut .legacy u earningSession.1 + pending earningSession.2.storage .legacy u) ≤
      200000 := by
  have h := paid_add_pending_bounds (started_opened 1000000 plainOpening plainOpening_rich)
    (session_run 1000000 plainOpening [(10, .deposit alice 30),
      (11, .deposit bob 10), (12, .distributeRewards 200000)]) .legacy
  have hd : distributed (distributionsTo .legacy earningSession.1) = 200000 := rfl
  exact ⟨hd, (h.1 alice).2, hd ▸ h.2.2⟩

/-! ## What distributions credit -/

/-- The pool that a step distributes to. -/
def distributionKey : Entry τ → Option PoolId
  | .ok _ (.distributeRewards _) _ _ => some .legacy
  | .ok _ (.distributeRewardsForAsset _ a _) _ _ => some (.asset a)
  | _ => none

/-- Rewards that a step of the chain credits to the stakes of a pool. -/
def creditedBy : Entry τ → Int
  | .ok _ (.distributeRewards amount) pre _ => effective pre.storage amount.val
  | .ok _ (.distributeRewardsForAsset _ _ amount) _ _ => amount.val
  | _ => 0

theorem distributed_eq (p : PoolId) (h : List (Entry τ)) : distributed (distributionsTo p h) =
    (h.map fun e => if distributionKey e = some p then creditedBy e else 0).sum := by
  induction h with
  | nil => rfl
  | cons e h ih =>
    have hcons : distributed (distributionsTo p (e :: h)) =
        (if distributionKey e = some p then creditedBy e else 0) +
          distributed (distributionsTo p h) := by
      cases e with
      | ok env call pre value =>
        cases call with
        | distributeRewards amount =>
          by_cases hp : p = .legacy
          · simp [distributionsTo, distributedBy, distributionKey, creditedBy, distributed,
              distributionOf, hp]
          · simp [distributionsTo, distributedBy, distributionKey, hp, Ne.symm hp]
        | distributeRewardsForAsset admin a amount =>
          by_cases hp : p = .asset a
          · simp [distributionsTo, distributedBy, distributionKey, creditedBy, distributed,
              distributionOf, hp]
          · simp [distributionsTo, distributedBy, distributionKey, hp, Ne.symm hp]
        | _ => exact (zero_add _).symm
      | failed => exact (zero_add _).symm
      | outside => exact (zero_add _).symm
    rw [hcons, ih, List.map_cons, List.sum_cons]

/-! ## The legacy pool against the tokens it took in -/

/-- Reward tokens that a step of the chain moved into the vault for the legacy
pool. -/
def transferredBy : Entry τ → Int
  | .ok _ (.distributeRewards amount) _ _ => amount.val
  | _ => 0

/-- What the distribution was worth after the utilization multiplier. -/
def effectiveBy : Entry τ → Int
  | .ok _ (.distributeRewards amount) pre _ => effective pre.storage amount.val
  | _ => 0

/-- No distribution of the step is raised by its multiplier. -/
def NotBoosted : Entry τ → Prop
  | .ok _ (.distributeRewards _) pre _ => multiplierBps pre.storage ≤ 10000
  | _ => True

theorem distributed_legacy (h : List (Entry τ)) :
    distributed (distributionsTo .legacy h) = (h.map effectiveBy).sum := by
  have heff : ∀ e : Entry τ,
      (if distributionKey e = some .legacy then creditedBy e else 0) = effectiveBy e := by
    intro e
    cases e with
    | ok env call pre value => cases call <;> rfl
    | failed => rfl
    | outside => rfl
  simp only [distributed_eq, heff]

theorem effective_le {s : Storage} {amount : Int} (h0 : 0 ≤ amount)
    (hm : multiplierBps s ≤ 10000) : effective s amount ≤ amount := by
  have hle : amount * multiplierBps s ≤ amount * 10000 :=
    mul_le_mul_of_nonneg_left (by exact_mod_cast hm) h0
  unfold effective
  omega

/-- Without boosts, a step distributes no more than it takes in. -/
theorem effectiveBy_le_transferredBy {e : Entry τ} (hr : Ready w.storage)
    (hs : ChainStep D w e w') (hb : NotBoosted e) : effectiveBy e ≤ transferredBy e := by
  cases stepEffect_of_step hr hs with
  | call _ heff =>
    cases heff with
    | distributeRewards hmin => exact effective_le (le_trans (by decide) hmin) hb
    | _ => exact le_rfl
  | failed => exact le_rfl
  | outside => exact le_rfl

theorem sum_effective_le_transferred (h0 : Started D w₀) (hr : ChainRun D w₀ h w)
    (hb : ∀ e ∈ h, NotBoosted e) : (h.map effectiveBy).sum ≤ (h.map transferredBy).sum := by
  induction hr with
  | nil => exact le_rfl
  | @snoc h _ _ e hr hs ih =>
    have hstep := effectiveBy_le_transferredBy (ready_of_run h0 hr) hs (hb e (by simp))
    have hrest := ih fun e he => hb e (by simp [he])
    rw [List.map_cons, List.map_cons, List.sum_cons, List.sum_cons]
    exact add_le_add hstep hrest

/-- **Legacy rewards are covered by the effective amounts distributed**, and by
the reward tokens taken in as long as no multiplier above one was applied. -/
theorem legacy_rewards_le_effective (h0 : Started D w₀) (hr : ChainRun D w₀ h w) :
    {u | paidOut .legacy u h + pending w.storage .legacy u ≠ 0}.Finite ∧
    ∑ᶠ u, (paidOut .legacy u h + pending w.storage .legacy u) ≤ (h.map effectiveBy).sum ∧
    ((∀ e ∈ h, NotBoosted e) →
      ∑ᶠ u, (paidOut .legacy u h + pending w.storage .legacy u) ≤ (h.map transferredBy).sum) := by
  have hl := ledger_of_chainRun h0 hr .legacy
  have hsum := hl.finsum_le_distributed scale_pos
  have hfin := hl.finite_paid_pending
  simp only [paidTo_moves, distributions_moves, distributed_legacy] at hsum hfin
  exact ⟨hfin, hsum, fun hb => hsum.trans (sum_effective_le_transferred h0 hr hb)⟩

/-- Every distribution counts double once deposits reach the target. -/
def boostedOpening : Opening := ⟨0, 100, [⟨10000, 20000⟩]⟩

def boostedSession : List (Entry Bank) × World Bank :=
  session 1000000 boostedOpening [(10, .deposit alice 100),
    (11, .distributeRewards 100000)]

theorem boostedOpening_isOk :
    (exec bank.client boostedOpening.call openEnv (unopened 1000000)).isOk = true := by
  rfl

theorem boostedSession_run : ChainRun bank (opened 1000000 boostedOpening) boostedSession.1
    boostedSession.2 := session_run 1000000 boostedOpening _

theorem legacy_rewards_le_effective_boosted : (boostedSession.1.map effectiveBy).sum = 200000 ∧
    ∑ᶠ u, (paidOut .legacy u boostedSession.1 + pending boostedSession.2.storage .legacy u) ≤
      200000 := by
  have h := legacy_rewards_le_effective (started_opened 1000000 boostedOpening boostedOpening_isOk)
    boostedSession_run
  have hsum : (boostedSession.1.map effectiveBy).sum = 200000 := rfl
  exact ⟨hsum, hsum ▸ h.2.1⟩

theorem paid_add_pending_nonneg (h0 : Started D w₀) (hr : ChainRun D w₀ h w) (p : PoolId)
    (u : Address) : 0 ≤ paidOut p u h + pending w.storage p u := by
  have hl := ledger_of_chainRun h0 hr p
  have hpaid := hl.paid_nonneg u
  rw [paidTo_moves] at hpaid
  exact add_nonneg hpaid (hl.good.pending_nonneg scale_pos u)

/-- A multiplier above one promises more than was taken in: 100000 tokens came
in, one user alone is owed 200000. -/
theorem boosted_rewards_exceed_transfers : ∃ w₀ h w, Started bank w₀ ∧ ChainRun bank w₀ h w ∧
    (h.map transferredBy).sum < ∑ᶠ u, (paidOut .legacy u h + pending w.storage .legacy u) := by
  have h0 := started_opened 1000000 boostedOpening boostedOpening_isOk
  have hl := ledger_of_chainRun h0 boostedSession_run .legacy
  have hfin := hl.finite_paid_pending
  simp only [paidTo_moves] at hfin
  refine ⟨_, _, _, h0, boostedSession_run, ?_⟩
  calc (boostedSession.1.map transferredBy).sum = 100000 := rfl
    _ < paidOut .legacy alice boostedSession.1 + pending boostedSession.2.storage .legacy alice := by
        decide +kernel
    _ ≤ _ := le_finsum hfin (paid_add_pending_nonneg h0 boostedSession_run .legacy) alice

end Axionvera.Vault.Rewards

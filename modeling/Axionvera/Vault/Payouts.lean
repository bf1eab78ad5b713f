import Axionvera.Vault.Wealth

/-! # Rewards that can be paid

A vault whose multipliers raise no distribution holds, on top of the deposits in
the reward token, the pending rewards of all users in all pools
(`rewards_backed`). So every claim is paid in full whenever it is made, and all
users can claim everything that has vested, in whatever order they come
(`everyone_is_paid`). A settlement that overflows is the exception, as it is for
withdrawals. -/
namespace Axionvera.Vault.Payouts
open Axionvera.Lib.Fallible Axionvera.Lib.Host Axionvera.Lib.KeyValue Axionvera.Lib.MachineInt
open Axionvera.Lib.Transition Axionvera.Lib.RewardPool
open Axionvera.Vault.Types Axionvera.Vault.Storage Axionvera.Vault.Contract Axionvera.Vault.Chain
open Axionvera.Vault.Accounts Axionvera.Vault.StorageSpec Axionvera.Vault.Effects
open Axionvera.Vault.Refinement Axionvera.Vault.Principal Axionvera.Vault.Rewards
open Axionvera.Vault.Authority Axionvera.Vault.Solvency Axionvera.Vault.BankRun
open Axionvera.Vault.Wealth

variable {τ : Type} {D : Deployment τ} {w₀ w w₁ w' : World τ} {h : List (Entry τ)}
variable {p : PoolId} {u t : Address}

/-! ## What the vault holds for rewards -/

/-- No multiplier is above one. -/
def Modest (s : Storage) : Prop :=
  ∀ point ∈ s.utilizationMultipliers.getD [], point.multiplierBps.toNat ≤ 10000

theorem selectMultiplier_le {n : Nat} {selected : UInt32} {points : List MultiplierPoint}
    (hselected : selected.toNat ≤ 10000) (hpoints : ∀ point ∈ points, point.multiplierBps.toNat ≤ 10000) :
    (selectMultiplier n selected points).toNat ≤ 10000 := by
  induction points with
  | nil => exact hselected
  | cons point rest ih =>
    rw [selectMultiplier]
    split
    · exact hpoints point List.mem_cons_self
    · exact ih fun other hother => hpoints other (List.mem_cons_of_mem point hother)

theorem calculateUtilizationMultiplier_le {total target : Int} {points : List MultiplierPoint}
    {m : UInt32} (hpoints : ∀ point ∈ points, point.multiplierBps.toNat ≤ 10000)
    (h : calculateUtilizationMultiplier total target points = .ok m) : m.toNat ≤ 10000 := by
  cases points with
  | nil =>
    obtain rfl := pure_eq_ok.mp h
    decide
  | cons first rest =>
    rw [calculateUtilizationMultiplier] at h
    split at h
    · obtain rfl := pure_eq_ok.mp h
      decide
    · simp only [bind_eq_ok, pure_eq_ok] at h
      obtain ⟨_, _, _, _, rfl⟩ := h
      exact selectMultiplier_le (hpoints _ (List.getLast_mem _)) hpoints

theorem multiplierBps_le {s : Storage} (hm : Modest s) : multiplierBps s ≤ 10000 := by
  rw [multiplierBps]
  split
  · rename_i m hmultiplier
    exact calculateUtilizationMultiplier_le hm hmultiplier
  · exact Nat.zero_le _

theorem Modest.congr {s s' : Storage} (hm : Modest s) (hconfig : configOf s' = configOf s) :
    Modest s' := by
  have hpoints : s'.utilizationMultipliers = s.utilizationMultipliers :=
    congrArg Config.utilizationMultipliers hconfig
  rwa [Modest, hpoints]

theorem notBoosted_of_step {e : Entry τ} (hm : Modest w.storage) (hs : ChainStep D w e w') :
    NotBoosted e := by
  cases hs with
  | @ok _ _ call =>
    cases call with
    | distributeRewards => exact multiplierBps_le hm
    | _ => exact trivial
  | failed => exact trivial
  | outside => exact trivial

/-- A configuration without such multipliers boosts nothing in any run. -/
theorem notBoosted_of_run (h0 : Started D w₀) (hr : ChainRun D w₀ h w) (hm : Modest w₀.storage) :
    ∀ e ∈ h, NotBoosted e := by
  induction hr with
  | nil => exact fun e he => absurd he List.not_mem_nil
  | snoc hr hs ih =>
    intro e he
    rcases List.mem_cons.mp he with rfl | he
    · exact notBoosted_of_step (hm.congr (configOf_of_run h0 hr)) hs
    · exact ih e he

/-- The vault then holds the deposits in the reward token and, next to them,
whatever rewards are pending. -/
theorem rewards_backed (hD : D.Lawful) (hr : Reachable D w) (hm : Modest w.storage)
    (ht : w.storage.rewardToken = some t) (K : Finset (PoolId × Address)) :
    principal w.storage t + ∑ k ∈ K, pending w.storage k.1 k.2 ≤ D.balance w.tokens t D.contract := by
  obtain ⟨w₀, h, h0, hrun⟩ := hr
  have hcover := covered_of_run hD h0 hrun t
  have hcredited := paid_add_pending_le_credited h0 hrun K
  have hstart := hm.congr (configOf_of_run h0 hrun).symm
  have hboost := sum_effective_le_transferred h0 hrun (notBoosted_of_run h0 hrun hstart)
  have hdiff := collected_sub_credited h
  rw [if_pos ht, reserve] at hcover
  omega

theorem principal_nonneg {s : Storage} (hs : Sound s) (t : Address) : 0 ≤ principal s t := by
  have hlegacy : 0 ≤ poolTotal s .legacy := (hs.good .legacy).total_nonneg
  have hasset : 0 ≤ poolTotal s (.asset t) := (hs.good (.asset t)).total_nonneg
  rw [principal_eq hs]
  split
  · omega
  · omega

/-! ## One claim -/

/-- What a claim on a position would pay now. -/
def due (w : World τ) (k : PoolId × Address) : Int := claimable w.timestamp w.storage k.1 k.2

/-- A position that a claim can settle. -/
structure Due (D : Deployment τ) (w : World τ) (k : PoolId × Address) : Prop where
  listed : Listed w.storage k.1
  user : k.2 ≠ D.contract
  fits : AccrualFits w.storage k.1 k.2
  vesting : VestingFits w.timestamp (vestingPeriod w.storage) (settled w.timestamp w.storage k.1 k.2)

/-- Whoever sends what the vault has can pay what is due. -/
theorem pays_of_due (hD : D.Lawful) (hsend : Sends D) (hr : Reachable D w) (hm : Modest w.storage)
    (p : PoolId) {u : Address} (hu : u ≠ D.contract) :
    ∃ tokens, Pays D (signedBy D u hu) w u (claimable w.timestamp w.storage p u) tokens := by
  have hready := ready_of_reachable hr
  have hs := hready.sound
  rcases (claimable_nonneg hs w.timestamp p u).eq_or_lt with hzero | hpos
  · rw [← hzero]
    exact ⟨_, .nothing⟩
  · obtain ⟨st, hst⟩ := hready.state
    have hback := rewards_backed hD hr hm hst.rewardToken {(p, u)}
    have hprincipal := principal_nonneg hs st.rewardToken
    have hle := claimable_le hs w.timestamp p u
    rw [Finset.sum_singleton] at hback
    have hheld : claimable w.timestamp w.storage p u ≤
        D.balance w.tokens st.rewardToken D.contract := by
      simp only at hback
      omega
    obtain ⟨tokens, htr⟩ := hsend w.tokens st.rewardToken u _ hpos.le hheld
    exact ⟨tokens, .payout hpos hst.rewardToken hheld htr⟩

/-! ## All claims -/

/-- The call that claims the rewards of a position. -/
def claimCall : PoolId × Address → Call
  | (.legacy, u) => .claimRewards u
  | (.asset a, u) => .claimRewardsForAsset u a

/-- The entry of a successful claim on a position. -/
def IsClaim (e : Entry τ) (k : PoolId × Address) : Prop :=
  ∃ env v value, e = .ok env (claimCall k) v value

/-- The positions of a list have been paid what was due, at one time and by one
claim each, the first of the list last, and no other has changed. -/
structure Paid (D : Deployment τ) (L : List (PoolId × Address)) (w w' : World τ) : Prop where
  run : ∃ h, ChainRun D w h w' ∧ List.Forall₂ IsClaim h L
  position : ∀ p u, (p, u) ∉ L → position w'.storage p u = position w.storage p u
  index : ∀ p, poolIndex w'.storage p = poolIndex w.storage p
  balance : ∀ t, w.storage.rewardToken = some t → ∀ v, v ≠ D.contract →
    D.balance w'.tokens t v = D.balance w.tokens t v + ((L.filter fun k => k.2 = v).map (due w)).sum
  assets : w'.storage.supportedAssets = w.storage.supportedAssets
  config : configOf w'.storage = configOf w.storage
  paused : w'.storage.isPaused = w.storage.isPaused
  timestamp : w'.timestamp = w.timestamp

namespace Paid
variable {L : List (PoolId × Address)} {k : PoolId × Address}

theorem nil (w : World τ) : Paid D [] w w where
  run := ⟨[], .nil, .nil⟩
  position _ _ _ := rfl
  index _ := rfl
  balance _ _ _ _ := (add_zero _).symm
  assets := rfl
  config := rfl
  paused := rfl
  timestamp := rfl

theorem settled (h : Paid D L w w') (hk : k ∉ L) (now : Nat) :
    settled now w'.storage k.1 k.2 = settled now w.storage k.1 k.2 := by
  rw [Accounts.settled, h.index, h.position k.1 k.2 hk]
  rfl

theorem vestingPeriod (h : Paid D L w w') : vestingPeriod w'.storage = vestingPeriod w.storage :=
  congrArg (fun c => c.vestingPeriod.getD 0) h.config

/-- Who has not claimed has the same to claim. -/
theorem due_eq (h : Paid D L w w') (hk : k ∉ L) : due w' k = due w k := by
  rw [due, due, claimable, claimable, h.timestamp, h.vestingPeriod, h.settled hk]

theorem due (h : Paid D L w w') (hk : k ∉ L) (hdue : Due D w k) : Due D w' k where
  listed := by
    have hlisted := hdue.listed
    cases hp : k.1 with
    | legacy => exact trivial
    | asset a =>
      rw [hp] at hlisted
      simp only [Listed, supported, h.assets] at hlisted ⊢
      exact hlisted
  user := hdue.user
  fits := by
    have hpending : pending w'.storage k.1 k.2 = pending w.storage k.1 k.2 :=
      congrArg UserPosition.accruedRewards (h.settled hk 0)
    refine ⟨?_, hpending.trans_le hdue.fits.pending⟩
    rw [h.index, h.position k.1 k.2 hk]
    exact hdue.fits.product
  vesting := by
    rw [h.timestamp, h.vestingPeriod, h.settled hk]
    exact hdue.vesting

/-- One more claim, made by somebody who has not claimed yet. -/
theorem cons (h : Paid D L w w₁) (hk : k ∉ L) (hone : Paid D [k] w₁ w') : Paid D (k :: L) w w' where
  run := by
    obtain ⟨_, hrun, hclaims⟩ := h.run
    obtain ⟨_, hrun', hclaim⟩ := hone.run
    exact ⟨_, hrun.trans hrun', List.rel_append hclaim hclaims⟩
  position p u hnot := by
    obtain ⟨hne, hrest⟩ := not_or.mp fun hor => hnot (List.mem_cons.mpr hor)
    rw [hone.position p u fun hmem => hne (List.mem_singleton.mp hmem), h.position p u hrest]
  index p := (hone.index p).trans (h.index p)
  balance t ht v hv := by
    have ht₁ : w₁.storage.rewardToken = some t := (congrArg Config.rewardToken h.config).trans ht
    rw [hone.balance t ht₁ v hv, h.balance t ht v hv]
    by_cases hkv : k.2 = v
    · simp only [hkv, h.due_eq hk, decide_true, List.filter_cons_of_pos, List.filter_nil, List.map_cons,
        List.map_nil, List.sum_cons, List.sum_nil]
      omega
    · simp [hkv]
  assets := hone.assets.trans h.assets
  config := hone.config.trans h.config
  paused := hone.paused.trans h.paused
  timestamp := hone.timestamp.trans h.timestamp

end Paid

/-- A claim touches one position and pays its user. -/
theorem paid_of_claim {e : Entry τ} (hs : ChainStep D w e w') (hclaim : IsClaim e (p, u))
    (hpool : pool w'.storage p =
      (pool w.storage p).touch REWARD_INDEX_SCALE u 0 (due w (p, u)) w.timestamp)
    (hother : ∀ q, q ≠ p → pool w'.storage q = pool w.storage q)
    (hbalance : ∀ t v, v ≠ D.contract → D.balance w'.tokens t v = D.balance w.tokens t v +
      if w.storage.rewardToken = some t then if u = v then due w (p, u) else 0 else 0)
    (hassets : w'.storage.supportedAssets = w.storage.supportedAssets)
    (hconfig : configOf w'.storage = configOf w.storage)
    (hpaused : w'.storage.isPaused = w.storage.isPaused) (htime : w'.timestamp = w.timestamp) :
    Paid D [(p, u)] w w' where
  run := ⟨[e], .snoc .nil hs, .cons hclaim .nil⟩
  position q v hnot := by
    have haccount : (pool w'.storage q).account v = (pool w.storage q).account v := by
      by_cases hq : q = p
      · subst hq
        have hvu : v ≠ u := fun hv => hnot (List.mem_singleton.mpr (congrArg (Prod.mk q) hv))
        rw [hpool, touch_account_other hvu]
      · rw [hother q hq]
    exact toAccount_injective haccount
  index q := by
    by_cases hq : q = p
    · subst hq
      exact congrArg Pool.index hpool
    · exact congrArg Pool.index (hother q hq)
  balance t ht v hv := by
    rw [hbalance t v hv, if_pos ht]
    by_cases huv : u = v
    · simp [huv]
    · simp [huv]
  assets := hassets
  config := hconfig
  paused := hpaused
  timestamp := htime

/-- **A claim is paid in full whenever it is made.** -/
theorem paid_one (hD : D.Lawful) (hsend : Sends D) (hr : Reachable D w) (hm : Modest w.storage)
    (hopen : w.storage.isPaused ≠ some true) {k : PoolId × Address} (hdue : Due D w k) :
    ∃ w', Paid D [k] w w' := by
  obtain ⟨p, u⟩ := k
  have hu : u ≠ D.contract := hdue.user
  obtain ⟨tokens, hpay⟩ := pays_of_due hD hsend hr hm p hu
  have hready := ready_of_reachable hr
  cases p with
  | legacy =>
    have heff : Effect D (signedBy D u hu) w (.claimRewards u) _ _ :=
      .claimRewards hopen (signedBy_auths hu) hdue.fits hdue.vesting rfl hpay
    exact ⟨_, paid_of_claim (.ok rfl (returns_of_effect hready heff)) ⟨_, _, _, rfl⟩ pool_afterClaim
      (other_of_legacy fun _ => rfl) (fun t v hv => balance_of_paid hD hv rfl hpay t) rfl rfl rfl rfl⟩
  | asset a =>
    have heff : Effect D (signedBy D u hu) w (.claimRewardsForAsset u a) _ _ :=
      .claimRewardsForAsset hopen (signedBy_auths hu) hdue.listed hdue.fits hdue.vesting rfl hpay
    exact ⟨_, paid_of_claim (.ok rfl (returns_of_effect hready heff)) ⟨_, _, _, rfl⟩
      pool_afterAssetClaim (other_of_asset rfl fun _ => pool_afterAssetClaim_other)
      (fun t v hv => balance_of_paid hD hv rfl hpay t) rfl rfl rfl rfl⟩

/-- **Everybody can claim.** If no multiplier is above one, an unpaused vault pays
the positions of any list, by one claim for each and all at one time, everything
that has vested for them. -/
theorem everyone_is_paid (hD : D.Lawful) (hsend : Sends D) (hr : Reachable D w)
    (hm : Modest w.storage) (hopen : w.storage.isPaused ≠ some true)
    {L : List (PoolId × Address)} (hnodup : L.Nodup) (hdue : ∀ k ∈ L, Due D w k) :
    ∃ w', Paid D L w w' := by
  induction L with
  | nil => exact ⟨w, .nil w⟩
  | cons k L ih =>
    obtain ⟨hk, hrest⟩ := List.nodup_cons.mp hnodup
    obtain ⟨w₁, hpaid⟩ := ih hrest fun i hi => hdue i (List.mem_cons_of_mem k hi)
    obtain ⟨_, hrun, _⟩ := hpaid.run
    obtain ⟨w₂, hone⟩ := paid_one hD hsend (hr.run hrun) (hm.congr hpaid.config) (hpaid.paused ▸ hopen)
      (hpaid.due hk (hdue k List.mem_cons_self))
    exact ⟨w₂, hpaid.cons hk hone⟩

/-- Two pools with rewards, of which nobody has claimed any. -/
def owingSession : World Bank :=
  (session 1000000 plainOpening [(10, .deposit alice 100), (20, .addAsset adminAddress depositToken),
    (30, .depositAsset bob depositToken 50), (40, .distributeRewards 150000),
    (50, .distributeRewardsForAsset adminAddress depositToken 100000)]).2

theorem everyone_is_paid_session :
    ∃ w', Paid bank [(.asset depositToken, bob), (.legacy, alice)] owingSession w' ∧
      bank.balance w'.tokens rewardToken alice = 1150000 ∧
      bank.balance w'.tokens rewardToken bob = 1100000 := by
  have hdue : ∀ k ∈ [(PoolId.asset depositToken, bob), (PoolId.legacy, alice)],
      Due bank owingSession k := by
    -- nothing has to vest
    have hvested : ∀ q, VestingFits owingSession.timestamp (vestingPeriod owingSession.storage) q :=
      fun _ hperiod => absurd hperiod (Nat.lt_irrefl 0)
    intro k hk
    rcases List.mem_cons.mp hk with rfl | hk
    · exact ⟨rfl, by decide, ⟨by decide +kernel, by decide +kernel⟩, hvested _⟩
    · obtain rfl := List.mem_singleton.mp hk
      exact ⟨trivial, by decide, ⟨by decide +kernel, by decide +kernel⟩, hvested _⟩
  obtain ⟨w', hpaid⟩ := everyone_is_paid (bankDeployment_lawful _) bank_sends
    (session_reachable 1000000 plainOpening rfl _) (fun _ hpoint => absurd hpoint List.not_mem_nil)
    (by decide +kernel) (by decide) hdue
  refine ⟨w', hpaid, ?_, ?_⟩
  · exact (hpaid.balance rewardToken rfl alice (by decide)).trans rfl
  · exact (hpaid.balance rewardToken rfl bob (by decide)).trans rfl

end Axionvera.Vault.Payouts

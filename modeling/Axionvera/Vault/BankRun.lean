import Axionvera.Vault.Authority
import Axionvera.Vault.Solvency
import Axionvera.Vault.Unlocking

/-! # A run on the vault

Solvency says that the vault holds what it owes; here everybody comes and takes
it. Once the locks have expired, an unpaused vault pays every position of every
pool in full, in whatever order its users come: a user frees their locks in
batches (`unlock_all`) and withdraws, which leaves every other position and the
means to pay it as they were (`Leaving`).

The reward token is left out, since as a listed asset it may be paid out as
rewards; so is a position whose settlement overflows, which no call can move. -/
namespace Axionvera.Vault.BankRun
open Axionvera.Lib.Host Axionvera.Lib.KeyValue Axionvera.Lib.MachineInt Axionvera.Lib.Transition
open Axionvera.Lib.RewardPool
open Axionvera.Vault.Types Axionvera.Vault.Storage Axionvera.Vault.Contract Axionvera.Vault.Chain
open Axionvera.Vault.Accounts Axionvera.Vault.StorageSpec Axionvera.Vault.Effects
open Axionvera.Vault.Refinement Axionvera.Vault.Principal Axionvera.Vault.Rewards
open Axionvera.Vault.Authority Axionvera.Vault.Solvency Axionvera.Vault.Unlocking

variable {τ : Type} {D : Deployment τ} {w w₁ w₂ w₃ : World τ} {p : PoolId} {u : Address}

/-- The token that a pool keeps its deposits in. -/
def tokenOf (s : Storage) : PoolId → Option Address
  | .legacy => s.depositToken
  | .asset a => some a

/-- What the vault owes a user in a token, over all pools. -/
def owed (s : Storage) (t u : Address) : Int :=
  (if s.depositToken = some t then (position s .legacy u).balance else 0) +
    (position s (.asset t) u).balance

/-- What a user has of a token, in the vault and outside. -/
def wealth (D : Deployment τ) (w : World τ) (t u : Address) : Int :=
  D.balance w.tokens t u + owed w.storage t u

/-- A token contract does not refuse to send what the vault has. -/
def Sends (D : Deployment τ) : Prop :=
  ∀ tokens t dst amount, 0 ≤ amount → amount ≤ D.balance tokens t D.contract →
    ∃ tokens', D.transfer tokens t D.contract dst amount = some tokens'

/-! ## The vault has no account with itself -/

theorem position_of_record {s t : Storage} (h : recordOf t u = recordOf s u) (p : PoolId) :
    position t p u = position s p u := by
  simp only [recordOf, UserRecord.mk.injEq] at h
  obtain ⟨h1, h2, h3, h4, h5, h6, h7, h8, h9⟩ := h
  cases p with
  | legacy => simp only [position, liquid, locked, locks, FinMap.getD, h1, h2, h3, h4, h5]
  | asset a =>
    simp only [position, FinMap.getD, congrFun h6 a, congrFun h7 a, congrFun h8 a, congrFun h9 a]

/-- Nobody signs for the vault, so nothing is ever recorded for it. -/
theorem record_of_contract {w₀ : World τ} {h : List (Entry τ)} (h0 : Started D w₀)
    (hr : ChainRun D w₀ h w) : recordOf w.storage D.contract = recordOf w₀.storage D.contract := by
  induction hr with
  | nil => rfl
  | snoc hr hs ih =>
    cases stepEffect_of_step (ready_of_run h0 hr) hs with
    | call hc heff =>
      rcases record_or_auth heff D.contract with hrecord | ⟨hauth, _⟩
      · exact hrecord.trans ih
      · exact absurd rfl (ne_contract_of_auths hc hauth)
    | failed => exact ih
    | outside => exact ih

theorem balance_of_contract (hr : Reachable D w) (p : PoolId) :
    (position w.storage p D.contract).balance = 0 := by
  obtain ⟨w₀, h, h0, hrun⟩ := hr
  rw [position_of_record (record_of_contract h0 hrun)]
  have hempty := congrArg (fun P => (P.account D.contract).balance) (pool_of_started h0 p)
  exact hempty

/-! ## What is left when some have left -/

/-- Some users have taken what they had, in no time: a position is as it was or
empty, and nobody is poorer for it. -/
structure Leaving (D : Deployment τ) (w w' : World τ) : Prop where
  run : ∃ h, ChainRun D w h w'
  account : ∀ p u, (pool w'.storage p).account u = (pool w.storage p).account u ∨
    (position w'.storage p u).balance = 0
  index : ∀ p, poolIndex w'.storage p = poolIndex w.storage p
  wealth : ∀ t u, u ≠ D.contract → wealth D w' t u = wealth D w t u
  locks : ∀ u, ∀ l ∈ locks w'.storage u, l ∈ locks w.storage u
  paused : w'.storage.isPaused = w.storage.isPaused
  config : configOf w'.storage = configOf w.storage
  timestamp : w'.timestamp = w.timestamp

namespace Leaving

theorem refl (w : World τ) : Leaving D w w :=
  ⟨⟨_, .nil⟩, fun _ _ => Or.inl rfl, fun _ => rfl, fun _ _ _ => rfl, fun _ _ hl => hl, rfl, rfl, rfl⟩

theorem balance_zero (h : Leaving D w₁ w₂) (hz : (position w₁.storage p u).balance = 0) :
    (position w₂.storage p u).balance = 0 := by
  rcases h.account p u with hsame | hzero
  · have hbalance := congrArg Account.balance hsame
    exact hbalance.trans hz
  · exact hzero

theorem trans (h : Leaving D w₁ w₂) (h' : Leaving D w₂ w₃) : Leaving D w₁ w₃ where
  run := by
    obtain ⟨_, hr⟩ := h.run
    obtain ⟨_, hr'⟩ := h'.run
    exact ⟨_, hr.trans hr'⟩
  account p u := by
    rcases h'.account p u with hsame | hzero
    · rcases h.account p u with hsame' | hzero'
      · exact Or.inl (hsame.trans hsame')
      · exact Or.inr (h'.balance_zero hzero')
    · exact Or.inr hzero
  index p := (h'.index p).trans (h.index p)
  wealth t u hu := (h'.wealth t u hu).trans (h.wealth t u hu)
  locks u l hl := h.locks u l (h'.locks u l hl)
  paused := h'.paused.trans h.paused
  config := h'.config.trans h.config
  timestamp := h'.timestamp.trans h.timestamp

theorem reachable (h : Leaving D w₁ w₂) (hr : Reachable D w₁) : Reachable D w₂ := by
  obtain ⟨_, hrun⟩ := h.run
  exact hr.run hrun

theorem tokenOf_eq (h : Leaving D w₁ w₂) (p : PoolId) :
    tokenOf w₂.storage p = tokenOf w₁.storage p := by
  cases p with
  | legacy => exact congrArg Config.depositToken h.config
  | asset a => rfl

theorem rewardToken_eq (h : Leaving D w₁ w₂) : w₂.storage.rewardToken = w₁.storage.rewardToken :=
  congrArg Config.rewardToken h.config

/-- A settlement that fits still does, or there is nothing left to settle. -/
theorem fits (h : Leaving D w₁ w₂) (hfit : AccrualFits w₁.storage p u) :
    AccrualFits w₂.storage p u ∨ (position w₂.storage p u).balance = 0 := by
  refine (h.account p u).imp_left fun hsame => ?_
  have hbalance : (position w₂.storage p u).balance = (position w₁.storage p u).balance :=
    congrArg Account.balance hsame
  have hindex : (position w₂.storage p u).rewardIndex = (position w₁.storage p u).rewardIndex :=
    congrArg Account.index hsame
  have hpending : pending w₂.storage p u = pending w₁.storage p u := by
    have hpool : (pool w₂.storage p).index = (pool w₁.storage p).index := h.index p
    rw [pending, pending, Pool.pending, Pool.pending, hsame, hpool]
  refine ⟨?_, hpending.trans_le hfit.pending⟩
  rw [hbalance, hindex, h.index p]
  exact hfit.product

end Leaving

/-! ## One user leaves -/

theorem step_of_effect {hu : u ≠ D.contract} {call : Call} {value : Value} {w' : World τ}
    (hr : Reachable D w) (heff : Effect D (signedBy D u hu) w call value w') :
    ChainStep D w (.ok (signedBy D u hu) call w value) w' :=
  .ok rfl (returns_of_effect (ready_of_reachable hr) heff)

/-- A position is paid out: the user receives what the pool no longer owes. -/
theorem leaving_of_payout (hD : D.Lawful) {e : Entry τ} {w' : World τ} {t : Address}
    (hs : ChainStep D w e w') (hu : u ≠ D.contract)
    (hp : pool w'.storage p = (pool w.storage p).touch REWARD_INDEX_SCALE u
      (-(position w.storage p u).balance) 0 w.timestamp)
    (hother : ∀ q, q ≠ p → pool w'.storage q = pool w.storage q)
    (htoken : tokenOf w.storage p = some t)
    (htr : D.transfer w.tokens t D.contract u (position w.storage p u).balance = some w'.tokens)
    (hlocks : ∀ v, ∀ l ∈ locks w'.storage v, l ∈ locks w.storage v)
    (hpaused : w'.storage.isPaused = w.storage.isPaused)
    (hconfig : configOf w'.storage = configOf w.storage) (htime : w'.timestamp = w.timestamp) :
    Leaving D w w' ∧ (position w'.storage p u).balance = 0 := by
  have hzero : (position w'.storage p u).balance = 0 := by
    have haccount := congrArg (fun P => (P.account u).balance) hp
    rw [touch_account_self] at haccount
    exact haccount.trans (add_neg_cancel _)
  have hsame : ∀ q v, ¬ (q = p ∧ v = u) →
      (pool w'.storage q).account v = (pool w.storage q).account v := by
    intro q v hne
    by_cases hq : q = p
    · subst hq
      rw [hp, touch_account_other fun hv => hne ⟨rfl, hv⟩]
    · rw [hother q hq]
  have hbalance : ∀ q v, (position w'.storage q v).balance = (position w.storage q v).balance -
      if q = p ∧ v = u then (position w.storage p u).balance else 0 := by
    intro q v
    split
    · rename_i h
      rw [h.1, h.2, hzero, sub_self]
    · rename_i h
      have heq := congrArg Account.balance (hsame q v h)
      rw [sub_zero]
      exact heq
  refine ⟨⟨⟨_, .snoc .nil hs⟩, ?_, ?_, ?_, hlocks, hpaused, hconfig, htime⟩, hzero⟩
  · intro q v
    by_cases h : q = p ∧ v = u
    · right
      rw [h.1, h.2, hzero]
    · exact Or.inl (hsame q v h)
  · intro q
    by_cases hq : q = p
    · subst hq
      exact congrArg Pool.index hp
    · exact congrArg Pool.index (hother q hq)
  · intro k v hv
    have hexact := hD.transfer_exact _ _ _ _ _ _ htr k v
    have hdeposit : w'.storage.depositToken = w.storage.depositToken :=
      congrArg Config.depositToken hconfig
    rw [if_neg (fun h => hv h.2 : ¬ (k = t ∧ v = D.contract))] at hexact
    unfold wealth owed
    rw [hexact, hdeposit, hbalance, hbalance]
    cases p with
    | legacy =>
      have ht : w.storage.depositToken = some t := htoken
      by_cases hk : k = t
      · subst hk
        by_cases hvu : v = u
        · subst hvu
          simp only [ht, if_true, and_self, reduceCtorEq, false_and, if_false]
          omega
        · simp [ht, hvu]
      · simp [ht, hk, Ne.symm hk]
    | asset a =>
      obtain rfl : a = t := Option.some.inj htoken
      by_cases hvu : v = u
      · subst hvu
        by_cases hk : k = a
        · subst hk
          simp only [and_self, if_true, reduceCtorEq, false_and, if_false, sub_zero]
          omega
        · simp [hk]
      · simp [hvu]

/-- A pool has no more than the vault holds for it. -/
theorem balance_held (hD : D.Lawful) (hr : Reachable D w) {t : Address}
    (htoken : tokenOf w.storage p = some t) (hreward : w.storage.rewardToken ≠ some t)
    (u : Address) : (position w.storage p u).balance ≤ D.balance w.tokens t D.contract := by
  have hs := (ready_of_reachable hr).sound
  obtain ⟨w₀, h, h0, hrun⟩ := hr
  have hcover := covered_of_run hD h0 hrun t
  rw [if_neg hreward, add_zero, principal_eq hs] at hcover
  have hle := hs.balance_le_total (p := p) (u := u)
  have hlegacy := (hs.good .legacy).total_nonneg
  have hasset := (hs.good (.asset t)).total_nonneg
  simp only [pool] at hlegacy hasset
  cases p with
  | legacy =>
    have ht : w.storage.depositToken = some t := htoken
    rw [if_pos ht] at hcover
    omega
  | asset a =>
    obtain rfl : a = t := Option.some.inj htoken
    split at hcover
    · omega
    · omega

theorem kept_of_expired {now n : Nat} {ls : List Lock} (h : ∀ l ∈ ls, l.unlockTimestamp ≤ now) :
    kept now n ls = ls.drop n := by
  have hall : ∀ ks : List Lock, (∀ l ∈ ks, l ∈ ls) → ks.filter (expired now) = ks := by
    intro ks hks
    exact List.filter_eq_self.mpr fun l hl => decide_eq_true (h l (hks l hl))
  have hkept := expired_kept now n ls
  rwa [hall _ fun l hl => mem_of_mem_kept hl, hall _ fun l hl => hl] at hkept

/-- Expired locks are set free in as many calls as it takes. -/
theorem unlock_all (hu : u ≠ D.contract) {n : Nat} (hn : (locks w.storage u).length ≤ n)
    (hr : Reachable D w) (hp : w.storage.isPaused ≠ some true)
    (hexp : ∀ l ∈ locks w.storage u, l.unlockTimestamp ≤ w.timestamp) :
    ∃ w', Leaving D w w' ∧ locks w'.storage u = [] ∧ pool w'.storage .legacy = pool w.storage .legacy := by
  induction n generalizing w with
  | zero => exact ⟨w, .refl w, List.length_eq_zero_iff.mp (Nat.le_zero.mp hn), rfl⟩
  | succ n ih =>
    have heff : Effect D (signedBy D u hu) w (.unlockExpired u 50) _ _ :=
      .unlockExpired hp (signedBy_auths hu) (by decide) rfl
    have hstep := step_of_effect hr heff
    have hlocks : ∀ v, ∀ l ∈ locks (afterUnlock w.timestamp 50 u w.storage) v,
        l ∈ locks w.storage v := by
      intro v l hl
      rw [locks_afterUnlock] at hl
      split at hl
      · rename_i hv
        rw [hv]
        exact mem_of_mem_kept hl
      · exact hl
    have hpools : ∀ p, pool (afterUnlock w.timestamp 50 u w.storage) p = pool w.storage p := by
      intro p
      cases p with
      | legacy => exact pool_afterUnlock
      | asset a => rfl
    have hbalance : ∀ p v, (position (afterUnlock w.timestamp 50 u w.storage) p v).balance =
        (position w.storage p v).balance := by
      intro p v
      exact congrArg (fun P => (P.account v).balance) (hpools p)
    have hleave : Leaving D w _ := {
      run := ⟨_, .snoc .nil hstep⟩
      account := fun p v => Or.inl (congrArg (fun P => P.account v) (hpools p))
      index := fun p => congrArg Pool.index (hpools p)
      wealth := fun t v _ => by
        show D.balance w.tokens t v + owed (afterUnlock w.timestamp 50 u w.storage) t v = _
        rw [owed, hbalance, hbalance]
        rfl
      locks := hlocks
      paused := rfl
      config := rfl
      timestamp := rfl }
    have hleft : (locks (afterUnlock w.timestamp 50 u w.storage) u).length ≤ n := by
      rw [locks_afterUnlock, if_pos rfl, kept_of_expired hexp, List.length_drop]
      omega
    obtain ⟨w', hleave', hnil, hpool⟩ := ih hleft (hr.step hstep) hp fun l hl =>
      hexp l (hlocks u l hl)
    exact ⟨w', hleave.trans hleave', hnil, hpool.trans (hpools .legacy)⟩

/-- **One position leaves**, and the others can go on as if nothing had been. -/
theorem exit_one (hD : D.Lawful) (hsend : Sends D) (hr : Reachable D w)
    (hp : w.storage.isPaused ≠ some true)
    (hexp : ∀ u, ∀ l ∈ locks w.storage u, l.unlockTimestamp ≤ w.timestamp)
    (hreward : tokenOf w.storage p ≠ w.storage.rewardToken)
    (hfit : AccrualFits w.storage p u ∨ (position w.storage p u).balance = 0) :
    ∃ w', Leaving D w w' ∧ (position w'.storage p u).balance = 0 := by
  rcases eq_or_ne (position w.storage p u).balance 0 with hzero | hne
  · exact ⟨w, .refl w, hzero⟩
  replace hfit := hfit.resolve_right hne
  have hu : u ≠ D.contract := by
    intro hu
    exact hne (hu ▸ balance_of_contract hr p)
  cases p with
  | legacy =>
    obtain ⟨w₁, hleave, hnil, hpool⟩ := unlock_all hu le_rfl hr hp (hexp u)
    have hr₁ := hleave.reachable hr
    have hready := ready_of_reachable hr₁
    have hs := hready.sound
    have hbalance : (position w₁.storage .legacy u).balance = (position w.storage .legacy u).balance :=
      congrArg (fun P => (P.account u).balance) hpool
    have hne₁ : (position w₁.storage .legacy u).balance ≠ 0 := by
      rw [hbalance]
      exact hne
    obtain ⟨st, hst⟩ := hready.state
    have htoken : tokenOf w₁.storage .legacy = some st.depositToken := hst.depositToken
    have hreward₁ : w₁.storage.rewardToken ≠ some st.depositToken := by
      rw [hleave.rewardToken_eq, ← htoken, hleave.tokenOf_eq]
      exact hreward.symm
    have h0 : 0 ≤ (position w₁.storage .legacy u).balance := hs.balance_nonneg
    obtain ⟨tokens, htr⟩ := hsend w₁.tokens st.depositToken u _ h0
      (balance_held hD hr₁ htoken hreward₁ u)
    have hall : (position w₁.storage .legacy u).balance =
        withdrawable w₁.timestamp w₁.storage u := by
      rw [balance_eq, withdrawable, hnil]
      rfl
    have heff : Effect D (signedBy D u hu) w₁
        (.withdraw u ⟨_, inI128_of_nonneg h0 hs.balance_le_max⟩) _ _ :=
      .withdraw (hleave.paused ▸ hp) (lt_of_le_of_ne h0 hne₁.symm) (signedBy_auths hu)
        hst.depositToken ((hleave.fits hfit).resolve_right hne₁) hall.le htr
    have hstep := step_of_effect hr₁ heff
    obtain ⟨hpaid, hzero⟩ := leaving_of_payout hD hstep hu pool_afterWithdraw
      (other_of_legacy fun _ => rfl) htoken htr
      (fun v l hl => by
        simp only [moved, locks_afterWithdraw] at hl
        split at hl
        · rename_i hv
          rw [hv]
          exact mem_of_mem_kept hl
        · exact hl) rfl rfl rfl
    exact ⟨_, hleave.trans hpaid, hzero⟩
  | asset a =>
    have hready := ready_of_reachable hr
    have hs := hready.sound
    have h0 : 0 ≤ (position w.storage (.asset a) u).balance := hs.balance_nonneg
    have hle : (position w.storage (.asset a) u).balance ≤ poolTotal w.storage (.asset a) :=
      hs.balance_le_total
    have hlisted : supported w.storage a = true := by
      by_contra hunlisted
      have htotal := (hs.unlisted a (Bool.eq_false_iff.mpr hunlisted)).1
      omega
    obtain ⟨tokens, htr⟩ := hsend w.tokens a u _ h0
      (balance_held hD hr rfl (Ne.symm hreward) u)
    have heff : Effect D (signedBy D u hu) w
        (.withdrawAsset u a ⟨_, inI128_of_nonneg h0 (hle.trans (hs.total_le _))⟩) _ _ :=
      .withdrawAsset hp (lt_of_le_of_ne h0 hne.symm) (signedBy_auths hu) hlisted hfit le_rfl htr
    have hstep := step_of_effect hr heff
    obtain ⟨hpaid, hzero⟩ := leaving_of_payout hD hstep hu pool_afterAssetMove
      (other_of_asset rfl fun _ => pool_afterAssetMove_other) rfl htr (fun v l hl => hl) rfl rfl rfl
    exact ⟨_, hpaid, hzero⟩

/-! ## Everybody leaves -/

/-- Any list of positions leaves, one after the other. -/
theorem exit_list (hD : D.Lawful) (hsend : Sends D) (hr : Reachable D w)
    (hp : w.storage.isPaused ≠ some true)
    (hexp : ∀ u, ∀ l ∈ locks w.storage u, l.unlockTimestamp ≤ w.timestamp)
    (L : List (PoolId × Address))
    (hfit : ∀ k ∈ L, tokenOf w.storage k.1 ≠ w.storage.rewardToken ∧
      AccrualFits w.storage k.1 k.2) :
    ∃ w', Leaving D w w' ∧ ∀ k ∈ L, (position w'.storage k.1 k.2).balance = 0 := by
  induction L with
  | nil => exact ⟨w, .refl w, fun k hk => absurd hk List.not_mem_nil⟩
  | cons k L ih =>
    obtain ⟨w₁, hleave, hempty⟩ := ih fun i hi => hfit i (List.mem_cons_of_mem k hi)
    obtain ⟨hreward, hfits⟩ := hfit k List.mem_cons_self
    obtain ⟨w₂, hleave', hzero⟩ := exit_one (p := k.1) (u := k.2) hD hsend (hleave.reachable hr)
      (by rw [hleave.paused]; exact hp)
      (fun u l hl => by rw [hleave.timestamp]; exact hexp u l (hleave.locks u l hl))
      (by rw [hleave.tokenOf_eq, hleave.rewardToken_eq]; exact hreward) (hleave.fits hfits)
    refine ⟨w₂, hleave.trans hleave', fun i hi => ?_⟩
    rcases List.mem_cons.mp hi with rfl | hi
    · exact hzero
    · exact hleave'.balance_zero (hempty i hi)

/-- Only finitely many positions hold anything. -/
theorem finite_positions {s : Storage} (hs : Sound s) :
    {k : PoolId × Address | (position s k.1 k.2).balance ≠ 0}.Finite := by
  have hlisted : {a | supported s a = true}.Finite := by
    refine (s.supportedAssets.getD .empty).finite.subset fun a ha => ?_
    exact Option.isSome_iff_ne_none.mp ha
  have hpools : (insert PoolId.legacy (PoolId.asset '' {a | supported s a = true})).Finite :=
    (hlisted.image _).insert _
  refine (hpools.biUnion fun p _ => ((hs.good p).finite_balance.image fun u => (p, u))).subset ?_
  rintro ⟨p, u⟩ hk
  refine Set.mem_biUnion (x := p) ?_ ⟨u, hk, rfl⟩
  cases p with
  | legacy => exact Set.mem_insert _ _
  | asset a =>
    -- an asset that is not listed has no total, and so no position
    refine Set.mem_insert_of_mem _ ⟨a, ?_, rfl⟩
    by_contra hunlisted
    have htotal := (hs.unlisted a (Bool.eq_false_iff.mpr hunlisted)).1
    have hle := hs.balance_le_total (p := .asset a) (u := u)
    have hnonneg := hs.balance_nonneg (p := .asset a) (u := u)
    exact hk (by dsimp only; omega)

/-- **Everybody can leave.** From every reachable state of an unpaused vault in
which no settlement overflows, at any time at which the locks have expired, there
is a run of calls at the end of which every pool is empty, save one in the reward
token, and every user has in their hands, of every other token, what they had and
what all pools owed them. -/
theorem everyone_can_exit (hD : D.Lawful) (hsend : Sends D) (hr : Reachable D w)
    (hp : w.storage.isPaused ≠ some true)
    (hfit : ∀ p, tokenOf w.storage p ≠ w.storage.rewardToken → ∀ u, AccrualFits w.storage p u)
    {T : Nat} (hT : w.timestamp ≤ T) (hexp : ∀ u, ∀ l ∈ locks w.storage u, l.unlockTimestamp ≤ T) :
    ∃ h w', ChainRun D w h w' ∧ w'.timestamp = T ∧
      (∀ p, tokenOf w.storage p ≠ w.storage.rewardToken →
        poolTotal w'.storage p = 0 ∧ ∀ u, (position w'.storage p u).balance = 0) ∧
      ∀ t u, w.storage.rewardToken ≠ some t → u ≠ D.contract →
        D.balance w'.tokens t u = D.balance w.tokens t u + owed w.storage t u := by
  have hwait : ChainStep D w .outside { w with tokens := w.tokens, timestamp := T } :=
    .outside hT fun _ => le_rfl
  have hs := (ready_of_reachable hr).sound
  have hfinite : {k : PoolId × Address | tokenOf w.storage k.1 ≠ w.storage.rewardToken ∧
      (position w.storage k.1 k.2).balance ≠ 0}.Finite :=
    (finite_positions hs).subset fun k hk => hk.2
  obtain ⟨w', hleave, hempty⟩ := exit_list hD hsend (hr.step hwait) hp hexp hfinite.toFinset.toList
    fun k hk => by
      have hmem := hfinite.mem_toFinset.mp (Finset.mem_toList.mp hk)
      exact ⟨hmem.1, hfit k.1 hmem.1 k.2⟩
  have hzero : ∀ p, tokenOf w.storage p ≠ w.storage.rewardToken →
      ∀ u, (position w'.storage p u).balance = 0 := by
    intro p hreward u
    by_cases hz : (position w.storage p u).balance = 0
    · exact hleave.balance_zero hz
    · exact hempty (p, u) (Finset.mem_toList.mpr (hfinite.mem_toFinset.mpr ⟨hreward, hz⟩))
  obtain ⟨h, hrun⟩ := hleave.run
  refine ⟨_, w', (Run.snoc .nil hwait).trans hrun, hleave.timestamp, fun p hreward => ⟨?_, ?_⟩, ?_⟩
  · have hsum := ((ready_of_reachable (hleave.reachable (hr.step hwait))).sound.good p).total_eq
    exact hsum.trans (finsum_eq_zero_of_forall_eq_zero (hzero p hreward))
  · exact hzero p hreward
  · intro t u hreward hu
    have hwealth : wealth D w' t u = wealth D w t u := hleave.wealth t u hu
    have howed : owed w'.storage t u = 0 := by
      unfold owed
      rw [hzero (.asset t) hreward.symm u, add_zero]
      have hdeposit : w'.storage.depositToken = w.storage.depositToken := hleave.tokenOf_eq .legacy
      split
      · rename_i ht
        refine hzero .legacy ?_ u
        rw [tokenOf, ← hdeposit, ht]
        exact hreward.symm
      · rfl
    rw [wealth, wealth, howed, add_zero] at hwealth
    exact hwealth

/-! A vault of two users: the deposit token is listed as an asset as well, and
most of what one of them has is behind a lock. -/

def exitSession : List (Entry Bank) × World Bank :=
  session 1000 plainOpening [(10, .addAsset adminAddress depositToken), (11, .deposit alice 10),
    (12, .lock alice 6 5), (13, .depositAsset bob depositToken 7)]

theorem exitSession_reachable : Reachable bank exitSession.2 :=
  session_reachable 1000 plainOpening plainOpening_isOk _

theorem bank_sends : Sends bank := by
  intro tokens t dst amount h0 hle
  have hle' : amount.toNat ≤ tokens.balance t vaultAddress := Int.toNat_le.mpr hle
  exact ⟨_, if_pos ⟨h0, hle'⟩⟩

/-- Without distributions there is nothing to settle. -/
theorem fits_of_index_zero {s : Storage} (hs : Sound s) (h : poolIndex s p = 0) (u : Address) :
    AccrualFits s p u := by
  have hindex : (position s p u).rewardIndex = 0 :=
    le_antisymm (h ▸ hs.index_le_pool) hs.index_nonneg
  have hgain : (position s p u).balance * (poolIndex s p - (position s p u).rewardIndex) = 0 := by
    rw [h, hindex, sub_zero, mul_zero]
  refine ⟨hgain.trans_le (by decide), ?_⟩
  have hpending : pending s p u = (position s p u).accruedRewards +
    (position s p u).balance * (poolIndex s p - (position s p u).rewardIndex) / REWARD_INDEX_SCALE := rfl
  rw [hpending, hgain, Int.zero_ediv, add_zero]
  exact hs.accrued_le p u

theorem everyone_can_exit_session : ∃ h w', ChainRun bank exitSession.2 h w' ∧
    bank.balance exitSession.2.tokens depositToken alice = 990 ∧
    bank.balance w'.tokens depositToken alice = 1000 ∧
    bank.balance w'.tokens depositToken bob = 1000 := by
  have hs := (ready_of_reachable exitSession_reachable).sound
  have hindex : ∀ p, poolIndex exitSession.2.storage p = 0 := by
    intro p
    cases p with
    | legacy => rfl
    | asset a =>
      show (if a = depositToken then some 0 else none).getD 0 = (0 : Int)
      split <;> rfl
  have hlocks : ∀ u, ∀ l ∈ locks exitSession.2.storage u, l.unlockTimestamp ≤ 17 := by
    intro u
    show ∀ l ∈ (if u = alice then some [newLock 12 6 5] else none).getD [], l.unlockTimestamp ≤ 17
    split
    · decide
    · exact fun l hl => absurd hl List.not_mem_nil
  obtain ⟨h, w', hrun, _, _, hpaid⟩ := everyone_can_exit (T := 17) (bankDeployment_lawful vaultAddress)
    bank_sends exitSession_reachable (by decide +kernel)
    (fun p _ u => fits_of_index_zero hs (hindex p) u) (by decide +kernel) hlocks
  refine ⟨h, w', hrun, rfl, ?_, ?_⟩
  · exact (hpaid depositToken alice (by decide +kernel) (by decide)).trans rfl
  · exact (hpaid depositToken bob (by decide +kernel) (by decide)).trans rfl

end Axionvera.Vault.BankRun

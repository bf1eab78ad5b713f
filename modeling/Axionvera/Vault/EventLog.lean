import Axionvera.Lib.Replay
import Axionvera.Vault.Solvency

/-! # The event log tells the books

`events.rs`. The contract is followed from outside through the events it
publishes. `Books` is what such a follower can keep, `record` how it takes in one
event, and `fits` which events it should expect next. Two things are not on the
face of an event. An `Unlock` names the sum that was set free and not the locks;
since locks are set free in their order, the sum tells which (`freeing_eq_kept`).
A `Withdraw` sets expired locks free without an event of its own; its timestamp
tells which. What no event tells is the pause flag and, because a claim that pays
nothing settles a position silently, the reward side of a position. -/
namespace Axionvera.Vault.EventLog
open Axionvera.Lib.Host Axionvera.Lib.KeyValue Axionvera.Lib.MachineInt Axionvera.Lib.Transition
open Axionvera.Lib.RewardPool Axionvera.Lib.Replay
open Axionvera.Vault.Types Axionvera.Vault.Storage Axionvera.Vault.Contract Axionvera.Vault.Chain
open Axionvera.Vault.Accounts Axionvera.Vault.Effects Axionvera.Vault.Refinement
open Axionvera.Vault.Solvency

variable {τ : Type}

/-! ## Following the log -/

/-- The arguments of `initialize` that set the reward curve; its event does not
carry them. -/
structure Terms where
  targetDeposits : Int
  utilizationMultipliers : List MultiplierPoint

def termsOf (s : Storage) : Terms where
  targetDeposits := s.targetDeposits.getD 0
  utilizationMultipliers := s.utilizationMultipliers.getD []

def Terms.multiplierBps (terms : Terms) (total : Int) : Nat :=
  match calculateUtilizationMultiplier total terms.targetDeposits terms.utilizationMultipliers with
  | .ok m => m.toNat
  | .error _ => 0

/-- What a legacy distribution is worth at a total of deposits. -/
def Terms.effective (terms : Terms) (total amount : Int) : Int :=
  amount * terms.multiplierBps total / 10000

@[ext] structure Books where
  admin : Option Address
  pendingAdmin : Option Address
  depositToken : Option Address
  rewardToken : Option Address
  total : PoolId → Int
  index : PoolId → Int
  liquid : Address → Int
  locks : Address → List Lock
  supported : Address → Bool
  /-- By asset and user. -/
  assetBalance : Address → Address → Int

/-- The books of a vault that was not initialized yet. -/
def Books.blank : Books where
  admin := none
  pendingAdmin := none
  depositToken := none
  rewardToken := none
  total _ := 0
  index _ := 0
  liquid _ := 0
  locks _ := []
  supported _ := false
  assetBalance _ _ := 0

def booksOf (s : Storage) : Books where
  admin := s.admin
  pendingAdmin := s.pendingAdmin
  depositToken := s.depositToken
  rewardToken := s.rewardToken
  total := poolTotal s
  index := poolIndex s
  liquid := Accounts.liquid s
  locks := Accounts.locks s
  supported := Accounts.supported s
  assetBalance a u := (position s (.asset a) u).balance

/-- The locks that remain when expired ones are set free, in their order, until
`due` is reached. -/
def freeing (now : Nat) : Int → List Lock → List Lock
  | _, [] => []
  | due, lock :: rest =>
    if lock.unlockTimestamp ≤ now ∧ 0 < due then freeing now (due - lock.amount) rest
    else lock :: freeing now due rest

/-- What a user has, locks included. -/
def Books.balance (b : Books) (u : Address) : Int := b.liquid u + lockSum (b.locks u)

/-- What a user can take out at a time. -/
def Books.withdrawable (b : Books) (now : Nat) (u : Address) : Int :=
  b.liquid u + lockSum (released now WITHDRAW_UNLOCK_LIMIT (b.locks u))

/-- An asset balance and the total of its pool move together. -/
def Books.moveAsset (b : Books) (u a : Address) (delta : Int) : Books :=
  { b with
    total := Function.update b.total (.asset a) (b.total (.asset a) + delta)
    assetBalance := Function.update b.assetBalance a
      (Function.update (b.assetBalance a) u (b.assetBalance a u + delta)) }

def Books.raiseIndex (b : Books) (p : PoolId) (amount : Int) : Books :=
  { b with
    index := Function.update b.index p (b.index p + amount * REWARD_INDEX_SCALE / b.total p) }

/-- The books after one more event. -/
def record (terms : Terms) (b : Books) : Event → Books
  | .initialized admin depositToken rewardToken _ =>
    { Books.blank with
      admin := some admin, depositToken := some depositToken, rewardToken := some rewardToken }
  | .deposit u amount _ =>
    { b with
      total := Function.update b.total .legacy (b.total .legacy + amount)
      liquid := Function.update b.liquid u (b.liquid u + amount) }
  | .withdraw u amount _ now =>
    { b with
      total := Function.update b.total .legacy (b.total .legacy - amount)
      liquid := Function.update b.liquid u (b.withdrawable now u - amount)
      locks := Function.update b.locks u (kept now WITHDRAW_UNLOCK_LIMIT (b.locks u)) }
  | .distribute _ amount _ => b.raiseIndex .legacy (terms.effective (b.total .legacy) amount)
  | .claim _ _ _ => b
  | .lock u amount unlockTimestamp _ =>
    { b with
      liquid := Function.update b.liquid u (b.liquid u - amount)
      locks := Function.update b.locks u (b.locks u ++ [⟨amount, unlockTimestamp, 0⟩]) }
  | .unlock u amount now =>
    { b with
      liquid := Function.update b.liquid u (b.liquid u + amount)
      locks := Function.update b.locks u (freeing now amount (b.locks u)) }
  | .adminTransferProposed _ pendingAdmin _ => { b with pendingAdmin := some pendingAdmin }
  | .adminTransferAccepted _ newAdmin _ => { b with admin := some newAdmin, pendingAdmin := none }
  | .upgrade _ _ _ => b
  | .assetAdded a _ => { b with supported := Function.update b.supported a true }
  | .assetDeposit u a amount _ => b.moveAsset u a amount
  | .assetWithdraw u a amount _ _ => b.moveAsset u a (-amount)
  | .assetDistribute _ a amount _ => b.raiseIndex (.asset a) amount
  | .assetClaim _ _ _ _ => b

/-- The events that can come next: who acted was entitled to, what was taken was
there, and the balance an event reports is the one in the books. -/
def fits (terms : Terms) (b : Books) : Event → Prop
  | .initialized _ depositToken rewardToken _ => b.admin = none ∧ depositToken ≠ rewardToken
  | .deposit _ amount _ => 0 < amount
  | .withdraw u amount remainingBalance now =>
    0 < amount ∧ amount ≤ b.withdrawable now u ∧ remainingBalance = b.balance u - amount
  | .distribute caller amount _ => b.admin = some caller ∧ MIN_REWARD_DISTRIBUTION ≤ amount ∧
    0 < b.total .legacy ∧ b.index .legacy <
      (b.raiseIndex .legacy (terms.effective (b.total .legacy) amount)).index .legacy
  | .claim _ amount _ => 0 < amount
  | .lock u amount unlockTimestamp now =>
    0 < amount ∧ amount ≤ b.liquid u ∧ now < unlockTimestamp
  | .unlock u amount now => 0 < amount ∧
    ∃ limit ≤ MAX_UNLOCK_LIMIT, amount = lockSum (released now limit (b.locks u))
  | .adminTransferProposed currentAdmin _ _ => b.admin = some currentAdmin
  | .adminTransferAccepted previousAdmin newAdmin _ =>
    b.admin = some previousAdmin ∧ b.pendingAdmin = some newAdmin
  | .upgrade admin _ _ => b.admin = some admin
  | .assetAdded _ _ => b.admin ≠ none
  | .assetDeposit _ a amount _ => b.supported a = true ∧ 0 < amount
  | .assetWithdraw u a amount remainingBalance _ => b.supported a = true ∧ 0 < amount ∧
    amount ≤ b.assetBalance a u ∧ remainingBalance = b.assetBalance a u - amount
  | .assetDistribute caller a amount _ => b.admin = some caller ∧ b.supported a = true ∧
    MIN_REWARD_DISTRIBUTION ≤ amount ∧ 0 < b.total (.asset a) ∧
      b.index (.asset a) < (b.raiseIndex (.asset a) amount).index (.asset a)
  | .assetClaim _ a amount _ => b.supported a = true ∧ 0 < amount

/-! ## The books after each write -/

section Writes
variable {now limit duration : Nat} {u a : Address} {amount delta paid : Int} {s : Storage}

/-- The sum that one pass over the locks sets free tells which locks it was. -/
theorem freeing_eq_kept {ls : List Lock} (hpos : ∀ l ∈ ls, 0 < l.amount) (now limit : Nat) :
    freeing now (lockSum (released now limit ls)) ls = kept now limit ls := by
  induction ls generalizing limit with
  | nil => rfl
  | cons l rest ih =>
    have hrest : ∀ k ∈ rest, 0 < k.amount := fun k hk => hpos k (List.mem_cons_of_mem l hk)
    unfold released freeing kept
    by_cases hfree : l.unlockTimestamp ≤ now ∧ 0 < limit
    · have hamount := hpos l (by simp)
      have hlater : 0 ≤ lockSum (released now (limit - 1) rest) :=
        lockSum_nonneg fun k hk => hrest k (mem_of_mem_released hk)
      have hsum : lockSum (l :: released now (limit - 1) rest) =
          l.amount + lockSum (released now (limit - 1) rest) := by
        simp [lockSum]
      rw [if_pos hfree, if_pos hfree, hsum, if_pos ⟨hfree.1, by omega⟩, add_sub_cancel_left,
        ih hrest]
    · rw [if_neg hfree, if_neg hfree, ih hrest, if_neg]
      -- an expired lock that stays means that the pass had come to its end
      rintro ⟨hexpired, hdue⟩
      obtain rfl : limit = 0 := by
        by_contra h0
        exact hfree ⟨hexpired, Nat.pos_of_ne_zero h0⟩
      rw [released_zero] at hdue
      exact lt_irrefl 0 hdue

theorem total_eq_update {t : Storage} (hlegacy : poolTotal t .legacy = amount)
    (h : ∀ b, poolTotal t (.asset b) = poolTotal s (.asset b)) :
    poolTotal t = Function.update (poolTotal s) .legacy amount := by
  refine Function.eq_update_iff.mpr ⟨hlegacy, fun p hp => ?_⟩
  cases p with
  | legacy => exact absurd rfl hp
  | asset b => exact h b

theorem booksOf_afterDeposit (terms : Terms) :
    booksOf (afterDeposit now u amount s) = record terms (booksOf s) (.deposit u amount now) := by
  refine Books.ext rfl rfl rfl rfl (total_eq_update rfl fun _ => rfl) rfl ?_ rfl rfl rfl
  refine Function.eq_update_iff.mpr ⟨?_, fun v hv => ?_⟩
  · simp [booksOf, liquid_afterDeposit]
  · simp [booksOf, liquid_afterDeposit, hv]

theorem booksOf_afterWithdraw (terms : Terms) {rest : Int} :
    booksOf (afterWithdraw now u amount s) =
      record terms (booksOf s) (.withdraw u amount rest now) := by
  refine Books.ext rfl rfl rfl rfl (total_eq_update rfl fun _ => rfl) rfl ?_ ?_ rfl rfl
  · refine Function.eq_update_iff.mpr ⟨?_, fun v hv => ?_⟩
    · simp only [booksOf, liquid_afterWithdraw, if_true]
      rfl
    · simp only [booksOf, liquid_afterWithdraw, if_neg hv]
  · refine Function.eq_update_iff.mpr ⟨?_, fun v hv => ?_⟩
    · simp only [booksOf, locks_afterWithdraw, if_true]
    · simp only [booksOf, locks_afterWithdraw, if_neg hv]

theorem booksOf_afterLock (terms : Terms) :
    booksOf (afterLock now u amount duration s) =
      record terms (booksOf s) (.lock u amount (now + duration) now) := by
  refine Books.ext rfl rfl rfl rfl rfl rfl ?_ ?_ rfl rfl
  · refine Function.eq_update_iff.mpr ⟨?_, fun v hv => ?_⟩
    · simp only [booksOf, liquid_afterLock, if_true]
    · simp only [booksOf, liquid_afterLock, if_neg hv]
  · refine Function.eq_update_iff.mpr ⟨?_, fun v hv => ?_⟩
    · simp only [booksOf, locks_afterLock, if_true]
      rfl
    · simp only [booksOf, locks_afterLock, if_neg hv]

theorem booksOf_afterUnlock (terms : Terms) (hs : Sound s) :
    booksOf (afterUnlock now limit u s) = record terms (booksOf s)
      (.unlock u (lockSum (released now limit (locks s u))) now) := by
  refine Books.ext rfl rfl rfl rfl rfl rfl ?_ ?_ rfl rfl
  · refine Function.eq_update_iff.mpr ⟨?_, fun v hv => ?_⟩
    · simp only [booksOf, liquid_afterUnlock, if_true]
    · simp only [booksOf, liquid_afterUnlock, if_neg hv]
  · refine Function.eq_update_iff.mpr ⟨?_, fun v hv => ?_⟩
    · simp only [booksOf, locks_afterUnlock, if_true]
      exact (freeing_eq_kept (hs.lock_pos u) now limit).symm
    · simp only [booksOf, locks_afterUnlock, if_neg hv]

theorem booksOf_afterDistribution (hterms : termsOf s = terms) :
    booksOf (afterDistribution (effective s amount) s) =
      record terms (booksOf s) (.distribute a amount now) := by
  subst hterms
  refine Books.ext rfl rfl rfl rfl rfl
    (Function.eq_update_iff.mpr ⟨rfl, fun p hp => ?_⟩) rfl rfl rfl rfl
  cases p with
  | legacy => exact absurd rfl hp
  | asset b => rfl

theorem booksOf_afterAssetDistribution (terms : Terms) {caller : Address} :
    booksOf (afterAssetDistribution a amount s) =
      record terms (booksOf s) (.assetDistribute caller a amount now) := by
  refine Books.ext rfl rfl rfl rfl rfl
    (Function.eq_update_iff.mpr ⟨?_, fun p hp => ?_⟩) rfl rfl rfl rfl
  · exact (FinMap.getD_set _ _ _ _ _).trans (if_pos rfl)
  · cases p with
    | legacy => rfl
    | asset b =>
      exact congrArg Pool.index (pool_afterAssetDistribution_other fun hb => hp (congrArg _ hb))

theorem booksOf_afterAssetMove :
    booksOf (afterAssetMove now u a delta s) = (booksOf s).moveAsset u a delta := by
  refine Books.ext rfl rfl rfl rfl
    (Function.eq_update_iff.mpr ⟨?_, fun p hp => ?_⟩) rfl rfl rfl rfl ?_
  · exact (FinMap.getD_set _ _ _ _ _).trans (if_pos rfl)
  · cases p with
    | legacy => rfl
    | asset b => exact congrArg Pool.total (pool_afterAssetMove_other fun hb => hp (congrArg _ hb))
  · refine Function.eq_update_iff.mpr
      ⟨Function.eq_update_iff.mpr ⟨?_, fun v hv => ?_⟩, fun b hb => funext fun v => ?_⟩
    · simp only [booksOf, afterAssetMove, position_putAssetPosition, and_self, if_true]
    · simp only [booksOf, afterAssetMove, position_putAssetPosition, hv, false_and, if_false]
      rfl
    · simp only [booksOf, afterAssetMove, position_putAssetPosition, hb, and_false, if_false]
      rfl

/-- A claim moves no balance. -/
theorem booksOf_afterAssetClaim : booksOf (afterAssetClaim now u a paid s) = booksOf s := by
  refine Books.ext rfl rfl rfl rfl rfl rfl rfl rfl rfl ?_
  funext b v
  simp only [booksOf, afterAssetClaim, position_putAssetPosition]
  split
  · rename_i h
    obtain ⟨rfl, rfl⟩ := h
    rfl
  · rfl

theorem booksOf_afterAddAsset (terms : Terms) (hs : Sound s) :
    booksOf (afterAddAsset a s) = record terms (booksOf s) (.assetAdded a now) := by
  have hpool := pool_afterAddAsset hs a
  refine Books.ext rfl rfl rfl rfl (funext fun p => congrArg Pool.total (hpool p))
    (funext fun p => congrArg Pool.index (hpool p)) rfl rfl ?_ ?_
  · refine Function.eq_update_iff.mpr ⟨?_, fun b hb => ?_⟩
    · simp [booksOf, supported_afterAddAsset]
    · simp [booksOf, supported_afterAddAsset, hb]
  · funext b u
    exact congrArg (fun P => (P.account u).balance) (hpool (.asset b))

end Writes

/-! ## Every call is told -/

section Steps
variable {D : Deployment τ} {env : Env} {w w' : World τ} {call : Call} {value : Value}
variable {terms : Terms}

/-- The books of a world. -/
def worldBooks (w : World τ) : Books := booksOf w.storage

/-- What happened between two worlds is in the log. -/
abbrev Told (terms : Terms) (w w' : World τ) : Prop :=
  Logged (record terms) (fits terms) World.events worldBooks w w'

/-- A claim is told if it pays anything. -/
theorem told_of_claim {e : Event} {paid : Int} {s : Storage} {tokens : τ} (h0 : 0 ≤ paid)
    (hbooks : booksOf s = booksOf w.storage) (hrecord : ∀ b, record terms b e = b)
    (hfits : 0 < paid → fits terms (booksOf w.storage) e) :
    Told terms w (moved w s tokens (claimEvents paid e)) := by
  unfold claimEvents
  split
  · exact .silent (List.append_nil _) hbooks
  · exact .single rfl (hfits (by omega)) (hbooks.trans (hrecord _).symm)

theorem pays_nonneg {u : Address} {paid : Int} {tokens : τ} (h : Pays D env w u paid tokens) :
    0 ≤ paid := by
  cases h with
  | nothing => exact le_rfl
  | payout h0 => exact h0.le

theorem lt_raiseIndex {b : Books} {p : PoolId} {amount : Int}
    (h : 0 < amount * REWARD_INDEX_SCALE / b.total p) :
    b.index p < (b.raiseIndex p amount).index p := by
  simp only [Books.raiseIndex, Function.update_self]
  omega

/-- **A successful call is told in full by what it logs.** -/
theorem told_of_effect (hs : Sound w.storage) (hterms : termsOf w.storage = terms)
    (h : Effect D env w call value w') : Told terms w w' := by
  cases h with
  | proposeNewAdmin ha => exact .single rfl ha rfl
  | acceptAdmin _ hp ha => exact .single rfl ⟨ha, hp⟩ rfl
  | pauseContract => exact .silent (List.append_nil _) rfl
  | unpauseContract => exact .silent (List.append_nil _) rfl
  | upgrade ha => exact .single rfl ha rfl
  | deposit _ h0 => exact .single rfl h0 (booksOf_afterDeposit terms)
  | withdraw _ h0 _ _ _ hle =>
    exact .single rfl ⟨h0, hle, rfl⟩ (booksOf_afterWithdraw terms)
  | lock _ h0 hd _ _ _ hle =>
    exact .single rfl ⟨h0, hle, by omega⟩ (booksOf_afterLock terms)
  | @unlockExpired u limit x _ _ hlim hx =>
    split
    · rename_i hpos
      subst hx
      exact .single rfl ⟨hpos, _, hlim, rfl⟩ (booksOf_afterUnlock terms hs)
    · rename_i hzero
      -- locks have positive amounts: a pass that frees no amount frees no lock
      have hnil : released w.timestamp limit.toNat (locks w.storage u) = [] := by
        by_contra hne
        exact hzero (hx ▸ lockSum_pos (fun l hl => hs.lock_pos u l (mem_of_mem_released hl)) hne)
      exact .silent (List.append_nil _) (congrArg booksOf (afterUnlock_of_nil hnil))
  | distributeRewards hmin ha _ _ _ _ _ hd =>
    subst hterms
    exact .single rfl ⟨ha, hmin, hd.total_pos, lt_raiseIndex hd.raises⟩
      (booksOf_afterDistribution rfl)
  | claimRewards _ _ _ _ _ hpay =>
    exact told_of_claim (pays_nonneg hpay) rfl (fun _ => rfl) fun h0 => h0
  | addAsset ha =>
    have hadmin : w.storage.admin ≠ none := ha ▸ Option.some_ne_none _
    exact .single rfl hadmin (booksOf_afterAddAsset terms hs)
  | depositAsset _ h0 _ hsup => exact .single rfl ⟨hsup, h0⟩ booksOf_afterAssetMove
  | withdrawAsset _ h0 _ hsup _ hle => exact .single rfl ⟨hsup, h0, hle, rfl⟩ booksOf_afterAssetMove
  | distributeRewardsForAsset hmin hsup ha _ _ _ hd =>
    exact .single rfl ⟨ha, hsup, hmin, hd.total_pos, lt_raiseIndex hd.raises⟩
      (booksOf_afterAssetDistribution terms)
  | claimRewardsForAsset _ _ hsup _ _ _ hpay =>
    exact told_of_claim (pays_nonneg hpay) booksOf_afterAssetClaim (fun _ => rfl)
      fun h0 => ⟨hsup, h0⟩
  | view => exact .silent rfl rfl

/-- An `initialize` of a freshly deployed vault, with the terms it sets. -/
def Opens (D : Deployment τ) (v : World τ) (terms : Terms) (w₀ : World τ) : Prop :=
  v.storage = .fresh ∧ ∃ (env : Env) (admin depositToken rewardToken : Address)
    (vestingPeriod : UInt64) (targetDeposits : I128) (multipliers : List MultiplierPoint)
    (value : Value), env.currentContract = D.contract ∧ terms = ⟨targetDeposits.val, multipliers⟩ ∧
    Returns (exec D.client (.initializeVault admin depositToken rewardToken vestingPeriod
      targetDeposits multipliers)) env v value w₀

variable {v w₀ : World τ} {h : List (Entry τ)} {e : Entry τ}

theorem Opens.started (ho : Opens D v terms w₀) : Started D w₀ := by
  obtain ⟨hfresh, env, _, _, _, _, _, _, value, hc, _, hret⟩ := ho
  exact ⟨v, env, _, _, _, _, _, _, value, hfresh, hc, hret⟩

theorem booksOf_fresh : booksOf Storage.fresh = Books.blank :=
  Books.ext rfl rfl rfl rfl (funext fun p => by cases p <;> rfl)
    (funext fun p => by cases p <;> rfl) rfl rfl rfl rfl

/-- `initialize` writes the first entry of the log and moves no tokens. -/
theorem initializeVault_world {admin depositToken rewardToken : Address} {period : Nat}
    {target : Int} {points : List MultiplierPoint} {x : Unit}
    (h : Returns (initializeVault admin depositToken rewardToken period target points) env w x w') :
    w'.events = w.events ++ [.initialized admin depositToken rewardToken w.timestamp] ∧
      w'.tokens = w.tokens ∧ w'.timestamp = w.timestamp := by
  simp only [initializeVault, isInitialized, initializeState, returns_bind, onStorage_returns,
    StorageSpec.requireNotPaused_returns, and_assoc, exists_and_left, ↓existsAndEq, exists_const,
    returns_gets, returns_failIf, returns_lift, requireAuth_returns, returns_modify, emit_returns,
    true_and] at h
  obtain ⟨_, _, _, _, _, _, _, rfl⟩ := h
  exact ⟨rfl, rfl, rfl⟩

theorem Opens.terms_eq (ho : Opens D v terms w₀) : termsOf w₀.storage = terms := by
  obtain ⟨hfresh, _, _, _, _, _, _, _, _, _, rfl, hret⟩ := ho
  obtain ⟨_, hstorage⟩ := initializeVault_storage hfresh (returns_then.mp hret).2
  rw [hstorage]
  rfl

theorem Opens.told (ho : Opens D v terms w₀) : Told terms v w₀ := by
  obtain ⟨hfresh, _, _, _, _, _, _, _, _, _, rfl, hret⟩ := ho
  obtain ⟨hdistinct, hstorage⟩ := initializeVault_storage hfresh (returns_then.mp hret).2
  have hblank : worldBooks v = Books.blank := by
    rw [worldBooks, hfresh, booksOf_fresh]
  refine .single (initializeVault_world (returns_then.mp hret).2).1 ?_ ?_
  · rw [hblank]
    exact ⟨rfl, hdistinct⟩
  · rw [worldBooks, hstorage]
    exact Books.ext rfl rfl rfl rfl (funext fun p => by cases p <;> rfl)
      (funext fun p => by cases p <;> rfl) rfl rfl rfl rfl

theorem termsOf_of_config {s t : Storage} (h : configOf t = configOf s) : termsOf t = termsOf s := by
  have htarget : t.targetDeposits = s.targetDeposits := congrArg Config.targetDeposits h
  have hpoints : t.utilizationMultipliers = s.utilizationMultipliers :=
    congrArg Config.utilizationMultipliers h
  rw [termsOf, termsOf, htarget, hpoints]

/-- The vault is between calls and still has the terms it was opened with. -/
def Kept (terms : Terms) (w : World τ) : Prop := Ready w.storage ∧ termsOf w.storage = terms

theorem kept_of_step (hk : Kept terms w) (hs : ChainStep D w e w') : Kept terms w' :=
  ⟨ready_of_step hk.1 hs, (termsOf_of_config (configOf_of_step hk.1 hs)).trans hk.2⟩

theorem Opens.kept (ho : Opens D v terms w₀) : Kept terms w₀ :=
  ⟨ready_of_started ho.started, ho.terms_eq⟩

theorem told_of_step (hk : Kept terms w) (hs : ChainStep D w e w') : Told terms w w' := by
  cases stepEffect_of_step hk.1 hs with
  | call _ heff => exact told_of_effect hk.1.sound hk.2 heff
  | failed => exact .silent rfl rfl
  | outside => exact .silent rfl rfl

theorem told_since_of_run (ho : Opens D v terms w₀) (hr : ChainRun D w₀ h w) : Told terms w₀ w :=
  logged_of_run ho.kept (fun _ _ _ => kept_of_step) (fun _ _ _ => told_of_step) hr

theorem told_of_run (ho : Opens D v terms w₀) (hr : ChainRun D w₀ h w) : Told terms v w :=
  ho.told.trans (told_since_of_run ho hr)

theorem worldBooks_of_opens (ho : Opens D v terms w₀) : worldBooks v = Books.blank := by
  rw [worldBooks, ho.1, booksOf_fresh]

/-! ## The log of a run -/

/-- **The log replays to the books.** After every run of the vault, whoever
followed its events from the start knows the administrators, the tokens, the
assets, every total and reward index, what each user has liquid and in which
locks, and every balance of an asset, exactly as they are stored. -/
theorem log_replays_books (ho : Opens D v terms w₀) (hr : ChainRun D w₀ h w) :
    ∃ log, w.events = v.events ++ log ∧
      replay (record terms) .blank log = booksOf w.storage := by
  obtain ⟨log, hlog, _, hreplay⟩ := told_of_run ho hr
  rw [worldBooks_of_opens ho] at hreplay
  exact ⟨log, hlog, hreplay⟩

/-! ## Dates -/

def timestampOf : Event → Nat
  | .initialized _ _ _ t => t
  | .deposit _ _ t => t
  | .withdraw _ _ _ t => t
  | .distribute _ _ t => t
  | .claim _ _ t => t
  | .lock _ _ _ t => t
  | .unlock _ _ t => t
  | .adminTransferProposed _ _ t => t
  | .adminTransferAccepted _ _ t => t
  | .upgrade _ _ t => t
  | .assetAdded _ t => t
  | .assetDeposit _ _ _ t => t
  | .assetWithdraw _ _ _ _ t => t
  | .assetDistribute _ _ _ t => t
  | .assetClaim _ _ _ t => t

/-- What was logged from `w` on carries dates between the two worlds, in their
order. -/
structure Dated (w w' : World τ) (new : List Event) : Prop where
  le : w.timestamp ≤ w'.timestamp
  after : ∀ e ∈ new, w.timestamp ≤ timestampOf e
  before : ∀ e ∈ new, timestampOf e ≤ w'.timestamp
  ordered : new.Pairwise fun e e' => timestampOf e ≤ timestampOf e'

theorem Dated.silent (ht : w.timestamp ≤ w'.timestamp) : Dated w w' [] :=
  ⟨ht, by simp, by simp, .nil⟩

theorem Dated.trans {w₁ w₂ w₃ : World τ} {new new' : List Event} (h : Dated w₁ w₂ new)
    (h' : Dated w₂ w₃ new') : Dated w₁ w₃ (new ++ new') := by
  refine ⟨h.le.trans h'.le, ?_, ?_, List.pairwise_append.mpr ⟨h.ordered, h'.ordered, ?_⟩⟩
  · intro e he
    rcases List.mem_append.mp he with he | he
    · exact h.after e he
    · exact h.le.trans (h'.after e he)
  · intro e he
    rcases List.mem_append.mp he with he | he
    · exact (h.before e he).trans h'.le
    · exact h'.before e he
  · intro e he e' he'
    exact (h.before e he).trans (h'.after e' he')

/-- A call logs one event at most, at its own time. -/
theorem dated_single {new : List Event} {e : Event} (ht : w'.timestamp = w.timestamp)
    (hnew : new.Sublist [e]) (he : timestampOf e = w.timestamp) : Dated w w' new := by
  have hmem : ∀ e' ∈ new, timestampOf e' = w.timestamp := fun e' he' => by
    rw [List.mem_singleton.mp (hnew.subset he'), he]
  exact ⟨ht.ge, fun e' he' => (hmem e' he').ge, fun e' he' => (hmem e' he').trans_le ht.ge,
    (List.pairwise_singleton _ e).sublist hnew⟩

theorem claimEvents_sublist (paid : Int) (e : Event) : (claimEvents paid e).Sublist [e] := by
  unfold claimEvents
  split
  · exact List.nil_sublist _
  · exact List.Sublist.refl _

theorem dated_of_effect (h : Effect D env w call value w') :
    ∃ new, w'.events = w.events ++ new ∧ Dated w w' new := by
  cases h with
  | unlockExpired =>
    refine ⟨_, rfl, ?_⟩
    split
    · exact dated_single rfl (List.Sublist.refl _) rfl
    · exact .silent le_rfl
  | claimRewards => exact ⟨_, rfl, dated_single rfl (claimEvents_sublist _ _) rfl⟩
  | claimRewardsForAsset => exact ⟨_, rfl, dated_single rfl (claimEvents_sublist _ _) rfl⟩
  | pauseContract => exact ⟨[], rfl, .silent le_rfl⟩
  | unpauseContract => exact ⟨[], rfl, .silent le_rfl⟩
  | view => exact ⟨[], (List.append_nil _).symm, .silent le_rfl⟩
  | _ => exact ⟨_, rfl, dated_single rfl (List.Sublist.refl _) rfl⟩

theorem dated_of_step (hr : Ready w.storage) (hs : ChainStep D w e w') :
    ∃ new, w'.events = w.events ++ new ∧ Dated w w' new := by
  cases stepEffect_of_step hr hs with
  | call _ heff => exact dated_of_effect heff
  | failed => exact ⟨[], (List.append_nil _).symm, .silent le_rfl⟩
  | outside ht => exact ⟨[], (List.append_nil _).symm, .silent ht⟩

theorem dated_of_run (ho : Opens D v terms w₀) (hr : ChainRun D w₀ h w) :
    ∃ new, w.events = v.events ++ new ∧ Dated v w new := by
  induction hr with
  | nil =>
    obtain ⟨_, _, _, _, _, _, _, _, _, _, _, hret⟩ := ho
    obtain ⟨hevents, _, htime⟩ := initializeVault_world (returns_then.mp hret).2
    exact ⟨_, hevents, dated_single htime (List.Sublist.refl _) rfl⟩
  | snoc hr hs ih =>
    obtain ⟨log, hlog, hdated⟩ := ih
    obtain ⟨new, hnew, hdated'⟩ := dated_of_step (ready_of_run ho.started hr) hs
    exact ⟨log ++ new, by rw [hnew, hlog, List.append_assoc], hdated.trans hdated'⟩

def isInitialize : Event → Bool
  | .initialized _ _ _ _ => true
  | _ => false

theorem Opens.first (ho : Opens D v terms w₀) :
    ∃ first, isInitialize first = true ∧ w₀.events = v.events ++ [first] := by
  obtain ⟨_, _, _, _, _, _, _, _, _, _, _, hret⟩ := ho
  exact ⟨_, rfl, (initializeVault_world (returns_then.mp hret).2).1⟩

theorem Opens.admin_ne_none (ho : Opens D v terms w₀) : (worldBooks w₀).admin ≠ none := by
  obtain ⟨hfresh, _, _, _, _, _, _, _, _, _, _, hret⟩ := ho
  obtain ⟨_, hstorage⟩ := initializeVault_storage hfresh (returns_then.mp hret).2
  rw [worldBooks, hstorage]
  exact Option.some_ne_none _

/-- The books keep an administrator once they have one. -/
theorem admin_record {b : Books} (h : b.admin ≠ none) (event : Event) :
    (record terms b event).admin ≠ none := by
  cases event with
  | initialized => exact Option.some_ne_none _
  | adminTransferAccepted => exact Option.some_ne_none _
  | _ => exact h

/-- An `Initialize` fits only books without an administrator. -/
theorem isInitialize_of_legal {b : Books} {log : List Event} (h : b.admin ≠ none)
    (hlegal : Legal (record terms) (fits terms) b log) : ∀ event ∈ log, isInitialize event = false := by
  induction log generalizing b with
  | nil => simp
  | cons first rest ih =>
    refine List.forall_mem_cons.mpr ⟨?_, ih (admin_record h first) hlegal.2⟩
    cases first with
    | initialized => exact absurd hlegal.1.1 h
    | _ => rfl

/-- **Every log is well formed.** It begins with the one `Initialize`, it is in
the order of its dates, and every event fits the ones before it: who distributes,
hands over or upgrades is the administrator the log knows, an asset was added
before it is used, nobody takes out or locks more than they have, and each
remaining balance that is reported is the sum of what was put in and taken out. -/
theorem log_well_formed (ho : Opens D v terms w₀) (hr : ChainRun D w₀ h w) :
    ∃ first rest, w.events = v.events ++ first :: rest ∧ isInitialize first = true ∧
      (∀ event ∈ rest, isInitialize event = false) ∧
      Legal (record terms) (fits terms) .blank (first :: rest) ∧ Dated v w (first :: rest) := by
  obtain ⟨first, hfirst, hopened⟩ := ho.first
  obtain ⟨rest, hrest, hlater, _⟩ := told_since_of_run ho hr
  obtain ⟨log, hlog, hlegal, _⟩ := told_of_run ho hr
  obtain ⟨log', hlog', hdated⟩ := dated_of_run ho hr
  have hevents : w.events = v.events ++ first :: rest := by
    rw [hrest, hopened, List.append_assoc, List.singleton_append]
  obtain rfl := List.append_cancel_left (hlog.symm.trans hevents)
  obtain rfl := List.append_cancel_left (hlog'.symm.trans hevents)
  rw [worldBooks_of_opens ho] at hlegal
  exact ⟨first, rest, hevents, hfirst, isInitialize_of_legal ho.admin_ne_none hlater, hlegal, hdated⟩

/-! ## Tokens -/

/-- What an event brings into the vault of one token, or takes out. -/
def flow (token : Address) (b : Books) : Event → Int
  | .deposit _ amount _ => if b.depositToken = some token then amount else 0
  | .withdraw _ amount _ _ => if b.depositToken = some token then -amount else 0
  | .distribute _ amount _ => if b.rewardToken = some token then amount else 0
  | .claim _ amount _ => if b.rewardToken = some token then -amount else 0
  | .assetDeposit _ a amount _ => if token = a then amount else 0
  | .assetWithdraw _ a amount _ _ => if token = a then -amount else 0
  | .assetDistribute _ _ amount _ => if b.rewardToken = some token then amount else 0
  | .assetClaim _ _ amount _ => if b.rewardToken = some token then -amount else 0
  | _ => 0

abbrev netFlow (terms : Terms) (token : Address) : Books → List Event → Int :=
  tally (record terms) (flow token)

theorem netFlow_append (token : Address) (b : Books) (log new : List Event) :
    netFlow terms token b (log ++ new) =
      netFlow terms token b log + netFlow terms token (replay (record terms) b log) new :=
  tally_append _ _ b log new

section Flows
attribute [local simp] moved worldBooks booksOf tally flow depositedBy reservedBy move callMove
  collectedBy paidOutBy amountOf

/-- The events of a call say what the books of the vault say. -/
theorem flow_of_effect (terms : Terms) (h : Effect D env w call value w') (token : Address) :
    ∃ new, w'.events = w.events ++ new ∧ netFlow terms token (worldBooks w) new =
      depositedBy w.storage token (.ok env call w value) +
        reservedBy w.storage token (.ok env call w value) := by
  cases h with
  | @unlockExpired u limit x => exact ⟨_, rfl, by split <;> simp⟩
  | claimRewards => exact ⟨_, rfl, by unfold claimEvents; split <;> simp_all⟩
  | claimRewardsForAsset => exact ⟨_, rfl, by unfold claimEvents; split <;> simp_all⟩
  | view => exact ⟨[], (List.append_nil _).symm, by simp⟩
  | _ => exact ⟨_, rfl, by simp⟩

end Flows

/-- A call moves the tokens that its events name, and no others. -/
theorem balance_of_told (terms : Terms) (hD : D.Lawful) (hr : Ready w.storage)
    (hc : env.currentContract = D.contract) (hret : Returns (exec D.client call) env w value w')
    (token : Address) : ∃ new, w'.events = w.events ++ new ∧ D.balance w'.tokens token D.contract =
      D.balance w.tokens token D.contract + netFlow terms token (worldBooks w) new := by
  have heff := effect_of_returns hr hret
  obtain ⟨new, hnew, hflow⟩ := flow_of_effect terms heff token
  refine ⟨new, hnew, ?_⟩
  rw [balance_of_effect hD hc heff, hflow, add_assoc]

/-- What a step adds to the log is covered by what it adds to the vault. -/
theorem covered_of_step (terms : Terms) (hD : D.Lawful) (hr : Ready w.storage)
    (hs : ChainStep D w e w') (token : Address) : ∃ new, w'.events = w.events ++ new ∧
      D.balance w.tokens token D.contract + netFlow terms token (worldBooks w) new ≤
        D.balance w'.tokens token D.contract := by
  have hnil : ∀ x : Int, x + netFlow terms token (worldBooks w) [] = x := fun x => add_zero x
  cases hs with
  | ok hc hret =>
    obtain ⟨new, hnew, hbal⟩ := balance_of_told terms hD hr hc hret token
    exact ⟨new, hnew, hbal.ge⟩
  | failed _ hn =>
    rw [invoke_of_not_returns hn]
    exact ⟨[], (List.append_nil _).symm, (hnil _).le⟩
  | outside _ hb => exact ⟨[], (List.append_nil _).symm, (hnil _).trans_le (hb token)⟩

theorem covered_of_log (hD : D.Lawful) (ho : Opens D v terms w₀) (hr : ChainRun D w₀ h w)
    (token : Address) : ∃ log, w.events = v.events ++ log ∧ D.balance v.tokens token D.contract +
      netFlow terms token .blank log ≤ D.balance w.tokens token D.contract := by
  induction hr with
  | nil =>
    obtain ⟨_, _, _, _, _, _, _, _, _, _, _, hret⟩ := ho
    obtain ⟨hevents, htokens, _⟩ := initializeVault_world (returns_then.mp hret).2
    exact ⟨_, hevents, by rw [htokens]; exact (add_zero _).le⟩
  | snoc hr hs ih =>
    obtain ⟨log, hlog, hle⟩ := ih
    obtain ⟨new, hnew, hle'⟩ :=
      covered_of_step terms hD (ready_of_run ho.started hr) hs token
    obtain ⟨log', hlog', _, hreplay⟩ := told_of_run ho hr
    obtain rfl := List.append_cancel_left (hlog'.symm.trans hlog)
    rw [worldBooks_of_opens ho] at hreplay
    refine ⟨log' ++ new, by rw [hnew, hlog, List.append_assoc], ?_⟩
    rw [netFlow_append, hreplay]
    omega

/-- **No transfer goes unlogged.** Of every token the vault holds at least what
its log says came in and did not go out again; tokens that were sent to it
without a call are the only difference, since a call moves exactly what its
events say. -/
theorem balance_follows_log (hD : D.Lawful) (ho : Opens D v terms w₀) (hr : ChainRun D w₀ h w)
    (token : Address) :
    (∃ log, w.events = v.events ++ log ∧ D.balance v.tokens token D.contract +
      netFlow terms token .blank log ≤ D.balance w.tokens token D.contract) ∧
    ∀ env call value w', env.currentContract = D.contract →
      Returns (exec D.client call) env w value w' → ∃ new, w'.events = w.events ++ new ∧
        D.balance w'.tokens token D.contract =
          D.balance w.tokens token D.contract + netFlow terms token (booksOf w.storage) new :=
  ⟨covered_of_log hD ho hr token, fun _ _ _ _ hc hret =>
    balance_of_told _ hD (ready_of_run ho.started hr) hc hret token⟩

end Steps

/-! ## A log -/

/-- A lock that a withdrawal sets free on the way, and a distribution that is
claimed. -/
def loggedCalls : List (Nat × Call) :=
  [(10, .deposit alice 200000), (20, .lock alice 40 1000), (30, .deposit bob 100000),
    (40, .distributeRewards 300000), (50, .claimRewards bob), (2000, .withdraw alice 199990)]

def loggedSession : List (Entry Bank) × World Bank := session 1000000 ⟨0, 0, []⟩ loggedCalls

theorem opens_logged : Opens bank (unopened 1000000) ⟨0, []⟩ (opened 1000000 ⟨0, 0, []⟩) := by
  obtain ⟨value, hret⟩ := returns_of_isOk (m := exec bank.client (Opening.call ⟨0, 0, []⟩))
    (r := openEnv) (s := unopened 1000000) rfl
  exact ⟨rfl, openEnv, _, _, _, _, _, _, value, rfl, rfl, hret⟩

theorem loggedSession_run :
    ChainRun bank (opened 1000000 ⟨0, 0, []⟩) loggedSession.1 loggedSession.2 :=
  session_run 1000000 ⟨0, 0, []⟩ loggedCalls

theorem log_replays_books_session : ∃ log, loggedSession.2.events = log ∧
    (replay (record ⟨0, []⟩) .blank log).total .legacy = 100010 ∧
    (replay (record ⟨0, []⟩) .blank log).liquid alice = 10 ∧
    (replay (record ⟨0, []⟩) .blank log).locks alice = [] ∧
    (replay (record ⟨0, []⟩) .blank log).index .legacy = 1000000000 := by
  obtain ⟨log, hlog, hreplay⟩ := log_replays_books opens_logged loggedSession_run
  refine ⟨log, hlog, ?_⟩
  rw [hreplay]
  exact ⟨rfl, rfl, rfl, rfl⟩

theorem log_well_formed_session : ∃ first rest, loggedSession.2.events = first :: rest ∧
    isInitialize first = true ∧ rest.length = 6 ∧
    (∀ event ∈ rest, isInitialize event = false) ∧
    Legal (record ⟨0, []⟩) (fits ⟨0, []⟩) .blank (first :: rest) := by
  obtain ⟨first, rest, hlog, hfirst, hrest, hlegal, _⟩ :=
    log_well_formed opens_logged loggedSession_run
  have hevents : loggedSession.2.events = first :: rest := hlog
  have hlength : loggedSession.2.events.length = 7 := rfl
  rw [hevents, List.length_cons] at hlength
  exact ⟨first, rest, hevents, hfirst, by omega, hrest, hlegal⟩

theorem balance_follows_log_session : ∃ log, loggedSession.2.events = log ∧
    0 + netFlow ⟨0, []⟩ rewardToken .blank log ≤ 200000 := by
  obtain ⟨⟨log, hlog, hle⟩, _⟩ := balance_follows_log (bankDeployment_lawful vaultAddress)
    opens_logged loggedSession_run rewardToken
  exact ⟨log, hlog, hle⟩

end Axionvera.Vault.EventLog

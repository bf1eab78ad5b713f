import Axionvera.Vault.Principal

/-! # Who may change what

A user's record changes only in a call the user authorised while the vault was
not paused, what the administrator controls only in a call the administrator
authorised, and the administrator only when the one they proposed last accepts.
What `initialize` configured never changes. -/
namespace Axionvera.Vault.Authority
open Axionvera.Lib.Host Axionvera.Lib.KeyValue Axionvera.Lib.Transition
open Axionvera.Vault.Types Axionvera.Vault.Storage Axionvera.Vault.Contract Axionvera.Vault.Chain
open Axionvera.Vault.Accounts Axionvera.Vault.Effects Axionvera.Vault.Refinement
open Axionvera.Vault.Principal

variable {τ : Type}

/-! ## One signature -/

theorem contract_unsigned {D : Deployment τ} {u : Address} (hu : u ≠ D.contract) :
    decide (D.contract = u) = false :=
  decide_eq_false hu.symm

/-- A call that one user signs, with everything uploaded. -/
def signedBy (D : Deployment τ) (u : Address) (hu : u ≠ D.contract) : Env where
  currentContract := D.contract
  auths a := decide (a = u)
  selfUnsigned := contract_unsigned hu
  uploaded _ := true

theorem signedBy_auths {D : Deployment τ} {u : Address} (hu : u ≠ D.contract) :
    (signedBy D u hu).auths u = true :=
  decide_eq_true rfl

/-! ## What belongs to a user -/

/-- Everything that is stored for one user, absent keys included. -/
structure UserRecord where
  liquidBalance : Option Int
  locks : Option (List Lock)
  rewardIndex : Option Int
  accruedRewards : Option Int
  lastRewardTimestamp : Option Nat
  assetBalance : Address → Option Int
  assetRewardIndex : Address → Option Int
  assetAccruedRewards : Address → Option Int
  assetLastRewardTimestamp : Address → Option Nat

def recordOf (s : Storage) (u : Address) : UserRecord where
  liquidBalance := s.userLiquidBalance.get u
  locks := s.userLocks.get u
  rewardIndex := s.userRewardIndex.get u
  accruedRewards := s.userAccruedRewards.get u
  lastRewardTimestamp := s.userLastRewardTimestamp.get u
  assetBalance a := s.userAssetBalance.get (u, a)
  assetRewardIndex a := s.userAssetRewardIndex.get (u, a)
  assetAccruedRewards a := s.userAssetAccruedRewards.get (u, a)
  assetLastRewardTimestamp a := s.userAssetLastRewardTimestamp.get (u, a)

section Records
variable {s : Storage} {u v a : Address} {now duration : Nat} {amount : Int}

theorem recordOf_putPosition (h : u ≠ v) (q : UserPosition) :
    recordOf (putPosition v q s) u = recordOf s u := by
  simp only [recordOf, putPosition, FinMap.get_put_ne _ _ h, FinMap.get_set_ne _ _ h]

theorem recordOf_putAssetPosition (h : u ≠ v) (q : UserPosition) :
    recordOf (putAssetPosition v a q s) u = recordOf s u := by
  have hk : ∀ b, (u, b) ≠ (v, a) := fun b hb => h (congrArg Prod.fst hb)
  simp only [recordOf, putAssetPosition, FinMap.get_put_ne _ _ (hk _), FinMap.get_set_ne _ _ (hk _)]

theorem recordOf_afterUnlock (now limit : Nat) (h : u ≠ v) :
    recordOf (afterUnlock now limit v s) u = recordOf s u := by
  by_cases hr : released now limit (locks s v) = []
  · rw [afterUnlock_of_nil hr]
  · rw [afterUnlock_of_ne_nil hr]
    simp only [recordOf, FinMap.get_put_ne _ _ h, FinMap.get_set_ne _ _ h]

theorem recordOf_afterDeposit (h : u ≠ v) :
    recordOf (afterDeposit now v amount s) u = recordOf s u := by
  rw [afterDeposit, recordOf_putPosition h]
  simp only [recordOf, FinMap.get_put_ne _ _ h]

theorem recordOf_afterWithdraw (h : u ≠ v) :
    recordOf (afterWithdraw now v amount s) u = recordOf s u := by
  have hunlock := recordOf_afterUnlock (s := s) now WITHDRAW_UNLOCK_LIMIT h
  rw [← hunlock, afterWithdraw, recordOf_putPosition h]
  simp only [recordOf, FinMap.get_put_ne _ _ h]

theorem recordOf_afterLock (h : u ≠ v) :
    recordOf (afterLock now v amount duration s) u = recordOf s u := by
  rw [← recordOf_putPosition h (settled now s .legacy v)]
  simp only [recordOf, afterLock, FinMap.get_put_ne _ _ h, FinMap.get_set_ne _ _ h, putPosition]

end Records

section Calls
variable {D : Deployment τ} {env : Env} {w₀ w w' : World τ} {call : Call} {value : Value}
variable {h : List (Entry τ)} {e : Entry τ}

/-- The user of a call who authorised it, or a record the call does not touch. -/
theorem record_or_auth (heff : Effect D env w call value w') (u : Address) :
    recordOf w'.storage u = recordOf w.storage u ∨
      env.auths u = true ∧ w.storage.isPaused ≠ some true := by
  -- a call made for `v` writes the record of `v` only
  have hcall : ∀ {v : Address} {t : Storage}, w.storage.isPaused ≠ some true → env.auths v = true →
      (u ≠ v → recordOf t u = recordOf w.storage u) →
      recordOf t u = recordOf w.storage u ∨ env.auths u = true ∧ w.storage.isPaused ≠ some true := by
    intro v t hp hauth hother
    by_cases huv : u = v
    · subst huv
      exact Or.inr ⟨hauth, hp⟩
    · exact Or.inl (hother huv)
  cases heff with
  | deposit hp _ hauth => exact hcall hp hauth recordOf_afterDeposit
  | withdraw hp _ hauth => exact hcall hp hauth recordOf_afterWithdraw
  | lock hp _ _ hauth => exact hcall hp hauth recordOf_afterLock
  | unlockExpired hp hauth => exact hcall hp hauth (recordOf_afterUnlock _ _)
  | claimRewards hp hauth => exact hcall hp hauth fun huv => recordOf_putPosition huv _
  | depositAsset hp _ hauth => exact hcall hp hauth fun huv => recordOf_putAssetPosition huv _
  | withdrawAsset hp _ hauth => exact hcall hp hauth fun huv => recordOf_putAssetPosition huv _
  | claimRewardsForAsset hp hauth => exact hcall hp hauth fun huv => recordOf_putAssetPosition huv _
  | _ => exact Or.inl rfl

/-! ## What belongs to the administrator -/

/-- What only the administrator changes, the proposed successor apart. -/
structure AdminRecord where
  rewardIndex : Option Int
  assetRewardIndex : FinMap Address Int
  supportedAssets : Option (FinMap Address Bool)
  isPaused : Option Bool
  code : WasmHash

def adminRecordOf (w : World τ) : AdminRecord where
  rewardIndex := w.storage.rewardIndex
  assetRewardIndex := w.storage.assetRewardIndex
  supportedAssets := w.storage.supportedAssets
  isPaused := w.storage.isPaused
  code := w.code

/-- The stored administrator authorised the call. -/
def AdminSigned (env : Env) (s : Storage) : Prop :=
  ∃ admin, s.admin = some admin ∧ env.auths admin = true

theorem adminRecord_or_auth (heff : Effect D env w call value w') :
    adminRecordOf w' = adminRecordOf w ∨ AdminSigned env w.storage := by
  cases heff with
  | pauseContract ha hauth | unpauseContract ha hauth | upgrade ha hauth | addAsset ha hauth =>
    exact Or.inr ⟨_, ha, hauth⟩
  | distributeRewards _ ha hauth => exact Or.inr ⟨_, ha, hauth⟩
  | distributeRewardsForAsset _ _ ha hauth => exact Or.inr ⟨_, ha, hauth⟩
  | _ => exact Or.inl rfl

/-! ## Succession -/

/-- A successful proposal or acceptance of an administrator. -/
inductive Succession : Entry τ → Prop
  | propose {env : Env} {newAdmin : Address} {pre : World τ} {value : Value} :
      Succession (.ok env (.proposeNewAdmin newAdmin) pre value)
  | accept {env : Env} {newAdmin : Address} {pre : World τ} {value : Value} :
      Succession (.ok env (.acceptAdmin newAdmin) pre value)

/-- The latest successful proposal or acceptance of a history is a proposal of
`B` that `A` authorised while being the administrator. -/
inductive Proposed (A B : Address) : List (Entry τ) → Prop
  | latest {env : Env} {pre : World τ} {value : Value} {h : List (Entry τ)} :
      pre.storage.admin = some A → env.auths A = true →
      Proposed A B (.ok env (.proposeNewAdmin B) pre value :: h)
  | earlier {e : Entry τ} {h : List (Entry τ)} : ¬ Succession e → Proposed A B h →
      Proposed A B (e :: h)

/-- What a call can do to the administrator and the proposed successor. -/
theorem succession_of_effect (heff : Effect D env w call value w') :
    (∃ admin newAdmin, call = .proposeNewAdmin newAdmin ∧ w.storage.admin = some admin ∧
      env.auths admin = true ∧ w'.storage.admin = some admin ∧
      w'.storage.pendingAdmin = some newAdmin) ∨
    (∃ newAdmin, call = .acceptAdmin newAdmin ∧ env.auths newAdmin = true ∧
      w.storage.pendingAdmin = some newAdmin ∧ w'.storage.admin = some newAdmin ∧
      w'.storage.pendingAdmin = none) ∨
    ¬ Succession (.ok env call w value) ∧ w'.storage.admin = w.storage.admin ∧
      w'.storage.pendingAdmin = w.storage.pendingAdmin := by
  cases heff with
  | proposeNewAdmin ha hauth => exact Or.inl ⟨_, _, rfl, ha, hauth, ha, rfl⟩
  | acceptAdmin hauth hp => exact Or.inr (Or.inl ⟨_, rfl, hauth, hp, rfl, rfl⟩)
  | _ =>
    right
    right
    refine ⟨?_, rfl, rfl⟩
    intro hs
    cases hs

/-- The pending administrator is whom the present one proposed last. -/
theorem proposed_of_pending (h0 : Started D w₀) (hr : ChainRun D w₀ h w) :
    ∀ A B, w.storage.admin = some A → w.storage.pendingAdmin = some B → Proposed A B h := by
  refine hr.induct (I := fun h w => ∀ A B, w.storage.admin = some A →
    w.storage.pendingAdmin = some B → Proposed A B h) ?_ ?_
  · intro A B _ hp
    obtain ⟨_, _, _, _, _, _, _, hw⟩ := started_storage h0
    rw [hw] at hp
    cases hp
  · intro h w e w' hr ih hs A B ha hp
    cases stepEffect_of_step (ready_of_run h0 hr) hs with
    | call _ heff =>
      rcases succession_of_effect heff with
        ⟨admin, newAdmin, rfl, hpre, hauth, hadmin, hpend⟩ | ⟨_, _, _, _, _, hnone⟩ |
        ⟨hne, hadmin, hpend⟩
      · obtain rfl : admin = A := Option.some.inj (hadmin.symm.trans ha)
        obtain rfl : newAdmin = B := Option.some.inj (hpend.symm.trans hp)
        exact .latest hpre hauth
      · rw [hnone] at hp
        cases hp
      · exact .earlier hne (ih A B (hadmin ▸ ha) (hpend ▸ hp))
    | failed => exact .earlier (by intro hs; cases hs) (ih A B ha hp)
    | outside => exact .earlier (by intro hs; cases hs) (ih A B ha hp)

/-! ## Every call of every run -/

/-- **Authority over a whole run.** A successful call made in a state that a run
has reached changes the record of a user only with the user's authority and
unpaused, the administrator's data only with the administrator's, and the
administrator only to the one they proposed last, who accepts; the configuration
is still the one of the start. -/
theorem authority_of_call (h0 : Started D w₀) (hr : ChainRun D w₀ h w)
    (hret : Returns (exec D.client call) env w value w') :
    (∀ u, recordOf w'.storage u ≠ recordOf w.storage u →
      env.auths u = true ∧ w.storage.isPaused ≠ some true) ∧
    (adminRecordOf w' ≠ adminRecordOf w ∨
      w'.storage.pendingAdmin ≠ w.storage.pendingAdmin ∧ w'.storage.pendingAdmin ≠ none →
      AdminSigned env w.storage) ∧
    (w'.storage.admin ≠ w.storage.admin → ∃ A B, w.storage.admin = some A ∧
      w'.storage.admin = some B ∧ call = .acceptAdmin B ∧ env.auths B = true ∧ Proposed A B h) ∧
    configOf w.storage = configOf w₀.storage ∧ configOf w'.storage = configOf w₀.storage ∧
    ∃ deposit reward, w'.storage.depositToken = some deposit ∧
      w'.storage.rewardToken = some reward ∧ deposit ≠ reward := by
  have hready := ready_of_run h0 hr
  have heff := effect_of_returns hready hret
  have hconfig := configOf_of_run h0 hr
  have hconfig' := (configOf_of_effect heff).trans hconfig
  refine ⟨?_, ?_, ?_, hconfig, hconfig', ?_⟩
  · intro u hu
    exact (record_or_auth heff u).resolve_left hu
  · intro hchange
    rcases hchange with hrec | ⟨hpend, hsome⟩
    · exact (adminRecord_or_auth heff).resolve_left hrec
    · rcases succession_of_effect heff with ⟨admin, _, _, ha, hauth, _⟩ | ⟨_, _, _, _, _, hnone⟩ |
        ⟨_, _, hsame⟩
      · exact ⟨admin, ha, hauth⟩
      · exact absurd hnone hsome
      · exact absurd hsame hpend
  · intro hadmin
    obtain ⟨st, hst⟩ := hready.state
    rcases succession_of_effect heff with ⟨_, _, _, ha, _, hsame, _⟩ | ⟨B, hcall, hauth, hp, hB, _⟩ |
      ⟨_, hsame, _⟩
    · exact absurd (hsame.trans ha.symm) hadmin
    · exact ⟨st.admin, B, hst.admin, hB, hcall, hauth,
        proposed_of_pending h0 hr st.admin B hst.admin hp⟩
    · exact absurd hsame hadmin
  · obtain ⟨_, deposit, reward, _, _, _, hne, hw⟩ := started_storage h0
    refine ⟨deposit, reward, ?_, ?_, hne⟩
    · exact (congrArg Config.depositToken hconfig').trans (by rw [hw]; rfl)
    · exact (congrArg Config.rewardToken hconfig').trans (by rw [hw]; rfl)

/-- The administrator proposes a successor twice. -/
def proposedSession : List (Entry Bank) × World Bank :=
  session 1000 plainOpening [(10, .proposeNewAdmin alice), (20, .deposit alice 100),
    (30, .proposeNewAdmin bob)]

theorem authority_of_call_accept : ∃ w', Returns (exec bank.client (.acceptAdmin bob)) openEnv
      proposedSession.2 .unit w' ∧ w'.storage.admin = some bob ∧
    Proposed adminAddress bob proposedSession.1 := by
  have hret : Returns (exec bank.client (.acceptAdmin bob)) openEnv proposedSession.2 .unit
      (invoke (exec bank.client (.acceptAdmin bob)) openEnv proposedSession.2) := by
    obtain ⟨value, hret⟩ := returns_of_isOk
      (show (exec bank.client (.acceptAdmin bob) openEnv proposedSession.2).isOk = true by
        rfl)
    obtain ⟨rfl, _⟩ := returns_then.mp hret
    exact hret
  have hadmin : (invoke (exec bank.client (.acceptAdmin bob)) openEnv
      proposedSession.2).storage.admin = some bob := rfl
  have hbefore : proposedSession.2.storage.admin = some adminAddress := rfl
  obtain ⟨_, _, hadminChange, _⟩ := authority_of_call
    (started_opened 1000 plainOpening plainOpening_isOk)
    (session_run 1000 plainOpening [(10, .proposeNewAdmin alice),
      (20, .deposit alice 100), (30, .proposeNewAdmin bob)]) hret
  obtain ⟨A, B, hA, hB, _, _, hproposed⟩ := hadminChange (by
    rw [hadmin]
    exact fun heq => absurd (heq.trans hbefore) (by decide))
  obtain rfl : adminAddress = A := Option.some.inj (hbefore.symm.trans hA)
  obtain rfl : bob = B := Option.some.inj (hadmin.symm.trans hB)
  exact ⟨_, hret, hadmin, hproposed⟩

end Calls
end Axionvera.Vault.Authority

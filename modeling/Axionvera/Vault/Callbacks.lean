import Axionvera.Vault.Isolation

/-! # Tokens that call back

A token contract is foreign code. Here a call to one may first make any finite
number of calls of the vault, with any signatures, before it answers. The vault
enters token code only while it holds its guard; a nested call of an entry point
that takes the guard is refused, and the other entry points change nothing that
the outer call goes on to use. -/
namespace Axionvera.Vault.Callbacks
open Axionvera.Lib.Host Axionvera.Lib.KeyValue Axionvera.Lib.MachineInt Axionvera.Lib.RewardPool
open Axionvera.Lib.Transition
open Axionvera.Vault.Types Axionvera.Vault.Storage Axionvera.Vault.Contract Axionvera.Vault.Chain
open Axionvera.Vault.Accounts Axionvera.Vault.StorageSpec Axionvera.Vault.Effects
open Axionvera.Vault.Refinement Axionvera.Vault.Principal Axionvera.Vault.Isolation

variable {τ : Type}

/-! ## Adversarial tokens -/

/-- The entry points that take the guard. -/
def Guarded : Call → Prop
  | .deposit _ _ => True
  | .withdraw _ _ => True
  | .distributeRewards _ => True
  | .lock _ _ _ => True
  | .unlockExpired _ _ => True
  | .claimRewards _ => True
  | .depositAsset _ _ _ => True
  | .withdrawAsset _ _ _ => True
  | .distributeRewardsForAsset _ _ _ => True
  | .claimRewardsForAsset _ _ => True
  | _ => False

/-- A nested call, with the world it is made in. -/
structure Attempt (τ : Type) where
  env : Env
  call : Call
  pre : World τ

/-- What token code can do with the world before it answers: change the tokens'
own state, and call the vault at `contract`, any entry point but `upgrade`. A
call that fails is rolled back. The attempts are listed latest first. -/
inductive Nested (T : TokenClient τ) (contract : Address) :
    World τ → List (Attempt τ) → World τ → Prop
  | done {w : World τ} : Nested T contract w [] w
  | tokens {w w' : World τ} {log : List (Attempt τ)} {t : τ} : Nested T contract w log w' →
      Nested T contract w log { w' with tokens := t }
  | call {w w' : World τ} {log : List (Attempt τ)} {env : Env} {call : Call} :
      Nested T contract w log w' → env.currentContract = contract →
      (∀ hash, call ≠ .upgrade hash) →
      Nested T contract w (⟨env, call, w'⟩ :: log) (invoke (exec T call) env w')

/-- Token contracts that may call back. A token call traps, or answers after
some nested activity. -/
structure Adversarial (T : TokenClient τ) (contract : Address) : Prop where
  transfer : ∀ token src dst amount env w, env.currentContract = contract →
    T.transfer token src dst amount env w = .trap ∨
    ∃ log w', T.transfer token src dst amount env w = .ok () w' ∧ Nested T contract w log w'
  balance : ∀ token holder env w, env.currentContract = contract →
    T.balance token holder env w = .trap ∨
    ∃ x log w', T.balance token holder env w = .ok x w' ∧ Nested T contract w log w'

/-- Tokens that never call back are among them. -/
theorem adversarial_client (D : Deployment τ) : Adversarial D.client D.contract where
  transfer token src dst amount env w _ := by
    cases h : D.transfer w.tokens token src dst amount with
    | none => exact Or.inl (by simp [Deployment.client, h])
    | some t => exact Or.inr ⟨[], { w with tokens := t }, by simp [Deployment.client, h], .tokens .done⟩
  balance _ _ _ w _ := Or.inr ⟨_, [], w, rfl, .done⟩

/-! ## Where token code is entered -/

/-- The guard is held, in a vault that has been set up. -/
def Entered (w : World τ) : Prop :=
  w.storage.reentrancyGuard = some true ∧ w.storage.initialized = some true

/-- The token code is entered in `inner` during a call: how the call ends
depends on what the tokens do there. -/
def Enters (T : TokenClient τ) (env : Env) (w : World τ) (call : Call) (inner : World τ) : Prop :=
  ∃ T' : TokenClient τ,
    (∀ token src dst amount env₁ w₁, w₁ ≠ inner →
      T'.transfer token src dst amount env₁ w₁ = T.transfer token src dst amount env₁ w₁) ∧
    (∀ token holder env₁ w₁, w₁ ≠ inner →
      T'.balance token holder env₁ w₁ = T.balance token holder env₁ w₁) ∧
    exec T' call env w ≠ exec T call env w

/-- The two keys that `Entered` looks at. -/
def gate (s : Storage) : Option Bool × Option Bool := (s.reentrancyGuard, s.initialized)

/-! What runs while the guard is held leaves it held. -/

theorem keeps_unlockExpiredLocks (u : Address) (limit : Nat) :
    Keeps gate (unlockExpiredLocks u limit) := by
  refine .ite (.of_readOnly (.pure _)) ?_
  refine .bind (.of_readOnly .ask) fun _ => .bind (.of_readOnly (.gets _)) fun _ =>
    .bind (.of_readOnly (.lift _)) fun _ => .ite ?_ (.of_readOnly (.pure _))
  refine .bind (.of_readOnly (.gets _)) fun _ => .bind (.of_readOnly (.lift _)) fun _ => ?_
  exact .bind (.modify fun _ => rfl) fun _ => .bind (.modify fun _ => rfl) fun _ =>
    .of_readOnly (.pure _)

theorem keeps_storeWithdraw (u : Address) (amount : Int) : Keeps gate (storeWithdraw u amount) := by
  refine .bind (.of_readOnly readOnly_getState) fun _ => ?_
  refine .bind (.of_readOnly (readOnly_getUserPositionUnchecked u)) fun _ => ?_
  refine .bind (.of_readOnly (.bind .ask fun _ => .lift _)) fun _ => ?_
  refine .bind (keeps_unlockExpiredLocks u _) fun _ => .bind (.of_readOnly (.gets _)) fun _ => ?_
  refine .bind (.of_readOnly (.failIf _ _)) fun _ => .bind (.of_readOnly (.lift _)) fun _ => ?_
  refine .bind (.of_readOnly (.lift _)) fun _ => .bind (.of_readOnly (.lift _)) fun _ => ?_
  refine .bind (.modify fun _ => rfl) fun _ => .bind (.modify fun _ => rfl) fun _ => ?_
  exact .bind (.modify fun _ => rfl) fun _ => .of_readOnly (.pure _)

theorem keeps_storeAssetWithdraw (u a : Address) (amount : Int) :
    Keeps gate (storeAssetWithdraw u a amount) := by
  refine .bind (.of_readOnly (readOnly_requireAssetSupported a)) fun _ => ?_
  refine .bind (.of_readOnly (.gets _)) fun _ => ?_
  refine .bind (.of_readOnly (readOnly_getAssetRewardIndex a)) fun _ => ?_
  refine .bind (.of_readOnly (.bind (readOnly_requireAssetSupported a) fun _ => .gets _)) fun _ => ?_
  refine .bind (.of_readOnly (.bind .ask fun _ => .lift _)) fun _ => ?_
  refine .bind (.of_readOnly (.failIf _ _)) fun _ => .bind (.of_readOnly (.lift _)) fun _ => ?_
  refine .bind (.of_readOnly (.lift _)) fun _ => .bind (.modify fun _ => rfl) fun _ => ?_
  exact .bind (.modify fun _ => rfl) fun _ => .of_readOnly (.pure _)

theorem keeps_storeClaimableRewards (u : Address) : Keeps gate (storeClaimableRewards u) := by
  refine .bind (.of_readOnly readOnly_getState) fun _ => ?_
  refine .bind (.of_readOnly (readOnly_getUserPositionUnchecked u)) fun _ => ?_
  refine .bind (.of_readOnly (.bind .ask fun _ => .lift _)) fun _ => .bind (.of_readOnly .ask) fun _ => ?_
  refine .bind (.of_readOnly (.lift _)) fun _ => .bind (.of_readOnly (.lift _)) fun _ => ?_
  exact .bind (.modify fun _ => rfl) fun _ => .of_readOnly (.pure _)

theorem keeps_storeAssetClaimableRewards (u a : Address) :
    Keeps gate (storeAssetClaimableRewards u a) := by
  refine .bind (.of_readOnly (readOnly_requireAssetSupported a)) fun _ => ?_
  refine .bind (.of_readOnly readOnly_getState) fun _ => .bind (.of_readOnly (.gets _)) fun _ => ?_
  refine .bind (.of_readOnly (readOnly_getAssetRewardIndex a)) fun _ => ?_
  refine .bind (.of_readOnly (.bind .ask fun _ => .lift _)) fun _ => .bind (.of_readOnly .ask) fun _ => ?_
  refine .bind (.of_readOnly (.lift _)) fun _ => .bind (.of_readOnly (.lift _)) fun _ => ?_
  exact .bind (.modify fun _ => rfl) fun _ => .of_readOnly (.pure _)

section Congruence
variable {α β : Type} {T T' : TokenClient τ} {env : Env} {w : World τ} {u a : Address} {amount : Int}

theorem readOnly_onStorage {m : StoreM α} (h : ReadOnly m) : ReadOnly (onStorage m : VaultM τ α) := by
  intro env w x w' hret
  obtain ⟨s, hs, rfl⟩ := onStorage_returns.mp hret
  rw [h _ _ _ _ hs]

theorem readOnly_requireAuth : ReadOnly (requireAuth u : VaultM τ Unit) :=
  fun _ _ _ _ h => (requireAuth_returns.mp h).2

theorem readOnly_currentContractAddress : ReadOnly (currentContractAddress : VaultM τ Address) :=
  fun _ _ _ _ h => (currentContractAddress_returns.mp h).2

theorem readOnly_requireNotPaused : ReadOnly requireNotPaused :=
  fun _ _ _ _ h => (requireNotPaused_returns.mp h).2

theorem keeps_onStorage {m : StoreM α} (h : Keeps gate m) :
    Keeps (fun w => gate w.storage) (onStorage m : VaultM τ α) := by
  intro env w x w' hret
  obtain ⟨s, hs, rfl⟩ := onStorage_returns.mp hret
  exact h _ _ _ _ hs

theorem keeps_emit (e : Nat → Event) : Keeps (fun w => gate w.storage) (emit e : VaultM τ Unit) :=
  .modify fun _ => rfl

theorem entered_iff_gate : Entered w ↔ gate w.storage = (some true, some true) := by
  simp [Entered, gate]

theorem bind_congr_entered {m : VaultM τ α} {f g : α → VaultM τ β} (hw : Entered w)
    (hm : Keeps (fun w => gate w.storage) m)
    (h : ∀ x w', Entered w' → f x env w' = g x env w') : (m >>= f) env w = (m >>= g) env w := by
  refine bind_congr_returns fun x w' hret => h x w' (entered_iff_gate.mpr ?_)
  exact (hm _ _ _ _ hret).trans (entered_iff_gate.mp hw)

/-- Past the check that the vault has been set up, the guarded body is all that
counts. -/
theorem requireInitialized_congr {f g : Unit → VaultM τ β}
    (h : w.storage.initialized = some true → f () env w = g () env w) :
    (onStorage requireInitialized >>= f) env w = (onStorage requireInitialized >>= g) env w := by
  refine bind_congr_returns fun _ w' hret => ?_
  obtain ⟨s, hs, rfl⟩ := onStorage_returns.mp hret
  obtain ⟨hi, rfl⟩ := requireInitialized_returns.mp hs
  exact h hi

theorem withNonReentrant_congr {f g : VaultM τ α} (hi : w.storage.initialized = some true)
    (h : ∀ w', Entered w' → f env w' = g env w') :
    withNonReentrant f env w = withNonReentrant g env w := by
  refine bind_congr_returns fun _ w' hret => bind_congr_left ?_
  obtain ⟨s, hs, rfl⟩ := onStorage_returns.mp hret
  obtain ⟨_, rfl⟩ := enterNonReentrant_returns.mp hs
  exact attempt_congr (h _ ⟨rfl, hi⟩)

/-- Two families of tokens that behave alike while the guard is held, and then
leave it held. -/
structure Alike (T T' : TokenClient τ) (contract : Address) : Prop where
  transfer : ∀ token src dst amount env w, Entered w →
    T'.transfer token src dst amount env w = T.transfer token src dst amount env w
  balance : ∀ token holder env w, Entered w →
    T'.balance token holder env w = T.balance token holder env w
  held : ∀ token holder env w x w', env.currentContract = contract → Entered w →
    Returns (T.balance token holder) env w x w' → Entered w'

variable (h : Alike T T' env.currentContract)
include h

theorem deposit_congr : deposit T' u amount env w = deposit T u amount env w := by
  refine bind_congr_readOnly (readOnly_onStorage readOnly_requireNotPaused) fun _ => ?_
  refine requireInitialized_congr fun hi => bind_congr_readOnly (.lift _) fun _ => ?_
  refine bind_congr_readOnly readOnly_requireAuth fun _ => withNonReentrant_congr hi fun w' hw => ?_
  refine bind_congr_readOnly (readOnly_onStorage readOnly_getState) fun _ => ?_
  refine bind_congr_readOnly readOnly_currentContractAddress fun _ => ?_
  exact bind_congr_left (h.transfer _ _ _ _ _ _ hw)

theorem withdraw_congr : withdraw T' u amount env w = withdraw T u amount env w := by
  refine bind_congr_readOnly (readOnly_onStorage readOnly_requireNotPaused) fun _ => ?_
  refine requireInitialized_congr fun hi => bind_congr_readOnly (.lift _) fun _ => ?_
  refine bind_congr_readOnly readOnly_requireAuth fun _ => withNonReentrant_congr hi fun w' hw => ?_
  refine bind_congr_readOnly (readOnly_onStorage readOnly_getState) fun _ => ?_
  refine bind_congr_entered hw (keeps_onStorage (keeps_storeWithdraw u amount)) fun _ w' hw => ?_
  refine bind_congr_entered hw (keeps_emit _) fun _ w' hw => ?_
  refine bind_congr_readOnly readOnly_currentContractAddress fun _ => ?_
  exact h.transfer _ _ _ _ _ _ hw

theorem distributeRewards_congr : distributeRewards T' amount env w = distributeRewards T amount env w := by
  refine requireInitialized_congr fun hi => bind_congr_readOnly (.lift _) fun _ => ?_
  refine bind_congr_readOnly (.failIf _ _) fun _ => ?_
  refine bind_congr_readOnly (readOnly_onStorage readOnly_getState) fun _ => ?_
  refine bind_congr_readOnly readOnly_requireAuth fun _ => withNonReentrant_congr hi fun w' hw => ?_
  refine bind_congr_readOnly readOnly_currentContractAddress fun _ => ?_
  exact bind_congr_left (h.transfer _ _ _ _ _ _ hw)

theorem payRewards_congr {e : Nat → Event} (hw : Entered w) :
    payRewards T' u amount e env w = payRewards T u amount e env w := by
  unfold payRewards
  split
  · rfl
  · refine bind_congr_readOnly (readOnly_onStorage (.bind readOnly_getState fun _ => .pure _)) fun _ => ?_
    refine bind_congr_readOnly readOnly_currentContractAddress fun _ => ?_
    refine (bind_congr_left (h.balance _ _ _ _ hw)).trans (bind_congr_returns fun _ w' hret => ?_)
    refine bind_congr_readOnly (.lift _) fun _ => bind_congr_left (h.transfer _ _ _ _ _ _ ?_)
    exact h.held _ _ _ _ _ _ rfl hw hret

theorem claimRewards_congr : claimRewards T' u env w = claimRewards T u env w := by
  refine bind_congr_readOnly (readOnly_onStorage readOnly_requireNotPaused) fun _ => ?_
  refine requireInitialized_congr fun hi => bind_congr_readOnly readOnly_requireAuth fun _ => ?_
  refine withNonReentrant_congr hi fun w' hw => ?_
  refine bind_congr_entered hw (keeps_onStorage (keeps_storeClaimableRewards u)) fun _ w' hw => ?_
  exact payRewards_congr h hw

theorem depositAsset_congr : depositAsset T' u a amount env w = depositAsset T u a amount env w := by
  refine bind_congr_readOnly (readOnly_onStorage readOnly_requireNotPaused) fun _ => ?_
  refine requireInitialized_congr fun hi => bind_congr_readOnly (.lift _) fun _ => ?_
  refine bind_congr_readOnly readOnly_requireAuth fun _ => ?_
  refine bind_congr_readOnly (readOnly_onStorage (readOnly_requireAssetSupported a)) fun _ => ?_
  refine withNonReentrant_congr hi fun w' hw => ?_
  refine bind_congr_readOnly readOnly_currentContractAddress fun _ => ?_
  exact bind_congr_left (h.transfer _ _ _ _ _ _ hw)

theorem withdrawAsset_congr :
    withdrawAsset T' u a amount env w = withdrawAsset T u a amount env w := by
  refine bind_congr_readOnly (readOnly_onStorage readOnly_requireNotPaused) fun _ => ?_
  refine requireInitialized_congr fun hi => bind_congr_readOnly (.lift _) fun _ => ?_
  refine bind_congr_readOnly readOnly_requireAuth fun _ => ?_
  refine bind_congr_readOnly (readOnly_onStorage (readOnly_requireAssetSupported a)) fun _ => ?_
  refine withNonReentrant_congr hi fun w' hw => ?_
  refine bind_congr_entered hw (keeps_onStorage (keeps_storeAssetWithdraw u a amount)) fun _ w' hw => ?_
  refine bind_congr_entered hw (keeps_emit _) fun _ w' hw => ?_
  refine bind_congr_readOnly readOnly_currentContractAddress fun _ => ?_
  exact h.transfer _ _ _ _ _ _ hw

theorem distributeRewardsForAsset_congr {admin : Address} :
    distributeRewardsForAsset T' admin a amount env w =
      distributeRewardsForAsset T admin a amount env w := by
  refine requireInitialized_congr fun hi => bind_congr_readOnly (.lift _) fun _ => ?_
  refine bind_congr_readOnly (.failIf _ _) fun _ => ?_
  refine bind_congr_readOnly (readOnly_onStorage (readOnly_requireAssetSupported a)) fun _ => ?_
  refine bind_congr_readOnly (readOnly_onStorage readOnly_getState) fun _ => ?_
  refine bind_congr_readOnly (.failIf _ _) fun _ => ?_
  refine bind_congr_readOnly readOnly_requireAuth fun _ => withNonReentrant_congr hi fun w' hw => ?_
  refine bind_congr_readOnly readOnly_currentContractAddress fun _ => ?_
  exact bind_congr_left (h.transfer _ _ _ _ _ _ hw)

theorem claimRewardsForAsset_congr :
    claimRewardsForAsset T' u a env w = claimRewardsForAsset T u a env w := by
  refine bind_congr_readOnly (readOnly_onStorage readOnly_requireNotPaused) fun _ => ?_
  refine requireInitialized_congr fun hi => bind_congr_readOnly readOnly_requireAuth fun _ => ?_
  refine bind_congr_readOnly (readOnly_onStorage (readOnly_requireAssetSupported a)) fun _ => ?_
  refine withNonReentrant_congr hi fun w' hw => ?_
  refine bind_congr_entered hw (keeps_onStorage (keeps_storeAssetClaimableRewards u a)) fun _ w' hw => ?_
  exact payRewards_congr h hw

/-- Outside the guard the vault runs no token code. -/
theorem exec_congr (call : Call) : exec T' call env w = exec T call env w := by
  cases call with
  | deposit => exact bind_congr_left (deposit_congr h)
  | withdraw => exact bind_congr_left (withdraw_congr h)
  | distributeRewards => exact bind_congr_left (distributeRewards_congr h)
  | claimRewards => exact bind_congr_left (claimRewards_congr h)
  | depositAsset => exact bind_congr_left (depositAsset_congr h)
  | withdrawAsset => exact bind_congr_left (withdrawAsset_congr h)
  | distributeRewardsForAsset => exact bind_congr_left (distributeRewardsForAsset_congr h)
  | claimRewardsForAsset => exact bind_congr_left (claimRewardsForAsset_congr h)
  | _ => rfl

end Congruence

/-! ## Nested calls -/

section Refusal
variable {α : Type} {T : TokenClient τ} {env : Env} {w w' w'' : World τ} {call : Call}
variable {value : Value}

theorem withNonReentrant_refuses {f : VaultM τ α} {x : α}
    (hg : w.storage.reentrancyGuard = some true) : ¬ Returns (withNonReentrant f) env w x w' := by
  intro h
  obtain ⟨_, _, henter, _⟩ := returns_bind.mp h
  obtain ⟨s, hs, rfl⟩ := onStorage_returns.mp henter
  exact (enterNonReentrant_returns.mp hs).1 hg

/-- Nobody passes the guard while it is held. -/
theorem guarded_refuses (hg : w.storage.reentrancyGuard = some true) (hc : Guarded call) :
    ¬ Returns (exec T call) env w value w' := by
  have hpaused := readOnly_onStorage (τ := τ) readOnly_requireNotPaused
  have hinit := readOnly_onStorage (τ := τ) readOnly_requireInitialized
  have hstate := readOnly_onStorage (τ := τ) readOnly_getState
  have hsup := fun a => readOnly_onStorage (τ := τ) (readOnly_requireAssetSupported a)
  have hrefuse := fun {α : Type} {f : VaultM τ α} {x : α} {w'} =>
    @withNonReentrant_refuses τ α env w w' f x hg
  intro h
  cases call with
  | deposit u amount =>
    refine hpaused.not_returns (fun _ => hinit.not_returns fun _ => ?_) (returns_then.mp h).2
    exact (ReadOnly.lift _).not_returns fun _ => readOnly_requireAuth.not_returns fun _ => hrefuse
  | withdraw u amount =>
    refine hpaused.not_returns (fun _ => hinit.not_returns fun _ => ?_) (returns_then.mp h).2
    exact (ReadOnly.lift _).not_returns fun _ => readOnly_requireAuth.not_returns fun _ => hrefuse
  | distributeRewards amount =>
    obtain ⟨_, _, h⟩ := returns_int.mp h
    refine hinit.not_returns (fun _ => (ReadOnly.lift _).not_returns fun _ => ?_) h
    refine (ReadOnly.failIf _ _).not_returns fun _ => hstate.not_returns fun _ => ?_
    exact readOnly_requireAuth.not_returns fun _ => hrefuse
  | lock u amount duration =>
    refine hpaused.not_returns (fun _ => hinit.not_returns fun _ => ?_) (returns_then.mp h).2
    refine (ReadOnly.lift _).not_returns fun _ => (ReadOnly.failIf _ _).not_returns fun _ => ?_
    exact readOnly_requireAuth.not_returns fun _ => hrefuse
  | unlockExpired u limit =>
    obtain ⟨_, _, h⟩ := returns_int.mp h
    refine hpaused.not_returns (fun _ => hinit.not_returns fun _ => ?_) h
    exact readOnly_requireAuth.not_returns fun _ => (ReadOnly.failIf _ _).not_returns fun _ => hrefuse
  | claimRewards u =>
    obtain ⟨_, _, h⟩ := returns_int.mp h
    refine hpaused.not_returns (fun _ => hinit.not_returns fun _ => ?_) h
    exact readOnly_requireAuth.not_returns fun _ => hrefuse
  | depositAsset u a amount =>
    refine hpaused.not_returns (fun _ => hinit.not_returns fun _ => ?_) (returns_then.mp h).2
    refine (ReadOnly.lift _).not_returns fun _ => readOnly_requireAuth.not_returns fun _ => ?_
    exact (hsup a).not_returns fun _ => hrefuse
  | withdrawAsset u a amount =>
    refine hpaused.not_returns (fun _ => hinit.not_returns fun _ => ?_) (returns_then.mp h).2
    refine (ReadOnly.lift _).not_returns fun _ => readOnly_requireAuth.not_returns fun _ => ?_
    exact (hsup a).not_returns fun _ => hrefuse
  | distributeRewardsForAsset admin a amount =>
    obtain ⟨_, _, h⟩ := returns_int.mp h
    refine hinit.not_returns (fun _ => (ReadOnly.lift _).not_returns fun _ => ?_) h
    refine (ReadOnly.failIf _ _).not_returns fun _ => (hsup a).not_returns fun _ => ?_
    refine hstate.not_returns fun _ => (ReadOnly.failIf _ _).not_returns fun _ => ?_
    exact readOnly_requireAuth.not_returns fun _ => hrefuse
  | claimRewardsForAsset u a =>
    obtain ⟨_, _, h⟩ := returns_int.mp h
    refine hpaused.not_returns (fun _ => hinit.not_returns fun _ => ?_) h
    exact readOnly_requireAuth.not_returns fun _ => (hsup a).not_returns fun _ => hrefuse
  | _ => exact hc

/-- The entry points without a guard leave it as it is. -/
theorem keeps_unguarded (hc : ¬ Guarded call) (hi : w.storage.initialized = some true)
    (h : Returns (exec T call) env w value w') : gate w'.storage = gate w.storage := by
  have hinit : Keeps (fun w => gate w.storage) (onStorage requireInitialized : VaultM τ Unit) :=
    .of_readOnly (readOnly_onStorage readOnly_requireInitialized)
  have hadmin : Keeps (fun w => gate w.storage) (onStorage getAdmin : VaultM τ Address) :=
    .of_readOnly (readOnly_onStorage (.bind readOnly_getState fun _ => .pure _))
  have hauth : ∀ a, Keeps (fun w => gate w.storage) (requireAuth a : VaultM τ Unit) :=
    fun _ => .of_readOnly readOnly_requireAuth
  have hset : ∀ g : Storage → Storage, (∀ s, gate (g s) = gate s) →
      Keeps (fun w => gate w.storage) (onStorage (HostM.modify g) : VaultM τ Unit) :=
    fun g hg => keeps_onStorage (.modify hg)
  cases call with
  | initializeVault =>
    have hret := (returns_then.mp h).2
    simp [initializeVault, isInitialized, hi] at hret
  | proposeNewAdmin newAdmin =>
    have hkeeps : Keeps (fun w => gate w.storage) (proposeNewAdmin newAdmin : VaultM τ Unit) :=
      .bind hinit fun _ => .bind hadmin fun a => .bind (hauth a) fun _ =>
        .bind (hset _ fun _ => rfl) fun _ => keeps_emit _
    exact hkeeps _ _ _ _ (returns_then.mp h).2
  | acceptAdmin newAdmin =>
    have hkeeps : Keeps (fun w => gate w.storage) (acceptAdmin newAdmin : VaultM τ Unit) := by
      refine .bind hinit fun _ => .bind (hauth newAdmin) fun _ => .bind hadmin fun _ => ?_
      refine .bind (.of_readOnly (readOnly_onStorage (.bind readOnly_requireInitialized fun _ =>
        .gets _))) fun _ => .bind (.of_readOnly (.lift _)) fun _ => ?_
      refine .bind (.of_readOnly (.failIf _ _)) fun _ => .bind (hset _ fun _ => rfl) fun _ => ?_
      exact .bind (hset _ fun _ => rfl) fun _ => keeps_emit _
    exact hkeeps _ _ _ _ (returns_then.mp h).2
  | pauseContract | unpauseContract =>
    have hkeeps : ∀ b, Keeps (fun w => gate w.storage) (setPausedByAdmin b : VaultM τ Unit) :=
      fun _ => .bind hinit fun _ => .bind hadmin fun a => .bind (hauth a) fun _ => hset _ fun _ => rfl
    exact hkeeps _ _ _ _ _ (returns_then.mp h).2
  | upgrade hash =>
    have hkeeps : Keeps (fun w => gate w.storage) (upgrade hash : VaultM τ Unit) := by
      refine .bind hinit fun _ => .bind hadmin fun a => .bind (hauth a) fun _ => ?_
      refine .bind (.bind (.of_readOnly .ask) fun _ => .ite (.modify fun _ => rfl) ?_) fun _ =>
        keeps_emit _
      exact fun _ _ _ _ hhalt => absurd hhalt returns_halt
    exact hkeeps _ _ _ _ (returns_then.mp h).2
  | addAsset admin a =>
    have hadd : Keeps gate (addSupportedAsset a) := by
      intro _ _ _ _ hret
      rw [addSupportedAsset_returns.mp hret]
      rfl
    have hkeeps : Keeps (fun w => gate w.storage) (addAsset admin a : VaultM τ Unit) :=
      .bind hinit fun _ => .bind hadmin fun _ => .bind (.of_readOnly (.failIf _ _)) fun _ =>
        .bind (hauth admin) fun _ => .bind (keeps_onStorage hadd) fun _ => keeps_emit _
    exact hkeeps _ _ _ _ (returns_then.mp h).2
  | view v => rw [readOnly_onStorage (readOnly_execView v) _ _ _ _ h]
  | _ => exact absurd trivial hc

/-- Nothing that token code can do releases the guard. -/
theorem entered_of_nested {contract : Address} {log : List (Attempt τ)}
    (h : Nested T contract w log w') (hw : Entered w) : Entered w' := by
  induction h with
  | done => exact hw
  | tokens _ ih => exact ih
  | @call w₁ _ env call _ _ _ ih =>
    rcases invoke_eq_or_returns (exec T call) env w₁ with heq | ⟨value, hret⟩
    · rw [heq]
      exact ih
    · have hgate := keeps_unguarded (fun hc => guarded_refuses ih.1 hc hret) ih.2 hret
      exact entered_iff_gate.mpr (hgate.trans (entered_iff_gate.mp ih))

/-- No nested call of a guarded entry point succeeds. -/
theorem refused_of_nested {contract : Address} {log : List (Attempt τ)}
    (h : Nested T contract w log w') (hw : Entered w) {a : Attempt τ} (ha : a ∈ log)
    (hc : Guarded a.call) : ¬ Returns (exec T a.call) a.env a.pre value w'' := by
  induction h with
  | done => cases ha
  | tokens _ ih => exact ih ha
  | call hn _ _ ih =>
    rcases List.mem_cons.mp ha with rfl | ha
    · exact guarded_refuses (entered_of_nested hn hw).1 hc
    · exact ih ha

/-- **Token code is entered with the guard held.** -/
theorem entered_of_enters {inner : World τ} (hT : Adversarial T env.currentContract)
    (h : Enters T env w call inner) : Entered inner := by
  by_contra hn
  obtain ⟨T', htransfer, hbalance, hdiffer⟩ := h
  have hne : ∀ {w₁ : World τ}, Entered w₁ → w₁ ≠ inner := fun h₁ heq => hn (heq ▸ h₁)
  refine hdiffer (exec_congr ⟨?_, ?_, ?_⟩ call)
  · exact fun _ _ _ _ _ _ h₁ => htransfer _ _ _ _ _ _ (hne h₁)
  · exact fun _ _ _ _ h₁ => hbalance _ _ _ _ (hne h₁)
  · intro token holder env₁ w₁ x w₂ hc h₁ hret
    rcases hT.balance token holder env₁ w₁ hc with htrap | ⟨y, log, w₃, hok, hnested⟩
    · rw [Returns, htrap] at hret
      cases hret
    · obtain ⟨_, rfl⟩ := Returns.det hret hok
      exact entered_of_nested hnested h₁

end Refusal

/-- Balances, locks, totals, reward indices and accrued rewards are the same. -/
structure SameBooks (s t : Storage) : Prop where
  pools : ∀ p, pool t p = pool s p
  liquid : ∀ u, liquid t u = liquid s u
  locks : ∀ u, locks t u = locks s u

/-- What nested calls can make of a storage: the books and the configuration
stay, assets may be added, and there is still an administrator. -/
structure Interfered (s t : Storage) : Prop extends SameBooks s t where
  config : configOf t = configOf s
  listed : ∀ a, supported s a = true → supported t a = true
  admin : s.admin ≠ none → t.admin ≠ none

namespace Interfered
variable {s t r : Storage}

theorem refl (s : Storage) : Interfered s s :=
  ⟨⟨fun _ => rfl, fun _ => rfl, fun _ => rfl⟩, rfl, fun _ h => h, fun h => h⟩

theorem trans (h : Interfered s t) (h' : Interfered t r) : Interfered s r where
  pools p := (h'.pools p).trans (h.pools p)
  liquid u := (h'.liquid u).trans (h.liquid u)
  locks u := (h'.locks u).trans (h.locks u)
  config := h'.config.trans h.config
  listed a ha := h'.listed a (h.listed a ha)
  admin ha := h'.admin (h.admin ha)

theorem sound (h : Interfered s t) (hs : Sound s) : Sound t := by
  refine sound_of_pools hs h.pools (fun v => ?_) (fun v l hl => ?_) fun a ha => ?_
  · rw [h.liquid]
    exact hs.liquid_nonneg v
  · rw [h.locks] at hl
    exact hs.lock_pos v l hl
  · cases hsup : supported s a with
    | false => rfl
    | true => rw [h.listed a hsup] at ha; cases ha

theorem state (h : Interfered s t) (hst : ∃ st, StateOf s st) : ∃ st, StateOf t st := by
  obtain ⟨st, hst⟩ := hst
  have hi := congrArg Config.initialized h.config
  have hd := congrArg Config.depositToken h.config
  have hr := congrArg Config.rewardToken h.config
  simp only [configOf] at hi hd hr
  refine exists_stateOf (hi.trans hst.initialized) (h.admin ?_) ?_ ?_
  · rw [hst.admin]
    exact Option.some_ne_none _
  · rw [hd, hst.depositToken]
    exact Option.some_ne_none _
  · rw [hr, hst.rewardToken]
    exact Option.some_ne_none _

theorem ready (h : Interfered s t) (hr : Ready s) : Ready t :=
  ⟨h.sound hr.sound, h.state hr.state, (congrArg Config.reentrancyGuard h.config).trans hr.idle⟩

theorem setGuard (h : Interfered s t) (b : Bool) : Interfered (setGuard b s) (setGuard b t) where
  pools p := by simpa using h.pools p
  liquid u := h.liquid u
  locks u := h.locks u
  config := congrArg (fun c : Config => { c with reentrancyGuard := some b }) h.config
  listed a ha := h.listed a ha
  admin ha := h.admin ha

end Interfered

section NestedCalls
variable {T : TokenClient τ} {contract : Address} {env : Env} {w w' : World τ} {call : Call}
variable {value : Value} {log : List (Attempt τ)}

/-- The entry points without a guard leave the books alone. -/
theorem interfered_of_unguarded (hs : Sound w.storage) (hst : ∃ st, StateOf w.storage st)
    (hc : ¬ Guarded call) (hup : ∀ hash, call ≠ .upgrade hash)
    (h : Returns (exec T call) env w value w') :
    Interfered w.storage w'.storage ∧ w'.timestamp = w.timestamp := by
  have hframe : ∀ s, pool s = pool w.storage → liquid s = liquid w.storage →
      locks s = locks w.storage → configOf s = configOf w.storage →
      supported s = supported w.storage → s.admin ≠ none → Interfered w.storage s := by
    intro s hp hl hk hcfg hsup ha
    exact ⟨⟨congrFun hp, congrFun hl, congrFun hk⟩, hcfg, fun a h => hsup ▸ h, fun _ => ha⟩
  have hadmin : w.storage.admin ≠ none := by
    obtain ⟨st, hst⟩ := hst
    rw [hst.admin]
    exact Option.some_ne_none _
  cases call with
  | initializeVault => exact absurd (returns_then.mp h).2 (initializeVault_not_returns hst)
  | proposeNewAdmin =>
    obtain ⟨_, _, _, rfl⟩ := (proposeNewAdmin_returns hst).mp (returns_then.mp h).2
    exact ⟨hframe _ rfl rfl rfl rfl rfl hadmin, rfl⟩
  | acceptAdmin =>
    obtain ⟨_, _, _, _, rfl⟩ := (acceptAdmin_returns hst).mp (returns_then.mp h).2
    exact ⟨hframe _ rfl rfl rfl rfl rfl (Option.some_ne_none _), rfl⟩
  | pauseContract =>
    obtain ⟨_, _, _, rfl⟩ := (setPausedByAdmin_returns hst).mp (returns_then.mp h).2
    exact ⟨hframe _ rfl rfl rfl rfl rfl hadmin, rfl⟩
  | unpauseContract =>
    obtain ⟨_, _, _, rfl⟩ := (setPausedByAdmin_returns hst).mp (returns_then.mp h).2
    exact ⟨hframe _ rfl rfl rfl rfl rfl hadmin, rfl⟩
  | upgrade hash => exact absurd rfl (hup hash)
  | addAsset admin a =>
    obtain ⟨_, _, rfl⟩ := (addAsset_returns hst).mp (returns_then.mp h).2
    refine ⟨⟨⟨pool_afterAddAsset hs a, fun _ => rfl, fun _ => rfl⟩, rfl, fun b hb => ?_,
      fun _ => hadmin⟩, rfl⟩
    rw [moved, supported_afterAddAsset, hb, Bool.or_true]
  | view v =>
    obtain ⟨s, hv, rfl⟩ := onStorage_returns.mp h
    rw [readOnly_execView v _ _ _ _ hv]
    exact ⟨.refl _, rfl⟩
  | _ => exact absurd trivial hc

/-- One nested call: refused, or without a guard to pass. -/
theorem interfered_of_nested_call (hw : Entered w) (hs : Sound w.storage)
    (hst : ∃ st, StateOf w.storage st) (hup : ∀ hash, call ≠ .upgrade hash) :
    Interfered w.storage (invoke (exec T call) env w).storage ∧
      (invoke (exec T call) env w).timestamp = w.timestamp := by
  rcases invoke_eq_or_returns (exec T call) env w with heq | ⟨value, hret⟩
  · rw [heq]
    exact ⟨.refl _, rfl⟩
  · refine interfered_of_unguarded hs hst (fun hc => ?_) hup hret
    exact guarded_refuses hw.1 hc hret

/-- Whatever token code does, the books stay as they are. -/
theorem interfered_of_nested (h : Nested T contract w log w') (hw : Entered w)
    (hs : Sound w.storage) (hst : ∃ st, StateOf w.storage st) :
    Interfered w.storage w'.storage ∧ w'.timestamp = w.timestamp := by
  induction h with
  | done => exact ⟨.refl _, rfl⟩
  | tokens _ ih => exact ih
  | @call w₁ _ env call hn _ hup ih =>
    obtain ⟨hi, ht⟩ := ih
    have hw₁ := entered_of_nested hn hw
    obtain ⟨hi', ht'⟩ :=
      @interfered_of_nested_call τ T env w₁ call hw₁ (hi.sound hs) (hi.state hst) hup
    exact ⟨hi.trans hi', ht'.trans ht⟩

end NestedCalls
end Axionvera.Vault.Callbacks

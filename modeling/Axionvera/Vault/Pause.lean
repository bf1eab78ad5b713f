import Axionvera.Vault.Authority
import Axionvera.Vault.Rewards

/-! # What a pause stops

Every entry point that moves a user's funds checks the pause flag; the ones of
the administrator do not. Over a whole run that begins paused this leaves two
cases: the administrator of that time has unpaused the vault, or every stored
record of every user and every total is what it was, while rewards still come in
(`pause_freezes`). -/
namespace Axionvera.Vault.Pause
open Axionvera.Lib.Host Axionvera.Lib.KeyValue Axionvera.Lib.MachineInt Axionvera.Lib.Transition
open Axionvera.Vault.Types Axionvera.Vault.Storage Axionvera.Vault.Contract Axionvera.Vault.Chain
open Axionvera.Vault.Accounts Axionvera.Vault.Effects Axionvera.Vault.Refinement
open Axionvera.Vault.Principal Axionvera.Vault.Rewards Axionvera.Vault.Authority

variable {τ : Type} {D : Deployment τ} {env : Env} {w w' : World τ} {h : List (Entry τ)}
variable {call : Call} {value : Value} {e : Entry τ}

/-- A successful `unpause_contract` that the stored administrator signed. -/
def endsPause : Entry τ → Bool
  | .ok env .unpauseContract pre _ => pre.storage.admin.any env.auths
  | _ => false

/-- What a paused vault keeps: the users' records and the totals as they are, and
at least the rewards and the tokens that it had. -/
structure Frozen (D : Deployment τ) (w w' : World τ) : Prop where
  paused : w'.storage.isPaused = some true
  record : ∀ u, recordOf w'.storage u = recordOf w.storage u
  total : ∀ p, poolTotal w'.storage p = poolTotal w.storage p
  pending : ∀ p u, pending w.storage p u ≤ pending w'.storage p u
  held : ∀ k, D.balance w.tokens k D.contract ≤ D.balance w'.tokens k D.contract

namespace Frozen

theorem refl (hp : w.storage.isPaused = some true) : Frozen D w w :=
  ⟨hp, fun _ => rfl, fun _ => rfl, fun _ _ => le_rfl, fun _ => le_rfl⟩

theorem trans {w₁ w₂ w₃ : World τ} (h : Frozen D w₁ w₂) (h' : Frozen D w₂ w₃) : Frozen D w₁ w₃ where
  paused := h'.paused
  record u := (h'.record u).trans (h.record u)
  total p := (h'.total p).trans (h.total p)
  pending p u := (h.pending p u).trans (h'.pending p u)
  held k := (h.held k).trans (h'.held k)

end Frozen

/-! ## One call -/

/-- Of the calls that a paused vault answers, only `unpause_contract` ends it. -/
theorem paused_of_effect (hp : w.storage.isPaused = some true) (heff : Effect D env w call value w') :
    endsPause (.ok env call w value) = true ∨ w'.storage.isPaused = some true := by
  cases heff with
  | unpauseContract ha hauth =>
    left
    rw [endsPause, ha]
    exact hauth
  | pauseContract => exact Or.inr rfl
  | _ => exact Or.inr hp

/-- For the pools a paused vault only distributes. -/
theorem move_of_effect (hp : w.storage.isPaused = some true) (heff : Effect D env w call value w')
    (p : PoolId) : callMove w value p call = .idle ∨ ∃ d, callMove w value p call = .distribute d := by
  cases heff with
  | deposit hopen | withdraw hopen | lock hopen | claimRewards hopen | depositAsset hopen
  | withdrawAsset hopen | claimRewardsForAsset hopen => exact absurd hp hopen
  | distributeRewards | distributeRewardsForAsset =>
    rw [callMove]
    split
    · exact Or.inr ⟨_, rfl⟩
    · exact Or.inl rfl
  | _ => exact Or.inl rfl

/-- And it sends no tokens. -/
theorem held_of_effect (hD : D.Lawful) (hc : env.currentContract = D.contract)
    (hp : w.storage.isPaused = some true) (heff : Effect D env w call value w') (k : Address) :
    D.balance w.tokens k D.contract ≤ D.balance w'.tokens k D.contract := by
  -- a distribution is collected from the administrator
  have hcollect : ∀ {admin token : Address} {amount : I128} {tokens : τ},
      MIN_REWARD_DISTRIBUTION ≤ amount.val → env.auths admin = true →
      D.transfer w.tokens token admin env.currentContract amount.val = some tokens →
      D.balance w.tokens k D.contract ≤ D.balance tokens k D.contract := by
    intro admin token amount tokens hmin hauth htr
    have hpos : 0 ≤ MIN_REWARD_DISTRIBUTION := by decide
    rw [hc] at htr
    rw [hD.incoming htr (ne_contract_of_auths hc hauth) k]
    split
    · omega
    · exact (add_zero _).ge
  cases heff with
  | deposit hopen | withdraw hopen | claimRewards hopen | depositAsset hopen | withdrawAsset hopen
  | claimRewardsForAsset hopen => exact absurd hp hopen
  | distributeRewards hmin _ hauth _ htr => exact hcollect hmin hauth htr
  | distributeRewardsForAsset hmin _ _ hauth _ htr => exact hcollect hmin hauth htr
  | _ => exact le_rfl

theorem frozen_of_effect (hD : D.Lawful) (hready : Ready w.storage)
    (hc : env.currentContract = D.contract) (hp : w.storage.isPaused = some true)
    (hp' : w'.storage.isPaused = some true) (heff : Effect D env w call value w') :
    Frozen D w w' where
  paused := hp'
  record u := (record_or_auth heff u).resolve_right fun hother => hother.2 hp
  total p := by
    have htotal := (effect_step hready.sound heff p).total_eq
    rcases move_of_effect hp heff p with hmove | ⟨d, hmove⟩
    · rw [hmove] at htotal
      exact htotal.trans (add_zero _)
    · rw [hmove] at htotal
      exact htotal.trans (add_zero _)
  pending p u := by
    have hstep := effect_step hready.sound heff p
    rcases move_of_effect hp heff p with hmove | ⟨d, hmove⟩
    · rw [hmove] at hstep
      have heq := hstep.pending_eq (by intro d hd; cases hd) u
      exact (heq.trans (sub_zero _)).ge
    · rw [hmove] at hstep
      exact hstep.pending_le scale_pos (hready.sound.good p) u
  held := held_of_effect hD hc hp heff

/-! ## A whole run -/

/-- A paused vault stays frozen until the administrator unpauses it. -/
theorem frozen_of_step (hD : D.Lawful) (hr : Reachable D w) (hp : w.storage.isPaused = some true)
    (hs : ChainStep D w e w') : endsPause e = true ∨ Frozen D w w' := by
  have hready := ready_of_reachable hr
  cases stepEffect_of_step hready hs with
  | call hc heff =>
    exact (paused_of_effect hp heff).imp_right fun hp' => frozen_of_effect hD hready hc hp hp' heff
  | failed => exact Or.inr (.refl hp)
  | outside _ hb => exact Or.inr { (Frozen.refl hp : Frozen D w w) with held := hb }

/-- **A pause freezes the vault.** Whatever is called after it and whatever
happens outside, either the administrator of that time has signed a successful
`unpause_contract`, or the vault is still paused and nobody's record and no total
has changed, nobody's pending rewards and no token balance of the vault has gone
down. -/
theorem pause_freezes (hD : D.Lawful) (hr : Reachable D w) (hp : w.storage.isPaused = some true)
    (hrun : ChainRun D w h w') : h.any endsPause = true ∨ Frozen D w w' := by
  induction hrun with
  | nil => exact Or.inr (.refl hp)
  | snoc hrun hs ih =>
    rw [List.any_cons, Bool.or_eq_true]
    rcases ih with hended | hfrozen
    · exact Or.inl (Or.inr hended)
    · rcases frozen_of_step hD (hr.run hrun) hfrozen.paused hs with hends | hnext
      · exact Or.inl (Or.inl hends)
      · exact Or.inr (hfrozen.trans hnext)

/-- Alice has a lock, bob a stake, and the vault is paused. -/
def pausedSession : List (Entry Bank) × World Bank :=
  session 1000000 plainOpening [(10, .deposit alice 100), (20, .lock alice 60 5),
    (30, .deposit bob 50), (40, .pauseContract)]

/-- Paused, the vault refuses to unlock and to pay, and distributes. -/
def pausedRequests : List Request :=
  [⟨openEnv, 50, .unlockExpired alice 5⟩, ⟨openEnv, 60, .distributeRewards 150000⟩,
    ⟨openEnv, 70, .withdraw bob 50⟩, ⟨openEnv, 80, .claimRewards alice⟩]

def frozenRun : List (Entry Bank) × World Bank := runRequests bank [] pausedSession.2 pausedRequests

theorem pause_freezes_session :
    pending pausedSession.2.storage .legacy alice = 0 ∧
    pending frozenRun.2.storage .legacy alice = 100000 ∧ Frozen bank pausedSession.2 frozenRun.2 := by
  refine ⟨rfl, rfl, ?_⟩
  have hcontract : ∀ q ∈ pausedRequests, q.env.currentContract = bank.contract := by
    simp [pausedRequests, openEnv, bank, bankDeployment]
  have hrun : ChainRun bank pausedSession.2 frozenRun.1 frozenRun.2 :=
    runRequests_run bank pausedRequests hcontract .nil
  have hnever : frozenRun.1.any endsPause = false := rfl
  refine (pause_freezes (bankDeployment_lawful _) (session_reachable 1000000 plainOpening rfl _) rfl
    hrun).resolve_left ?_
  rw [hnever]
  exact Bool.false_ne_true

end Axionvera.Vault.Pause

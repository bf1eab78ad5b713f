import Axionvera.Vault.Rewards

/-! # Solvency

Principal and rewards of all pools share one balance per token. What the vault
holds of a token covers the principal recorded in it together with the rewards
collected and not yet paid (`covered_of_run`). For the reward token itself that
is enough for the principal as long as no more rewards were credited than
collected, which a multiplier above one breaks. -/
namespace Axionvera.Vault.Solvency
open Axionvera.Lib.Host Axionvera.Lib.KeyValue Axionvera.Lib.MachineInt Axionvera.Lib.Transition
open Axionvera.Lib.RewardPool Axionvera.Lib.RewardLedger
open Axionvera.Vault.Types Axionvera.Vault.Storage Axionvera.Vault.Contract Axionvera.Vault.Chain
open Axionvera.Vault.Accounts Axionvera.Vault.StorageSpec Axionvera.Vault.Effects
open Axionvera.Vault.Refinement Axionvera.Vault.Principal Axionvera.Vault.Rewards

variable {τ : Type} {D : Deployment τ} {env : Env} {w₀ w w' : World τ} {h : List (Entry τ)}
variable {call : Call} {value : Value} {e : Entry τ}

/-! ## Rewards of all pools -/

/-- Whose rewards, of which pool, a step pays. -/
def claimKey : Entry τ → Option (PoolId × Address)
  | .ok _ (.claimRewards u) _ _ => some (.legacy, u)
  | .ok _ (.claimRewardsForAsset u a) _ _ => some (.asset a, u)
  | _ => none

/-- Reward tokens that a step pays out. -/
def paidOutBy : Entry τ → Int
  | .ok _ (.claimRewards _) _ value => amountOf value
  | .ok _ (.claimRewardsForAsset _ _) _ value => amountOf value
  | _ => 0

/-- Reward tokens that a step of the chain collects from the administrator. -/
def collectedBy : Entry τ → Int
  | .ok _ (.distributeRewards amount) _ _ => amount.val
  | .ok _ (.distributeRewardsForAsset _ _ amount) _ _ => amount.val
  | _ => 0

theorem paidBy_eq (p : PoolId) (u : Address) (e : Entry τ) :
    paidBy p u e = if claimKey e = some (p, u) then paidOutBy e else 0 := by
  cases e with
  | ok env call pre value =>
    cases call with
    | claimRewards v => simp [paidBy, claimKey, paidOutBy, eq_comm]
    | claimRewardsForAsset v a => simp [paidBy, claimKey, paidOutBy, eq_comm]
    | _ => rfl
  | failed => rfl
  | outside => rfl

theorem paidOutBy_of_key_none (hk : claimKey e = none) : paidOutBy e = 0 := by
  cases e with
  | ok env call pre value =>
    cases call with
    | claimRewards => cases hk
    | claimRewardsForAsset => cases hk
    | _ => rfl
  | failed => rfl
  | outside => rfl

theorem creditedBy_of_key_none (hk : distributionKey e = none) : creditedBy e = 0 := by
  cases e with
  | ok env call pre value =>
    cases call with
    | distributeRewards => cases hk
    | distributeRewardsForAsset => cases hk
    | _ => rfl
  | failed => rfl
  | outside => rfl

/-- Whatever is paid or due was credited: the claims of all users on all pools and
the pending rewards of any of them together never pass the distributions. -/
theorem paid_add_pending_le_credited (h0 : Started D w₀) (hr : ChainRun D w₀ h w)
    (K : Finset (PoolId × Address)) :
    (h.map paidOutBy).sum + ∑ k ∈ K, pending w.storage k.1 k.2 ≤ (h.map creditedBy).sum := by
  -- the pools and the users that occur in the run or in `K`
  let S := (h.filterMap distributionKey ++ (h.filterMap claimKey).map Prod.fst).toFinset ∪
    K.image Prod.fst
  let U := ((h.filterMap claimKey).map Prod.snd).toFinset ∪ K.image Prod.snd
  have hpaid : (h.map paidOutBy).sum = ∑ k ∈ S ×ˢ U, paidOut k.1 k.2 h := by
    have hby : ∀ k : PoolId × Address, paidBy k.1 k.2 =
        fun e : Entry τ => if claimKey e = some k then paidOutBy e else 0 :=
      fun k => funext (paidBy_eq k.1 k.2)
    simp only [paidOut, hby]
    refine sum_eq_sum_by_key claimKey paidOutBy _ (fun e _ => paidOutBy_of_key_none) ?_
    intro e he k hk
    have hmem : k ∈ h.filterMap claimKey := List.mem_filterMap.mpr ⟨e, he, hk⟩
    refine Finset.mem_product.mpr ⟨Finset.mem_union_left _ (List.mem_toFinset.mpr ?_),
      Finset.mem_union_left _ (List.mem_toFinset.mpr ?_)⟩
    · exact List.mem_append_right _ (List.mem_map_of_mem hmem)
    · exact List.mem_map_of_mem hmem
  have hcredited : (h.map creditedBy).sum = ∑ p ∈ S, distributed (distributionsTo p h) := by
    simp only [distributed_eq]
    refine sum_eq_sum_by_key distributionKey creditedBy _ (fun e _ => creditedBy_of_key_none) ?_
    intro e he p hp
    exact Finset.mem_union_left _ (List.mem_toFinset.mpr
      (List.mem_append_left _ (List.mem_filterMap.mpr ⟨e, he, hp⟩)))
  have hledger := fun p => ledger_of_chainRun h0 hr p
  have hpending : ∑ k ∈ K, pending w.storage k.1 k.2 ≤
      ∑ k ∈ S ×ˢ U, pending w.storage k.1 k.2 := by
    refine Finset.sum_le_sum_of_subset_of_nonneg ?_ fun k _ _ =>
      (hledger k.1).good.pending_nonneg scale_pos k.2
    intro k hk
    exact Finset.mem_product.mpr ⟨Finset.mem_union_right _ (Finset.mem_image_of_mem _ hk),
      Finset.mem_union_right _ (Finset.mem_image_of_mem _ hk)⟩
  refine (add_le_add hpaid.le hpending).trans ?_
  rw [hcredited, ← Finset.sum_add_distrib, Finset.sum_product]
  refine Finset.sum_le_sum fun p _ => ?_
  have hsum := (hledger p).sum_le_distributed scale_pos U
  simp only [paidTo_moves, distributions_moves] at hsum
  exact hsum

/-- The claims of all users on all pools never pass the distributions to all
pools. -/
theorem paidOut_le_credited (h0 : Started D w₀) (hr : ChainRun D w₀ h w) :
    (h.map paidOutBy).sum ≤ (h.map creditedBy).sum := by
  simpa using paid_add_pending_le_credited h0 hr ∅

/-! ## What the vault holds -/

/-- The principal recorded in a token. -/
def principal (s : Storage) (t : Address) : Int :=
  (if s.depositToken = some t then poolTotal s .legacy else 0) +
    if supported s t = true then poolTotal s (.asset t) else 0

/-- An asset that is not listed has no deposits. -/
theorem principal_eq {s : Storage} (hs : Sound s) (t : Address) : principal s t =
    (if s.depositToken = some t then poolTotal s .legacy else 0) + poolTotal s (.asset t) := by
  unfold principal
  cases ht : supported s t with
  | true => rfl
  | false =>
    rw [(hs.unlisted t ht).1]
    rfl

/-- What a step adds to the principal recorded in a token. -/
def depositedBy (s : Storage) (t : Address) (e : Entry τ) : Int :=
  (if s.depositToken = some t then (move .legacy e).delta else 0) + (move (.asset t) e).delta

/-- What a step adds to the rewards collected and not yet paid, seen from `t`. -/
def reservedBy (s : Storage) (t : Address) (e : Entry τ) : Int :=
  if s.rewardToken = some t then collectedBy e - paidOutBy e else 0

theorem principal_of_step (hr : Ready w.storage) (hs : ChainStep D w e w') (t : Address) :
    principal w'.storage t = principal w.storage t + depositedBy w.storage t e := by
  have hlegacy : poolTotal w'.storage .legacy = poolTotal w.storage .legacy + _ :=
    (pool_step hr hs .legacy).total_eq
  have hasset : poolTotal w'.storage (.asset t) = poolTotal w.storage (.asset t) + _ :=
    (pool_step hr hs (.asset t)).total_eq
  have htoken : w'.storage.depositToken = w.storage.depositToken :=
    congrArg Config.depositToken (configOf_of_step hr hs)
  rw [principal_eq hr.sound, principal_eq (ready_of_step hr hs).sound, depositedBy, htoken, hlegacy,
    hasset]
  split
  · exact add_add_add_comm _ _ _ _
  · rw [zero_add, zero_add, zero_add]

/-- A claim moves what it returns. -/
theorem balance_of_pays (hD : D.Lawful) (hc : env.currentContract = D.contract) {u : Address}
    {paid : Int} {tokens : τ} (hauth : env.auths u = true) (hp : Pays D env w u paid tokens)
    (t : Address) : D.balance tokens t D.contract =
      D.balance w.tokens t D.contract - if w.storage.rewardToken = some t then paid else 0 := by
  cases hp with
  | nothing => rw [ite_self, sub_zero]
  | @payout _ token _ _ htok _ htr =>
    rw [hc] at htr
    rw [hD.outgoing htr (ne_contract_of_auths hc hauth) t, htok]
    simp only [Option.some_inj, eq_comm]

section Books
attribute [local simp] moved depositedBy reservedBy move callMove collectedBy paidOutBy amountOf
  sub_eq_add_neg

/-- **The balance of the vault moves with its books**: with the principal, and
in the reward token with the rewards it has collected and not yet paid. -/
theorem balance_of_effect (hD : D.Lawful) (hc : env.currentContract = D.contract)
    (h : Effect D env w call value w') (t : Address) : D.balance w'.tokens t D.contract =
      D.balance w.tokens t D.contract + depositedBy w.storage t (.ok env call w value) +
        reservedBy w.storage t (.ok env call w value) := by
  cases h with
  | deposit _ _ hauth htok htr =>
    have hin := hD.incoming (hc ▸ htr) (ne_contract_of_auths hc hauth) t
    simp [hin, htok, eq_comm (a := t)]
  | withdraw _ _ hauth htok _ _ htr =>
    have hout := hD.outgoing (hc ▸ htr) (ne_contract_of_auths hc hauth) t
    simp [hout, htok, eq_comm (a := t), neg_ite]
  | depositAsset _ _ hauth _ htr =>
    have hin := hD.incoming (hc ▸ htr) (ne_contract_of_auths hc hauth) t
    simp [hin]
  | withdrawAsset _ _ hauth _ _ _ htr =>
    have hout := hD.outgoing (hc ▸ htr) (ne_contract_of_auths hc hauth) t
    simp [hout, neg_ite]
  | distributeRewards _ _ hauth htok htr =>
    have hin := hD.incoming (hc ▸ htr) (ne_contract_of_auths hc hauth) t
    simp [hin, htok, eq_comm (a := t)]
  | distributeRewardsForAsset _ _ _ hauth htok htr =>
    have hin := hD.incoming (hc ▸ htr) (ne_contract_of_auths hc hauth) t
    simp [hin, htok, eq_comm (a := t)]
  | claimRewards _ hauth _ _ _ hpay =>
    have hout := balance_of_pays hD hc hauth hpay t
    simp [hout, neg_ite]
  | claimRewardsForAsset _ hauth _ _ _ _ hpay =>
    have hout := balance_of_pays hD hc hauth hpay t
    simp [hout, neg_ite]
  | _ => simp

end Books

/-- The same for every step of the chain, where the vault may also receive
tokens that no book mentions. -/
theorem balance_of_step (hD : D.Lawful) (hr : Ready w.storage) (hs : ChainStep D w e w')
    (t : Address) : D.balance w.tokens t D.contract + depositedBy w.storage t e +
      reservedBy w.storage t e ≤ D.balance w'.tokens t D.contract := by
  have hidle : ∀ x : Int, x + ((if w.storage.depositToken = some t then 0 else 0) + 0) +
      (if w.storage.rewardToken = some t then 0 - 0 else 0) = x := by
    intro x
    simp
  cases stepEffect_of_step hr hs with
  | call hc heff => exact (balance_of_effect hD hc heff t).ge
  | failed => exact (hidle _).le
  | outside _ hb => exact (hidle _).trans_le (hb t)

/-- Rewards collected and not yet paid, along a run. -/
def reserve (h : List (Entry τ)) : Int := (h.map collectedBy).sum - (h.map paidOutBy).sum

/-- The vault holds of every token the principal recorded in it, and of the
reward token what it has collected and not yet paid as well. -/
theorem covered_of_run (hD : D.Lawful) (h0 : Started D w₀) (hr : ChainRun D w₀ h w) (t : Address) :
    principal w.storage t + (if w.storage.rewardToken = some t then reserve h else 0) ≤
      D.balance w.tokens t D.contract := by
  induction hr with
  | nil =>
    have hpool := fun p => congrArg Pool.total (pool_of_started h0 p)
    rw [principal_eq (ready_of_started h0).sound,
      show poolTotal w₀.storage .legacy = 0 from hpool .legacy,
      show poolTotal w₀.storage (.asset t) = 0 from hpool (.asset t)]
    simpa [reserve] using hD.balance_nonneg w₀.tokens t D.contract
  | @snoc h w w' e hr hs ih =>
    have hready := ready_of_run h0 hr
    have htoken : w'.storage.rewardToken = w.storage.rewardToken :=
      congrArg Config.rewardToken (configOf_of_step hready hs)
    have hbal := balance_of_step hD hready hs t
    rw [principal_of_step hready hs, htoken]
    unfold reservedBy at hbal
    split
    · rename_i ht
      rw [if_pos ht] at hbal ih
      simp only [reserve, List.map_cons, List.sum_cons] at ih ⊢
      omega
    · rename_i ht
      rw [if_neg ht] at hbal ih
      omega

/-- Collected and credited amounts differ by what the multipliers add. -/
theorem collected_sub_credited (h : List (Entry τ)) : (h.map collectedBy).sum -
    (h.map creditedBy).sum = (h.map transferredBy).sum - (h.map effectiveBy).sum := by
  have hstep : ∀ e : Entry τ, collectedBy e - creditedBy e = transferredBy e - effectiveBy e := by
    intro e
    cases e with
    | ok env call pre value =>
      cases call with
      | distributeRewardsForAsset => exact sub_self _
      | _ => rfl
    | failed => rfl
    | outside => rfl
  induction h with
  | nil => rfl
  | cons e h ih =>
    have he := hstep e
    simp only [List.map_cons, List.sum_cons]
    omega

/-- **When the vault holds the principal it records.** In every state of every
run, for every token, as long as the reward token is not a listed asset or the
legacy distributions of the run have not credited more than they brought in. -/
theorem principal_covered (hD : D.Lawful) (h0 : Started D w₀) (hr : ChainRun D w₀ h w)
    (hcond : (∀ r, w.storage.rewardToken = some r → supported w.storage r = false) ∨
      (h.map effectiveBy).sum ≤ (h.map transferredBy).sum) (t : Address) :
    principal w.storage t ≤ D.balance w.tokens t D.contract := by
  have hready := ready_of_run h0 hr
  have hcover := covered_of_run hD h0 hr t
  by_cases ht : w.storage.rewardToken = some t
  · rcases hcond with hunlisted | hbacked
    · -- the reward token holds no principal
      obtain ⟨_, deposit, reward, _, _, _, hne, hw₀⟩ := started_storage h0
      have hconfig := configOf_of_run h0 hr
      have hdeposit : w.storage.depositToken = some deposit :=
        (congrArg Config.depositToken hconfig).trans (by rw [hw₀]; rfl)
      have hreward : w.storage.rewardToken = some reward :=
        (congrArg Config.rewardToken hconfig).trans (by rw [hw₀]; rfl)
      obtain rfl : reward = t := Option.some.inj (hreward.symm.trans ht)
      have hzero : principal w.storage reward = 0 := by
        rw [principal, hdeposit, hunlisted reward ht, if_neg fun heq => hne (Option.some.inj heq)]
        rfl
      rw [hzero]
      exact hD.balance_nonneg _ _ _
    · -- what is reserved for rewards covers what was credited
      rw [if_pos ht] at hcover
      have hpaid := paidOut_le_credited h0 hr
      have hdiff := collected_sub_credited h
      rw [reserve] at hcover
      omega
  · rw [if_neg ht, add_zero] at hcover
    exact hcover

/-- The reward token listed as an asset, with nothing boosted. -/
def sharedSession : List (Entry Bank) × World Bank :=
  session 1000000 plainOpening [(10, .addAsset adminAddress rewardToken),
    (11, .depositAsset bob rewardToken 150000), (12, .deposit alice 100),
    (13, .distributeRewards 100000), (14, .claimRewards alice)]

theorem principal_covered_shared : principal sharedSession.2.storage rewardToken = 150000 ∧
    principal sharedSession.2.storage rewardToken ≤
      bank.balance sharedSession.2.tokens rewardToken bank.contract := by
  refine ⟨rfl, ?_⟩
  exact principal_covered (bankDeployment_lawful vaultAddress)
    (started_opened 1000000 plainOpening plainOpening_rich) (session_run 1000000 plainOpening _)
    (Or.inr (by decide +kernel)) rewardToken

/-- The same session in a vault that counts distributions twice. -/
def overdrawnSession : List (Entry Bank) × World Bank :=
  session 1000000 boostedOpening [(10, .addAsset adminAddress rewardToken),
    (11, .depositAsset bob rewardToken 150000), (12, .deposit alice 100),
    (13, .distributeRewards 100000), (14, .claimRewards alice)]

/-- The second hundred thousand of the claim is paid out of the deposit of
another user. -/
theorem principal_not_covered : bank.Lawful ∧ Reachable bank overdrawnSession.2 ∧
    bank.balance overdrawnSession.2.tokens rewardToken bank.contract <
      principal overdrawnSession.2.storage rewardToken :=
  ⟨bankDeployment_lawful vaultAddress,
    session_reachable 1000000 boostedOpening boostedOpening_isOk _, by decide +kernel⟩

end Axionvera.Vault.Solvency

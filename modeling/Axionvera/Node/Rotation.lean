import Axionvera.Lib.Circle
import Axionvera.Node.Horizon

/-! # Switching providers in turn

`switch_provider` of `horizon_client.rs`, called again and again while the
statuses of the providers stay what they are. The calls go through the providers
that can serve in one order, which has each of them once, over and over
(`round_robin`): no provider that can serve is left out, and none is preferred. -/
namespace Axionvera.Node.Rotation
open Axionvera.Lib.Circle
open Axionvera.Node.Horizon

variable {c : HorizonClient} {providers : List ProviderStatus} {i j m : Nat} {rest : List Nat}

/-- The provider at a place can serve. -/
def serves (providers : List ProviderStatus) (i : Nat) : Bool :=
  (providers[i]?).any ProviderStatus.canExecuteRequest

theorem serves_iff : serves providers i = true ↔
    ∃ st, providers[i]? = some st ∧ st.canExecuteRequest = true := by
  unfold serves
  cases providers[i]? with
  | none => simp
  | some st => simp

/-- The places that can serve, in the order in which they are tried. -/
def order (c : HorizonClient) : List Nat :=
  candidates (serves c.providers) c.providers.length c.currentProviderIndex

/-- `switch_provider`, a number of times. -/
def switchTimes : Nat → HorizonClient → HorizonClient
  | 0, c => c
  | m + 1, c => switchTimes m c.switchProvider.2

/-! ## One switch -/

theorem chooseNext_eq (providers : List ProviderStatus) (i : Nat) : chooseNext providers i =
    (candidates (serves providers) providers.length i).head?.bind fun j =>
      ((providers[j]?).filter ProviderStatus.canExecuteRequest).map fun st => (j, st.provider) := by
  have hsome : ∀ j, (((providers[j]?).filter ProviderStatus.canExecuteRequest).map fun st =>
      (j, st.provider)).isSome = serves providers j := by
    intro j
    rw [serves]
    cases providers[j]? with
    | none => rfl
    | some st => cases hst : st.canExecuteRequest <;> simp [hst]
  rw [candidates, ← findSome?_eq_head? hsome, around, List.findSome?_map]
  rfl

/-- A switch goes to the first place of the order. -/
theorem switchProvider_of_cons (h : order c = j :: rest) : ∃ st, c.providers[j]? = some st ∧
    c.switchProvider = (.ok st.provider, { c with currentProviderIndex := j }) := by
  have hmem : j ∈ order c := h ▸ List.mem_cons_self
  obtain ⟨st, hst, hserves⟩ := serves_iff.mp (List.mem_filter.mp hmem).2
  have hnext : chooseNext c.providers c.currentProviderIndex = some (j, st.provider) := by
    rw [chooseNext_eq]
    change (order c).head?.bind _ = _
    simp [h, hst, hserves]
  refine ⟨st, hst, ?_⟩
  rw [HorizonClient.switchProvider, hnext]

/-- And has it last afterwards. -/
theorem order_switch : order c.switchProvider.2 = (order c).rotate 1 := by
  cases h : order c with
  | nil =>
    have hnone : chooseNext c.providers c.currentProviderIndex = none := by
      rw [chooseNext_eq]
      change (order c).head?.bind _ = _
      rw [h]
      rfl
    rw [HorizonClient.switchProvider, hnone]
    exact h
  | cons j rest =>
    obtain ⟨st, _, hswitch⟩ := switchProvider_of_cons h
    rw [hswitch, List.rotate_cons_succ, List.rotate_zero]
    exact candidates_of_cons h

/-! ## Many switches -/

theorem switchTimes_same (m : Nat) (c : HorizonClient) :
    (switchTimes m c).providers = c.providers ∧ (switchTimes m c).config = c.config := by
  induction m generalizing c with
  | zero => exact ⟨rfl, rfl⟩
  | succ m ih =>
    obtain ⟨hproviders, hconfig⟩ := ih c.switchProvider.2
    exact ⟨hproviders.trans (switchProvider_providers c), hconfig.trans (switchProvider_config c)⟩

theorem order_switchTimes (m : Nat) (c : HorizonClient) :
    order (switchTimes m c) = (order c).rotate m := by
  induction m generalizing c with
  | zero => exact (List.rotate_zero _).symm
  | succ m ih => rw [switchTimes, ih, order_switch, List.rotate_rotate, Nat.add_comm]

/-- **Every provider that can serve has its turn.** As long as the statuses stay,
there is one order of those that can serve, with each of them once, and the calls
of `switch_provider` go through it over and over. -/
theorem round_robin (c : HorizonClient) (hany : ∃ st ∈ c.providers, st.canExecuteRequest = true) :
    ∃ turns : List Nat,
      turns.Perm ((List.range c.providers.length).filter (serves c.providers)) ∧
      ∀ m, ∃ j st, turns[m % turns.length]? = some j ∧ c.providers[j]? = some st ∧
        (switchTimes m c).switchProvider = (.ok st.provider, { c with currentProviderIndex := j }) := by
  have hperm : (order c).Perm ((List.range c.providers.length).filter (serves c.providers)) :=
    candidates_perm _ _ _
  refine ⟨order c, hperm, fun m => ?_⟩
  have hpos : 0 < (order c).length := by
    obtain ⟨st, hst, hserves⟩ := hany
    obtain ⟨j, hj⟩ := List.getElem?_of_mem hst
    have hlt : j < c.providers.length := (List.getElem?_eq_some_iff.mp hj).1
    have hmem : j ∈ order c := hperm.mem_iff.mpr (List.mem_filter.mpr
      ⟨List.mem_range.mpr hlt, serves_iff.mpr ⟨st, hj, hserves⟩⟩)
    exact List.length_pos_of_mem hmem
  have hlt : m % (order c).length < (order c).length := Nat.mod_lt _ hpos
  obtain ⟨hproviders, hconfig⟩ := switchTimes_same m c
  have hhead : (order (switchTimes m c)).head? = (order c)[m % (order c).length]? := by
    rw [order_switchTimes, ← List.rotate_mod, List.head?_rotate hlt]
  cases horder : order (switchTimes m c) with
  | nil =>
    rw [horder, List.getElem?_eq_getElem hlt] at hhead
    cases hhead
  | cons j rest =>
    obtain ⟨st, hst, hswitch⟩ := switchProvider_of_cons horder
    rw [horder] at hhead
    refine ⟨j, st, hhead.symm, hproviders ▸ hst, ?_⟩
    rw [hswitch, ← hproviders, ← hconfig]

def provider (name : String) : HorizonProvider := ⟨name, name, 1⟩

/-- The second of four providers has failed its health check. -/
def oneDown : HorizonClient :=
  (HorizonClient.new ⟨["first", "second", "third", "fourth"].map provider, 3, 300⟩).recordHealthCheck
    (provider "second") false 5

theorem round_robin_oneDown :
    ((List.range 5).map fun m => (switchTimes (m + 1) oneDown).currentProviderIndex) =
      [2, 3, 0, 2, 3] ∧
    ∃ turns : List Nat, turns.Perm [0, 2, 3] ∧ ∀ m, ∃ j st, turns[m % turns.length]? = some j ∧
      oneDown.providers[j]? = some st ∧ (switchTimes m oneDown).switchProvider =
        (.ok st.provider, { oneDown with currentProviderIndex := j }) := by
  refine ⟨rfl, ?_⟩
  exact round_robin oneDown ⟨.new (provider "first"), List.mem_cons_self, rfl⟩

end Axionvera.Node.Rotation

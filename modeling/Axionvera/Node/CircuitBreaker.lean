import Axionvera.Lib.Transition
import Axionvera.Node.Horizon

/-! # Circuits that open

A failure that reaches the threshold opens the circuit of its provider. Nothing
that the client does closes it again: the half-open state is entered nowhere, and
a success closes a half-open circuit only. So a healthy provider is tried exactly
as long as no failure of it has reached the threshold. -/
namespace Axionvera.Node.CircuitBreaker
open Axionvera.Lib.Transition
open Axionvera.Node.Horizon

variable {c c' : HorizonClient} {st st' : ProviderStatus} {providers : List ProviderStatus}
  {i : Nat} {config : HorizonConfig}

/-! ## What happens to a client -/

/-- What requests, callers and health checks do to a client. -/
inductive Event where
  | succeeded (provider : HorizonProvider) (now : Instant)
  | failed (provider : HorizonProvider) (now : Instant)
  | switched
  | checked (provider : HorizonProvider) (isHealthy : Bool) (now : Instant)

def after (c : HorizonClient) : Event → HorizonClient
  | .succeeded provider now => c.recordProviderSuccess provider now
  | .failed provider now => (c.recordProviderFailure provider now).2
  | .switched => c.switchProvider.2
  | .checked provider isHealthy now => c.recordHealthCheck provider isHealthy now

def Step (c : HorizonClient) (e : Event) (c' : HorizonClient) : Prop := c' = after c e

variable {e : Event} {events : List Event}

/-- A whole request is a sequence of such events. -/
theorem executeFrom_run {α : Type} (operation : Nat → HorizonProvider → Response α)
    (remaining : Nat) (c : HorizonClient) :
    ∃ events, Run Step c events (executeFrom operation remaining c).client := by
  fun_induction executeFrom operation remaining c with
  | case1 => exact ⟨[], .nil⟩
  | case2 c e _ rest e' c' hswitch =>
    exact ⟨[.switched], .snoc .nil (congrArg Prod.snd hswitch).symm⟩
  | case3 c e _ rest p c' hswitch ih =>
    obtain ⟨events, hrun⟩ := ih
    have hfirst : Run Step c [.switched] c' := .snoc .nil (congrArg Prod.snd hswitch).symm
    exact ⟨_, hfirst.trans hrun⟩
  | case4 remaining c provider _ response =>
    exact ⟨[.succeeded provider response.recordedAt], .snoc .nil rfl⟩
  | case5 c provider _ text c₁ rest why c₂ hswitch response _ hfail =>
    have hfirst : Run Step c [.failed provider response.recordedAt] c₁ :=
      .snoc .nil (congrArg Prod.snd hfail).symm
    exact ⟨.switched :: _, hfirst.snoc (congrArg Prod.snd hswitch).symm⟩
  | case6 c provider _ text c₁ rest p c₂ hswitch later response _ hfail ih =>
    obtain ⟨events, hrun⟩ := ih
    have hfirst : Run Step c [.failed provider response.recordedAt] c₁ :=
      .snoc .nil (congrArg Prod.snd hfail).symm
    have hsecond : Run Step c [.switched, .failed provider response.recordedAt] c₂ :=
      hfirst.snoc (congrArg Prod.snd hswitch).symm
    exact ⟨_, hsecond.trans hrun⟩
  | case7 remaining c provider _ response text _ b c₁ hfail =>
    exact ⟨[.failed provider response.recordedAt], .snoc .nil (congrArg Prod.snd hfail).symm⟩

/-! ## One status along events -/

theorem update_get (providers : List ProviderStatus) (url : String)
    (f : ProviderStatus → ProviderStatus) (i : Nat) :
    (update providers url f)[i]? =
      (providers[i]?).map fun st => if position providers url = some i then f st else st := by
  unfold update
  cases hposition : position providers url with
  | none => simp
  | some j =>
    by_cases hij : j = i
    · subst hij
      simp
    · simp [hij]

/-- What an event makes of the status at a place. -/
def statusAfter (c : HorizonClient) (e : Event) (i : Nat) (st : ProviderStatus) : ProviderStatus :=
  match e with
  | .succeeded provider now =>
    if position c.providers provider.url = some i then st.recordSuccess now else st
  | .failed provider now =>
    if position c.providers provider.url = some i then
      st.recordFailure now c.config.circuitBreakerFailureThreshold
    else st
  | .switched => st
  | .checked provider isHealthy now =>
    if position c.providers provider.url = some i then st.recordHealth now isHealthy else st

theorem after_get (c : HorizonClient) (e : Event) (i : Nat) :
    (after c e).providers[i]? = (c.providers[i]?).map (statusAfter c e i) := by
  cases e with
  | succeeded provider now => exact update_get _ _ _ i
  | failed provider now => exact update_get _ _ _ i
  | switched =>
    rw [after, switchProvider_providers]
    exact Option.map_id'.symm
  | checked provider isHealthy now => exact update_get _ _ _ i

/-- The event is no failure of the provider at `i` that reaches the threshold. -/
def Spares (i : Nat) (c : HorizonClient) : Event → Prop
  | .failed provider _ => position c.providers provider.url = some i → ∀ st ∈ c.providers[i]?,
    ¬ c.config.circuitBreakerFailureThreshold ≤ st.failureCount + 1
  | _ => True

def SparingStep (i : Nat) (c : HorizonClient) (e : Event) (c' : HorizonClient) : Prop :=
  Step c e c' ∧ Spares i c e

/-- An open circuit stays open. -/
theorem statusAfter_opened (h : st.circuitState = .opened) :
    (statusAfter c e i st).circuitState = .opened := by
  cases e with
  | succeeded provider now =>
    dsimp only [statusAfter]
    split
    · simp [ProviderStatus.recordSuccess, h]
    · exact h
  | failed provider now =>
    dsimp only [statusAfter]
    split
    · simp [ProviderStatus.recordFailure, h]
    · exact h
  | switched => exact h
  | checked provider isHealthy now =>
    dsimp only [statusAfter]
    split
    · exact h
    · exact h

/-- A closed circuit stays closed or is opened by a failure at the threshold. -/
theorem statusAfter_closed (hst : c.providers[i]? = some st) (h : st.circuitState = .closed) :
    (Spares i c e ∧ (statusAfter c e i st).circuitState = .closed) ∨
      (¬ Spares i c e ∧ (statusAfter c e i st).circuitState = .opened) := by
  cases e with
  | failed provider now =>
    by_cases hposition : position c.providers provider.url = some i
    · by_cases hreached : c.config.circuitBreakerFailureThreshold ≤ st.failureCount + 1
      · right
        refine ⟨fun hspares => hspares hposition st hst hreached, ?_⟩
        simp [statusAfter, hposition, ProviderStatus.recordFailure, hreached]
      · left
        refine ⟨?_, ?_⟩
        · intro _ st' hst'
          cases hst.symm.trans hst'
          exact hreached
        · simp [statusAfter, hposition, ProviderStatus.recordFailure, hreached, h]
    · left
      refine ⟨fun htarget => absurd htarget hposition, ?_⟩
      simp [statusAfter, hposition, h]
  | switched => exact Or.inl ⟨trivial, h⟩
  | succeeded provider now =>
    refine Or.inl ⟨trivial, ?_⟩
    dsimp only [statusAfter]
    split
    · simp [ProviderStatus.recordSuccess, h]
    · exact h
  | checked provider isHealthy now =>
    refine Or.inl ⟨trivial, ?_⟩
    dsimp only [statusAfter]
    split
    · exact h
    · exact h

/-! ## Runs -/

theorem closed_of_new (hst : (HorizonClient.new config).providers[i]? = some st) :
    st.circuitState = .closed := by
  have hmem := (List.mem_insertionSort _).mp (List.mem_of_getElem? hst)
  obtain ⟨provider, _, rfl⟩ := List.mem_map.mp hmem
  rfl

theorem closed_of_sparing (hrun : Run (SparingStep i) (HorizonClient.new config) events c)
    (hst : c.providers[i]? = some st) : st.circuitState = .closed := by
  induction hrun generalizing st with
  | nil => exact closed_of_new hst
  | snoc _ hstep ih =>
    obtain ⟨rfl, hspares⟩ := hstep
    rw [after_get] at hst
    obtain ⟨st₀, hst₀, rfl⟩ := Option.map_eq_some_iff.mp hst
    rcases statusAfter_closed hst₀ (ih hst₀) with ⟨_, hclosed⟩ | ⟨hnot, _⟩
    · exact hclosed
    · exact absurd hspares hnot

/-- A circuit that a failure has opened is open from then on. -/
theorem sparing_or_opened (hrun : Run Step (HorizonClient.new config) events c)
    (hst : c.providers[i]? = some st) :
    Run (SparingStep i) (HorizonClient.new config) events c ∨ st.circuitState = .opened := by
  induction hrun generalizing st with
  | nil => exact Or.inl .nil
  | snoc _ hstep ih =>
    obtain rfl := hstep
    rw [after_get] at hst
    obtain ⟨st₀, hst₀, rfl⟩ := Option.map_eq_some_iff.mp hst
    rcases ih hst₀ with hsparing | hopened
    · rcases statusAfter_closed hst₀ (closed_of_sparing hsparing hst₀) with
        ⟨hspares, _⟩ | ⟨_, hopened⟩
      · exact Or.inl (.snoc hsparing ⟨rfl, hspares⟩)
      · exact Or.inr hopened
    · exact Or.inr (statusAfter_opened hopened)

/-- The circuit of a provider is closed exactly after the runs that spare it. -/
theorem closed_iff_sparing (hrun : Run Step (HorizonClient.new config) events c)
    (hst : c.providers[i]? = some st) :
    st.circuitState = .closed ↔ Run (SparingStep i) (HorizonClient.new config) events c := by
  refine ⟨?_, fun hsparing => closed_of_sparing hsparing hst⟩
  intro hclosed
  rcases sparing_or_opened hrun hst with hsparing | hopened
  · exact hsparing
  · cases hclosed.symm.trans hopened

/-! ## Requests -/

/-- No provider but the one at `i` can serve. -/
def Alone (c : HorizonClient) (i : Nat) : Prop :=
  ∀ (j : Nat) (st : ProviderStatus), c.providers[j]? = some st → j ≠ i →
    st.canExecuteRequest = false

theorem filter_of_not (h : ∀ st, providers[i]? = some st → st.canExecuteRequest = false) :
    (providers[i]?).filter ProviderStatus.canExecuteRequest = none := by
  cases hst : providers[i]? with
  | none => rfl
  | some st => simp [h st hst]

theorem getCurrentProvider_of_alone (hst : c.providers[i]? = some st)
    (hserves : st.canExecuteRequest = true) (halone : Alone c i) :
    c.getCurrentProvider = .ok st.provider := by
  unfold HorizonClient.getCurrentProvider choose
  by_cases hcurrent : c.currentProviderIndex = i
  · have hfilter : (c.providers[i]?).filter ProviderStatus.canExecuteRequest = some st := by
      rw [hst]
      exact if_pos hserves
    rw [hcurrent, hfilter]
  · rw [filter_of_not fun st' hst' => halone _ st' hst' hcurrent]
    -- the loop finds the only provider that can serve
    cases hfind : c.providers.zipIdx.find? fun x =>
        decide (x.2 ≠ c.currentProviderIndex) && x.1.canExecuteRequest with
    | none =>
      have hmissed := List.find?_eq_none.mp hfind (st, i) (List.mk_mem_zipIdx_iff_getElem?.mpr hst)
      simp [hserves, Ne.symm hcurrent] at hmissed
    | some x =>
      obtain ⟨st', j⟩ := x
      have hserves' := List.find?_some hfind
      have hst' := List.mk_mem_zipIdx_iff_getElem?.mp (List.mem_of_find?_eq_some hfind)
      by_cases hj : j = i
      · subst hj
        cases hst.symm.trans hst'
        rfl
      · simp [halone j st' hst' hj] at hserves'

section Nobody
variable (h : ∀ st ∈ c.providers, st.canExecuteRequest = false)
include h

theorem getCurrentProvider_of_none :
    c.getCurrentProvider = .error (.horizonClient "No healthy Horizon providers available") := by
  have hfind : (c.providers.zipIdx.find? fun x =>
      decide (x.2 ≠ c.currentProviderIndex) && x.1.canExecuteRequest) = none := by
    refine List.find?_eq_none.mpr ?_
    intro x hx
    simp [h x.1 (List.fst_mem_of_mem_zipIdx hx)]
  unfold HorizonClient.getCurrentProvider choose
  rw [filter_of_not fun st hst => h st (List.mem_of_getElem? hst), hfind]

theorem switchProvider_of_none :
    c.switchProvider = (.error (.horizonClient "No healthy fallback providers available"), c) := by
  have hnext : chooseNext c.providers c.currentProviderIndex = none := by
    refine List.findSome?_eq_none_iff.mpr ?_
    intro k _
    simp only [filter_of_not fun st hst => h st (List.mem_of_getElem? hst), Option.map_none]
  unfold HorizonClient.switchProvider
  rw [hnext]

/-- Then nothing is attempted and the request fails. -/
theorem executeRequest_of_none {α : Type} (operation : Nat → HorizonProvider → Response α) :
    (c.executeRequest operation).attempted = [] ∧
      ∃ e, (c.executeRequest operation).result = .error e := by
  unfold HorizonClient.executeRequest executeFrom
  rw [getCurrentProvider_of_none h]
  cases c.config.providers.length - 1 with
  | zero => exact ⟨rfl, _, rfl⟩
  | succ rest =>
    rw [switchProvider_of_none h]
    exact ⟨rfl, _, rfl⟩

end Nobody

/-- The first attempt is on the provider that is chosen first. -/
theorem attempted_of_choice {α : Type} {provider : HorizonProvider}
    (operation : Nat → HorizonProvider → Response α) (h : c.getCurrentProvider = .ok provider) :
    (c.executeRequest operation).attempted.head? = some provider := by
  unfold HorizonClient.executeRequest executeFrom
  simp only [h]
  split
  · rfl
  · split
    · split
      · rfl
      · rfl
    · rfl

/-- **When a provider is tried.** Take a healthy provider beside which no other
can serve. A request attempts the operation on it exactly if no failure of it has
reached the threshold in the run so far. Once its circuit is open, every request
fails without an attempt, however long ago the last failure was. -/
theorem attempted_iff_never_opened {α : Type} (config : HorizonConfig) (events : List Event)
    (c : HorizonClient) (hrun : Run Step (HorizonClient.new config) events c) (i : Nat)
    (st : ProviderStatus) (hst : c.providers[i]? = some st) (hhealthy : st.isHealthy = true)
    (halone : Alone c i) (operation : Nat → HorizonProvider → Response α) :
    ((c.executeRequest operation).attempted.head? = some st.provider ↔
      Run (SparingStep i) (HorizonClient.new config) events c) ∧
    (st.circuitState = .opened → (c.executeRequest operation).attempted = [] ∧
      ∃ e, (c.executeRequest operation).result = .error e) := by
  have hopened : st.circuitState = .opened → (c.executeRequest operation).attempted = [] ∧
      ∃ e, (c.executeRequest operation).result = .error e := by
    intro hopened
    refine executeRequest_of_none ?_ operation
    intro st' hmem
    obtain ⟨j, hst'⟩ := List.getElem?_of_mem hmem
    by_cases hj : j = i
    · subst hj
      cases hst.symm.trans hst'
      simp [ProviderStatus.canExecuteRequest, hopened]
    · exact halone j st' hst' hj
  refine ⟨?_, hopened⟩
  rw [← closed_iff_sparing hrun hst]
  refine ⟨?_, ?_⟩
  · intro hattempted
    rcases sparing_or_opened hrun hst with hsparing | hopen
    · exact closed_of_sparing hsparing hst
    · rw [(hopened hopen).1] at hattempted
      cases hattempted
  · intro hclosed
    have hserves : st.canExecuteRequest = true := by
      simp [ProviderStatus.canExecuteRequest, hclosed, hhealthy]
    exact attempted_of_choice operation (getCurrentProvider_of_alone hst hserves halone)

/-! ## One provider -/

def horizon : HorizonProvider := ⟨"https://horizon.stellar.org", "Stellar Public", 1⟩

/-- The defaults of the configuration, with one provider. -/
def single : HorizonConfig := ⟨[horizon], 3, 300⟩

def seconds (n : Nat) : Instant := n * 1000000000

def afterAll (config : HorizonConfig) (events : List Event) : HorizonClient :=
  events.foldr (fun e c => after c e) (HorizonClient.new config)

theorem run_afterAll (config : HorizonConfig) (events : List Event) :
    Run Step (HorizonClient.new config) events (afterAll config events) := by
  induction events with
  | nil => exact .nil
  | cons e events ih => exact .snoc ih rfl

theorem alone_of_length (h : c.providers.length = 1) : Alone c 0 := by
  intro j st hst hj
  have hlt := (List.getElem?_eq_some_iff.mp hst).1
  omega

/-- Two failures and a health check that succeeds. -/
def twoStrikes : List Event :=
  [.checked horizon true (seconds 60), .failed horizon (seconds 2), .failed horizon (seconds 1)]

theorem attempted_iff_never_opened_twoStrikes :
    ((afterAll single twoStrikes).executeRequest
      fun _ _ => (⟨.ok (), seconds 61⟩ : Response Unit)).attempted.head? = some horizon := by
  have hrun := run_afterAll single twoStrikes
  have hst : (afterAll single twoStrikes).providers[0]? =
      some ⟨horizon, 2, some (seconds 2), .closed, true, some (seconds 60)⟩ := rfl
  exact (attempted_iff_never_opened single twoStrikes _ hrun 0 _ hst rfl (alone_of_length rfl) _).1.mpr
    ((closed_iff_sparing hrun hst).mp rfl)

/-- The third failure opens the circuit. Sixteen minutes later, with a health
check passed and the recovery timeout long over, a request is still refused. -/
theorem opened_circuit_is_never_tried : ∃ (c : HorizonClient) (st : ProviderStatus),
    Run Step (HorizonClient.new single)
      [.checked horizon true (seconds 400), .failed horizon (seconds 3),
        .failed horizon (seconds 2), .failed horizon (seconds 1)] c ∧
    c.providers[0]? = some st ∧ st.circuitState = .opened ∧ st.isHealthy = true ∧
    st.shouldAttemptReset (seconds 1000) single.recoveryTimeout = true ∧ Alone c 0 ∧
    (c.executeRequest fun _ _ => (⟨.ok (), seconds 1000⟩ : Response Unit)).attempted = [] ∧
    (c.executeRequest fun _ _ => (⟨.ok (), seconds 1000⟩ : Response Unit)).result =
      .error (.horizonClient "No healthy Horizon providers available") :=
  ⟨_, _, run_afterAll single _, rfl, rfl, rfl, by decide +kernel, alone_of_length rfl, rfl, rfl⟩

end Axionvera.Node.CircuitBreaker

import Axionvera.Lib.Transition
import Axionvera.Node.ErrorBreakers

/-! # How a breaker recovers

The successes of a component are counted in every state of its breaker, and the
count is cleared only when the breaker closes or is reset. So a half-open breaker
may close on successes from before it was half-open. An open breaker is left on
the path of an error only: without one, it stays open after its timeout, whatever
succeeds. -/
namespace Axionvera.Node.BreakerRecovery
open Axionvera.Lib.Transition
open Axionvera.Node.ErrorBreakers

variable {config : ErrorMiddlewareConfig} {events later : List Event} {component : String}
  {e : Event} {b b' : CircuitBreaker} {now : Time}

/-! ## One event -/

theorem recordError_successCount :
    (b.recordError config now).successCount = b.successCount := by
  unfold CircuitBreaker.recordError
  dsimp only
  split
  · split <;> rfl
  · split <;> rfl
  · rfl

theorem recordError_of_opened (h : b.state = .opened) : (b.recordError config now).state =
    if b.timeoutPassed config now = true then .halfOpen else .opened := by
  unfold CircuitBreaker.recordError CircuitBreaker.timeoutPassed
  simp only [h]
  split <;> rfl

theorem recordError_of_not_opened (h : b.state ≠ .opened) :
    (b.recordError config now).state ≠ .halfOpen ∧
      (b.state = .halfOpen → (b.recordError config now).state = .opened) := by
  unfold CircuitBreaker.recordError
  cases hstate : b.state with
  | closed =>
    dsimp only
    split <;> simp
  | opened => exact absurd hstate h
  | halfOpen => simp

theorem recordSuccess_of_halfOpen (h : b.state = .halfOpen) : b.recordSuccess =
    if 3 ≤ b.successCount + 1 then
      { b with state := .closed, failureCount := 0, successCount := 0 }
    else { b with successCount := b.successCount + 1 } := by
  simp [CircuitBreaker.recordSuccess, h]

theorem recordSuccess_of_not_halfOpen (h : b.state ≠ .halfOpen) :
    b.recordSuccess.state = b.state := by
  unfold CircuitBreaker.recordSuccess
  cases hstate : b.state with
  | halfOpen => exact absurd hstate h
  | closed => rfl
  | opened => rfl

/-! ## A disabled breaker -/

/-- Without breakers, none opens. -/
theorem enabled_of_opened (h : breaker config component events = some b)
    (hopened : b.state = .opened) : config.enableCircuitBreaker = true := by
  by_contra hdisabled
  have hclosed : ∀ events b, breaker config component events = some b → b.state = .closed := by
    intro events
    induction events with
    | nil =>
      intro b hb
      cases hb
    | cons e events ih =>
      intro b hb
      rw [breaker_cons] at hb
      cases e with
      | handleError c now =>
        rw [breakerAfter, if_neg fun h => hdisabled h.2] at hb
        exact ih b hb
      | recordSuccess c =>
        rw [breakerAfter, if_neg fun h => hdisabled h.2] at hb
        exact ih b hb
      | resetCircuitBreaker c =>
        rw [breakerAfter] at hb
        split at hb
        · cases hb
          rfl
        · exact ih b hb
  rw [hclosed events b h] at hopened
  cases hopened

/-! ## Fresh evidence -/

/-- The state of the breaker, if there is one. -/
def stateOf (config : ErrorMiddlewareConfig) (component : String) (events : List Event) :
    Option CircuitBreakerState :=
  (breaker config component events).map CircuitBreaker.state

/-- The successes recorded since the breaker was last found to have become
half-open, the latest event included. -/
def evidence (config : ErrorMiddlewareConfig) (component : String) : List Event → Nat
  | [] => 0
  | e :: events =>
    if stateOf config component events = some .halfOpen then
      if e = .recordSuccess component then evidence config component events + 1
      else evidence config component events
    else 0

/-- An error that makes the breaker half-open finds its success counter at zero,
or about to wrap around to zero. -/
def FreshEntry (config : ErrorMiddlewareConfig) (component : String) (events : List Event)
    (e : Event) : Prop :=
  ∀ now b, e = .handleError component now → breaker config component events = some b →
    b.state = .opened → b.timeoutPassed config now = true → b.successCount + 1 ≤ 1

/-- A half-open breaker has counted no more than the successes since. -/
def Supported (config : ErrorMiddlewareConfig) (component : String) (events : List Event) : Prop :=
  ∀ b, breaker config component events = some b → b.state = .halfOpen →
    (b.successCount + 1).toNat ≤ evidence config component events + 1

theorem evidence_le_cons (h : stateOf config component events = some .halfOpen) :
    evidence config component events ≤ evidence config component (e :: events) := by
  rw [evidence, if_pos h]
  split
  · exact Nat.le_succ _
  · exact Nat.le_refl _

theorem breaker_success (henabled : config.enableCircuitBreaker = true)
    (h : breaker config component events = some b) :
    breaker config component (.recordSuccess component :: events) = some b.recordSuccess := by
  rw [breaker_cons, breakerAfter, if_pos ⟨rfl, henabled⟩, h]
  rfl

theorem toNat_succ_of_lt {n : UInt64} (h : ¬ 3 ≤ n) : (n + 1).toNat = n.toNat + 1 := by
  rw [UInt64.le_iff_toNat_le] at h
  rw [UInt64.toNat_add]
  change (n.toNat + 1) % _ = _
  have hthree : (3 : UInt64).toNat = 3 := rfl
  omega

theorem Supported.cons (h : Supported config component events)
    (hfresh : FreshEntry config component events e) : Supported config component (e :: events) := by
  intro b hb hhalf
  -- An event that leaves the breaker alone.
  have hkept : breaker config component events = some b →
      (b.successCount + 1).toNat ≤ evidence config component (e :: events) + 1 := by
    intro hsame
    have hstate : stateOf config component events = some .halfOpen := by
      rw [stateOf, hsame, Option.map_some, hhalf]
    have hle := evidence_le_cons (e := e) hstate
    have hbefore := h b hsame hhalf
    omega
  rw [breaker_cons] at hb
  cases e with
  | handleError c now =>
    rw [breakerAfter] at hb
    split at hb
    · rename_i hmine
      obtain ⟨rfl, -⟩ := hmine
      cases hfound : breaker config c events with
      | none =>
        rw [hfound] at hb
        cases hb
        exact absurd hhalf (recordError_of_not_opened (by simp [CircuitBreaker.initial])).1
      | some b₀ =>
        rw [hfound] at hb
        cases hb
        rw [Option.getD_some] at hhalf ⊢
        by_cases hopened : b₀.state = .opened
        · rw [recordError_of_opened hopened] at hhalf
          split at hhalf
          · rename_i hpassed
            have hzero := hfresh now b₀ rfl hfound hopened hpassed
            rw [recordError_successCount]
            exact le_trans (UInt64.le_iff_toNat_le.mp hzero) (Nat.le_add_left 1 _)
          · cases hhalf
        · exact absurd hhalf (recordError_of_not_opened hopened).1
    · exact hkept hb
  | recordSuccess c =>
    rw [breakerAfter] at hb
    split at hb
    · rename_i hmine
      obtain ⟨rfl, -⟩ := hmine
      obtain ⟨b₀, hfound, rfl⟩ := Option.map_eq_some_iff.mp hb
      by_cases hbefore : b₀.state = .halfOpen
      · rw [recordSuccess_of_halfOpen hbefore] at hhalf ⊢
        split at hhalf
        · cases hhalf
        · rename_i hfew
          rw [if_neg hfew, evidence, if_pos (by rw [stateOf, hfound, Option.map_some, hbefore]),
            if_pos rfl, toNat_succ_of_lt hfew]
          exact Nat.succ_le_succ (h b₀ hfound hbefore)
      · rw [recordSuccess_of_not_halfOpen hbefore] at hhalf
        exact absurd hhalf hbefore
    · exact hkept hb
  | resetCircuitBreaker c =>
    rw [breakerAfter] at hb
    split at hb
    · cases hb
      cases hhalf
    · exact hkept hb

/-- A half-open breaker is closed by a reset or by a success that the counter
takes for the third. -/
theorem Supported.closes (h : Supported config component events)
    (hbefore : stateOf config component events = some .halfOpen)
    (hafter : stateOf config component (e :: events) = some .closed) :
    e = .resetCircuitBreaker component ∨ 3 ≤ evidence config component (e :: events) := by
  obtain ⟨b, hb, hhalf⟩ := Option.map_eq_some_iff.mp hbefore
  rw [stateOf, breaker_cons, hb] at hafter
  cases e with
  | handleError c now =>
    rw [breakerAfter] at hafter
    split at hafter
    · have hopened : (b.recordError config now).state = .opened :=
        (recordError_of_not_opened (by simp [hhalf])).2 hhalf
      simp [hopened] at hafter
    · simp [hhalf] at hafter
  | recordSuccess c =>
    rw [breakerAfter] at hafter
    split at hafter
    · rename_i hmine
      obtain ⟨rfl, -⟩ := hmine
      rw [Option.map_some, Option.map_some, recordSuccess_of_halfOpen hhalf] at hafter
      split at hafter
      · rename_i hthree
        right
        rw [evidence, if_pos hbefore, if_pos rfl]
        exact le_trans (UInt64.le_iff_toNat_le.mp hthree) (h b hb hhalf)
      · simp [hhalf] at hafter
    · simp [hhalf] at hafter
  | resetCircuitBreaker c =>
    rw [breakerAfter] at hafter
    split at hafter
    · rename_i heq
      rw [heq]
      exact Or.inl rfl
    · simp [hhalf] at hafter

theorem supported_of_fresh
    (hfresh : ∀ e h, (e :: h) <:+ events → FreshEntry config component h e) :
    Supported config component events := by
  refine suffix_induct ?_ (fun _ _ hbefore => hbefore.cons) hfresh
  intro b hb
  cases hb

/-- One success, or two, close a breaker that became half-open with an old count. -/
theorem stale_entry_closes (h : ¬ FreshEntry config component events (.handleError component now)) :
    ∃ n < 3, stateOf config component (.handleError component now :: events) = some .halfOpen ∧
      stateOf config component
        (List.replicate n (.recordSuccess component) ++ .handleError component now :: events) =
          some .closed := by
  unfold FreshEntry at h
  simp only [Event.handleError.injEq, true_and, not_forall] at h
  obtain ⟨now', b, rfl, hb, hopened, hpassed, hold⟩ := h
  have henabled := enabled_of_opened hb hopened
  have hentered : breaker config component (.handleError component now :: events) =
      some (b.recordError config now) := by
    rw [breaker_cons, breakerAfter, if_pos ⟨rfl, henabled⟩, hb]
    rfl
  have hhalf : (b.recordError config now).state = .halfOpen := by
    rw [recordError_of_opened hopened, if_pos hpassed]
  have hstate : stateOf config component (.handleError component now :: events) =
      some .halfOpen := by
    rw [stateOf, hentered, Option.map_some, hhalf]
  have hcount : (b.recordError config now).successCount = b.successCount := recordError_successCount
  rw [← hcount] at hold
  generalize b.recordError config now = b₁ at hentered hhalf hcount hold
  have hfirst := breaker_success henabled hentered
  rw [recordSuccess_of_halfOpen hhalf] at hfirst
  by_cases hthree : 3 ≤ b₁.successCount + 1
  · rw [if_pos hthree] at hfirst
    refine ⟨1, by omega, hstate, ?_⟩
    rw [List.replicate_one, List.singleton_append, stateOf, hfirst]
    rfl
  · rw [if_neg hthree] at hfirst
    have hsecond := breaker_success henabled hfirst
    have hhalf₂ : { b₁ with successCount := b₁.successCount + 1 }.state = .halfOpen := hhalf
    have hnext : 3 ≤ b₁.successCount + 1 + 1 := by
      have hone : (1 : UInt64).toNat = 1 := rfl
      have hthree' : (3 : UInt64).toNat = 3 := rfl
      rw [UInt64.le_iff_toNat_le] at hold ⊢
      rw [toNat_succ_of_lt hthree]
      omega
    rw [recordSuccess_of_halfOpen hhalf₂, if_pos hnext] at hsecond
    refine ⟨2, by omega, hstate, ?_⟩
    rw [List.replicate_succ, List.replicate_one, List.cons_append, List.singleton_append, stateOf,
      hsecond]
    rfl

/-- **Fresh evidence.** In every run in which each error that makes the breaker
half-open finds its success counter at zero, a half-open breaker becomes closed
only by a reset, which replaces it, or after three successes since it became
half-open. An error that finds the counter elsewhere makes a breaker that one or
two successes close. -/
theorem closes_on_fresh_evidence (config : ErrorMiddlewareConfig) (component : String)
    (events : List Event) :
    ((∀ e h, (e :: h) <:+ events → FreshEntry config component h e) →
      ∀ e h, (e :: h) <:+ events → stateOf config component h = some .halfOpen →
        stateOf config component (e :: h) = some .closed →
        e = .resetCircuitBreaker component ∨ 3 ≤ evidence config component (e :: h)) ∧
    ∀ now, ¬ FreshEntry config component events (.handleError component now) → ∃ n < 3,
      stateOf config component (.handleError component now :: events) = some .halfOpen ∧
        stateOf config component
          (List.replicate n (.recordSuccess component) ++ .handleError component now :: events) =
            some .closed := by
  refine ⟨?_, fun now hstale => stale_entry_closes hstale⟩
  intro hfresh e h hsuffix hbefore hafter
  have hearlier : ∀ e' h', (e' :: h') <:+ h → FreshEntry config component h' e' :=
    fun e' h' hsuffix' => hfresh e' h' (hsuffix'.trans ((List.suffix_cons e h).trans hsuffix))
  exact (supported_of_fresh hearlier).closes hbefore hafter

/-- A breaker that opens at the first error, for a minute. -/
def minute : ErrorMiddlewareConfig := ⟨true, 1, 60000000000⟩

/-- It opens, an error after the minute makes it half-open, and three calls
succeed. -/
def freshSuccesses : List Event :=
  [.recordSuccess "rpc", .recordSuccess "rpc", .recordSuccess "rpc", .handleError "rpc" 61000000000,
    .handleError "rpc" 0]

theorem closes_on_fresh_evidence_minute :
    (∀ e h, (e :: h) <:+ freshSuccesses → FreshEntry minute "rpc" h e) ∧
      stateOf minute "rpc" freshSuccesses.tail = some .halfOpen ∧
      stateOf minute "rpc" freshSuccesses = some .closed ∧
      3 ≤ evidence minute "rpc" freshSuccesses := by
  have hfresh : ∀ e h, (e :: h) <:+ freshSuccesses → FreshEntry minute "rpc" h e := by
    intro e h hsuffix now b he hb _ _
    subst he
    simp only [freshSuccesses, List.suffix_cons_iff, List.suffix_nil, List.cons.injEq, reduceCtorEq,
      false_and, or_false, false_or, Event.handleError.injEq, true_and] at hsuffix
    rcases hsuffix with ⟨rfl, rfl⟩ | ⟨rfl, rfl⟩
    · cases hb
      decide
    · cases hb
  have hclosed : stateOf minute "rpc" freshSuccesses = some .closed := rfl
  refine ⟨hfresh, rfl, hclosed, ?_⟩
  have hevidence := (closes_on_fresh_evidence minute "rpc" freshSuccesses).1 hfresh _ _
    List.suffix_rfl rfl hclosed
  exact hevidence.resolve_left (by decide)

/-- It opens, three calls in progress succeed, and an error after the minute
makes it half-open. -/
def oldSuccesses : List Event :=
  [.handleError "rpc" 61000000000, .recordSuccess "rpc", .recordSuccess "rpc", .recordSuccess "rpc",
    .handleError "rpc" 0]

/-- One success then closes it. -/
theorem old_successes_close :
    stateOf minute "rpc" oldSuccesses = some .halfOpen ∧
      stateOf minute "rpc" (.recordSuccess "rpc" :: oldSuccesses) = some .closed ∧
      evidence minute "rpc" (.recordSuccess "rpc" :: oldSuccesses) = 1 :=
  ⟨rfl, rfl, rfl⟩

/-! ## Open breakers -/

theorem isCircuitBreakerOpen_of_opened (h : breaker config component events = some b)
    (hopened : b.state = .opened) :
    (reached config events).isCircuitBreakerOpen component = true := by
  have henabled := enabled_of_opened h hopened
  have hfound : (reached config events).circuitBreakers.lookup component = some b := h
  simp [ErrorMiddleware.isCircuitBreakerOpen, reached_config, henabled, hfound, hopened]

/-- The event is no error and no reset of the component. -/
def Calm (component : String) : Event → Prop
  | .handleError c _ => c ≠ component
  | .recordSuccess _ => True
  | .resetCircuitBreaker c => c ≠ component

theorem opened_cons (hcalm : Calm component e) (h : stateOf config component events = some .opened) :
    stateOf config component (e :: events) = some .opened := by
  obtain ⟨b, hb, hopened⟩ := Option.map_eq_some_iff.mp h
  rw [stateOf, breaker_cons, hb]
  cases e with
  | handleError c now =>
    rw [breakerAfter, if_neg fun h => hcalm h.1, Option.map_some, hopened]
  | recordSuccess c =>
    rw [breakerAfter]
    split
    · rw [Option.map_some, Option.map_some,
        recordSuccess_of_not_halfOpen (by simp [hopened]), hopened]
    · rw [Option.map_some, hopened]
  | resetCircuitBreaker c =>
    rw [breakerAfter, if_neg hcalm, Option.map_some, hopened]

theorem opened_append (hcalm : ∀ e ∈ later, Calm component e)
    (h : stateOf config component events = some .opened) :
    stateOf config component (later ++ events) = some .opened := by
  induction later with
  | nil => exact h
  | cons e later ih =>
    obtain ⟨hfirst, hrest⟩ := List.forall_mem_cons.mp hcalm
    exact opened_cons hfirst (ih hrest)

/-- The breaker is not open, or not open any more after three successes. -/
def Recovers (config : ErrorMiddlewareConfig) (component : String) (events : List Event) : Prop :=
  (reached config events).isCircuitBreakerOpen component = false ∨
    (reached config (List.replicate 3 (.recordSuccess component) ++ events)).isCircuitBreakerOpen
      component = false

/-- **Open for good.** A breaker that is open does not recover, whatever the time:
without a further error or a reset it is open after any number of successes. -/
theorem open_breaker_stays_open (config : ErrorMiddlewareConfig) (component : String)
    (events : List Event) (b : CircuitBreaker) (hb : breaker config component events = some b)
    (hopened : b.state = .opened) :
    ¬ Recovers config component events ∧
      ∀ later, (∀ e ∈ later, Calm component e) →
        (reached config (later ++ events)).isCircuitBreakerOpen component = true := by
  have hstate : stateOf config component events = some .opened := by
    rw [stateOf, hb, Option.map_some, hopened]
  have hstays : ∀ later, (∀ e ∈ later, Calm component e) →
      (reached config (later ++ events)).isCircuitBreakerOpen component = true := by
    intro later hcalm
    obtain ⟨b', hb', hopened'⟩ := Option.map_eq_some_iff.mp (opened_append hcalm hstate)
    exact isCircuitBreakerOpen_of_opened hb' hopened'
  refine ⟨?_, hstays⟩
  intro hrecovers
  rcases hrecovers with hnow | hthen
  · have hopen := hstays [] (by simp)
    rw [List.nil_append, hnow] at hopen
    cases hopen
  · have hopen := hstays (List.replicate 3 (.recordSuccess component)) ?_
    · rw [hthen] at hopen
      cases hopen
    · intro e he
      rw [List.eq_of_mem_replicate he]
      trivial

theorem open_breaker_stays_open_minute :
    (breaker minute "rpc" [.handleError "rpc" 0]).map CircuitBreaker.state = some .opened ∧
      ¬ Recovers minute "rpc" [.handleError "rpc" 0] :=
  ⟨rfl, (open_breaker_stays_open minute "rpc" [.handleError "rpc" 0] _ rfl rfl).1⟩

/-- Three successes after the minute do not help. -/
theorem three_successes_do_not_help :
    (breaker minute "rpc" [.handleError "rpc" 0]).any
        (fun b => decide (b.state = .opened) && b.timeoutPassed minute 61000000000) = true ∧
      (reached minute [.recordSuccess "rpc", .recordSuccess "rpc", .recordSuccess "rpc",
        .handleError "rpc" 0]).isCircuitBreakerOpen "rpc" = true :=
  ⟨by decide, by decide⟩

end Axionvera.Node.BreakerRecovery

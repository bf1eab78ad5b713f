import Axionvera.Lib.Guards
import Axionvera.Lib.Transition
import Axionvera.Node.CircuitBreaker

/-! # The locks of the Horizon client

The statuses of the providers and the index of the current one are behind a lock
each. Every acquisition of a guard and every stretch of code up to a release is a
step. All calls ask for the statuses before the index, and `health_check_all`
asks for the statuses to write while it still has them to read: its first guard
is bound to a variable and lives to the end of the function. -/
namespace Axionvera.Node.HorizonLocks
open Axionvera.Lib.Guards Axionvera.Lib.Interleaving Axionvera.Lib.Transition
open Axionvera.Node.Horizon

variable {c c' : HorizonClient}

/-! ## Program points -/

inductive Lock where
  | providers
  | currentProviderIndex
  deriving DecidableEq

/-- Who waits for `get_current_provider`: a caller or a round of a request. -/
inductive Getter where
  | caller
  | round (attempts : Nat)

/-- Who waits for `switch_provider`: a caller, or a request that found no
provider or whose operation failed. -/
inductive Switcher where
  | caller
  | notFound (attempts : Nat)
  | failed (attempts : Nat)

inductive Answer where
  | provider (p : HorizonProvider)
  | done
  | failed (e : NetworkError)

/-- Where a call stands. -/
inductive Point where
  /-- In `get_current_provider`: asks for the statuses. -/
  | getting (k : Getter)
  /-- Has them and asks for the index. -/
  | gettingIndex (k : Getter)
  /-- Has both. -/
  | readingIndex (k : Getter)
  /-- Has given the index back. -/
  | choosing (k : Getter) (currentIndex : Nat)
  /-- In `switch_provider`: asks for the statuses. -/
  | switching (k : Switcher)
  /-- Has them and asks for the index, to write. -/
  | switchingIndex (k : Switcher)
  /-- Has both. -/
  | movingIndex (k : Switcher)
  /-- Runs the operation of a request. -/
  | operating (attempts : Nat) (provider : HorizonProvider)
  /-- Asks for the statuses, to record a success. -/
  | succeeding (provider : HorizonProvider)
  | writingSuccess (provider : HorizonProvider)
  /-- Asks for the statuses, to record a failure. -/
  | failing (attempts : Nat) (provider : HorizonProvider) (text : String)
  | writingFailure (attempts : Nat) (provider : HorizonProvider) (text : String)
  /-- In `health_check_all`: asks for the statuses. -/
  | checking
  /-- Has them and waits for the probes. -/
  | probing
  /-- Still has them and asks for them, to write. -/
  | updating (results : List (HorizonProvider × Bool))
  | writingChecks (results : List (HorizonProvider × Bool))
  | ended (answer : Answer)

/-- The guards that are alive at a point, and the one that is asked for. -/
def locking : Discipline Lock Point where
  holds
    | .gettingIndex _ => [⟨.providers, .read⟩]
    | .readingIndex _ => [⟨.providers, .read⟩, ⟨.currentProviderIndex, .read⟩]
    | .choosing _ _ => [⟨.providers, .read⟩]
    | .switchingIndex _ => [⟨.providers, .read⟩]
    | .movingIndex _ => [⟨.providers, .read⟩, ⟨.currentProviderIndex, .write⟩]
    | .writingSuccess _ => [⟨.providers, .write⟩]
    | .writingFailure _ _ _ => [⟨.providers, .write⟩]
    | .probing => [⟨.providers, .read⟩]
    | .updating _ => [⟨.providers, .read⟩]
    | .writingChecks _ => [⟨.providers, .read⟩, ⟨.providers, .write⟩]
    | _ => []
  wants
    | .getting _ => some ⟨.providers, .read⟩
    | .gettingIndex _ => some ⟨.currentProviderIndex, .read⟩
    | .switching _ => some ⟨.providers, .read⟩
    | .switchingIndex _ => some ⟨.currentProviderIndex, .write⟩
    | .succeeding _ => some ⟨.providers, .write⟩
    | .failing _ _ _ => some ⟨.providers, .write⟩
    | .checking => some ⟨.providers, .read⟩
    | .updating _ => some ⟨.providers, .write⟩
    | _ => none

/-- What a call finds around it: the clock, how its operation ends, and what the
probe of each provider says. A probe whose task failed says nothing. -/
structure Surroundings where
  now : Instant
  outcome : Except String Unit
  probe : HorizonProvider → Option Bool

/-- What `get_current_provider` returns to. -/
def Getter.resume (maxAttempts : Nat) : Getter → Except NetworkError HorizonProvider → Point
  | .caller, .ok p => .ended (.provider p)
  | .caller, .error e => .ended (.failed e)
  | .round attempts, .ok p => .operating attempts p
  | .round attempts, .error e =>
    if maxAttempts ≤ attempts then .ended (.failed e) else .switching (.notFound attempts)

/-- What `switch_provider` returns to. -/
def Switcher.resume : Switcher → Except NetworkError HorizonProvider → Point
  | .caller, .ok p => .ended (.provider p)
  | .caller, .error e => .ended (.failed e)
  | .notFound attempts, .ok _ => .getting (.round (attempts + 1))
  | .notFound _, .error e => .ended (.failed e)
  | .failed attempts, .ok _ => .getting (.round (attempts + 1))
  | .failed _, .error (.horizonClient why) => .ended (.failed (.horizonClient
      s!"Failed to switch provider: Horizon client error: {why}"))

/-- What a recorded failure leads to. -/
def afterFailure (maxAttempts attempts : Nat) (text : String) (shouldSwitch : Bool) : Point :=
  if shouldSwitch = true ∧ attempts < maxAttempts then .switching (.failed attempts)
  else .ended (.failed (.horizonClient s!"All Horizon providers failed: {text}"))

/-- The next step of a call whose request, if it has one, is granted. -/
def step (r : Surroundings) (x : Point) (c : HorizonClient) : Point × HorizonClient :=
  match x with
  | .getting k => (.gettingIndex k, c)
  | .gettingIndex k => (.readingIndex k, c)
  | .readingIndex k => (.choosing k c.currentProviderIndex, c)
  | .choosing k currentIndex =>
    (k.resume c.config.providers.length (choose c.providers currentIndex), c)
  | .switching k => (.switchingIndex k, c)
  | .switchingIndex k => (.movingIndex k, c)
  | .movingIndex k => (k.resume c.switchProvider.1, c.switchProvider.2)
  | .operating attempts provider =>
    match r.outcome with
    | .ok _ => (.succeeding provider, c)
    | .error text => (.failing attempts provider text, c)
  | .succeeding provider => (.writingSuccess provider, c)
  | .writingSuccess provider => (.ended .done, c.recordProviderSuccess provider r.now)
  | .failing attempts provider text => (.writingFailure attempts provider text, c)
  | .writingFailure attempts provider text =>
    (afterFailure c.config.providers.length attempts text (c.recordProviderFailure provider r.now).1,
      (c.recordProviderFailure provider r.now).2)
  | .checking => (.probing, c)
  | .probing =>
    (.updating (c.providers.filterMap fun st => (r.probe st.provider).map (st.provider, ·)), c)
  | .updating results => (.writingChecks results, c)
  | .writingChecks results =>
    (.ended .done, results.foldl (fun c x => c.recordHealthCheck x.1 x.2 r.now) c)
  | .ended answer => (.ended answer, c)

/-! ## The system -/

inductive Call where
  | getCurrentProvider
  | switchProvider
  | executeRequest
  | healthCheckAll
  deriving DecidableEq

def entry : Call → Point
  | .getCurrentProvider => .getting .caller
  | .switchProvider => .switching .caller
  | .executeRequest => .getting (.round 1)
  | .healthCheckAll => .checking

abbrev Locked : Type := System Point HorizonClient

/-- The call at a place takes its next step. -/
structure Move where
  place : Nat
  around : Surroundings

variable {s s' : Locked} {m : Move} {moves : List Move} {x : Point} {r : Surroundings} {i : Nat}

def after (s : Locked) (m : Move) : Option Locked :=
  (s.tasks[m.place]?).bind fun x =>
    if Granted locking s.tasks x then some (s.put m.place (step m.around x s.shared)) else none

def Step (s : Locked) (m : Move) (s' : Locked) : Prop := after s m = some s'

/-- A client and calls that are about to begin. -/
def begun (c : HorizonClient) (calls : List Call) : Locked := ⟨c, calls.map entry⟩

theorem Step.cases (h : Step s m s') : ∃ x, s.tasks[m.place]? = some x ∧
    Granted locking s.tasks x ∧ s' = s.put m.place (step m.around x s.shared) := by
  obtain ⟨x, hx, hs⟩ := Option.bind_eq_some_iff.mp h
  split at hs
  case isTrue hgranted => exact ⟨x, hx, hgranted, (Option.some.inj hs).symm⟩
  case isFalse => cases hs

theorem step_of_granted (hx : s.tasks[i]? = some x) (hgranted : Granted locking s.tasks x) :
    Step s ⟨i, r⟩ (s.put i (step r x s.shared)) := by
  unfold Step after
  rw [hx]
  exact if_pos hgranted

/-! ## What a step does to the guards -/

theorem holds_resume_getter (k : Getter) (n : Nat) (a : Except NetworkError HorizonProvider) :
    locking.holds (k.resume n a) = [] := by
  unfold Getter.resume
  split
  · rfl
  · rfl
  · rfl
  · split
    · rfl
    · rfl

theorem holds_resume_switcher (k : Switcher) (a : Except NetworkError HorizonProvider) :
    locking.holds (k.resume a) = [] := by
  unfold Switcher.resume
  split <;> rfl

theorem holds_afterFailure (n attempts : Nat) (text : String) (b : Bool) :
    locking.holds (afterFailure n attempts text b) = [] := by
  unfold afterFailure
  split
  · rfl
  · rfl

/-- A step takes the guard that was asked for and no other. -/
theorem holds_step (r : Surroundings) (x : Point) (c : HorizonClient) :
    ∀ g ∈ locking.holds (step r x c).1, g ∈ locking.holds x ∨ g ∈ locking.wants x := by
  intro g hg
  cases x with
  | choosing k index =>
    rw [step, holds_resume_getter] at hg
    cases hg
  | movingIndex k =>
    rw [step, holds_resume_switcher] at hg
    cases hg
  | operating attempts provider =>
    dsimp only [step] at hg
    split at hg
    · cases hg
    · cases hg
  | writingFailure attempts provider text =>
    rw [step, holds_afterFailure] at hg
    cases hg
  | _ =>
    simp only [step, locking, List.mem_cons, List.not_mem_nil, or_false, Option.mem_def,
      Option.some.injEq, reduceCtorEq] at hg ⊢ <;>
    grind

/-! ## Calls without a health check -/

/-- The points of `health_check_all`. -/
def inHealthCheck : Point → Bool
  | .checking => true
  | .probing => true
  | .updating _ => true
  | .writingChecks _ => true
  | _ => false

/-- The statuses come before the index. -/
def rank : Lock → Nat
  | .providers => 0
  | .currentProviderIndex => 1

theorem ascends_of_not_check (h : inHealthCheck x = false) : Ascends locking rank x := by
  intro g hg k hk
  cases x with
  | gettingIndex =>
    cases hg
    cases List.mem_singleton.mp hk
    exact Nat.zero_lt_one
  | switchingIndex =>
    cases hg
    cases List.mem_singleton.mp hk
    exact Nat.zero_lt_one
  | updating => cases h
  | _ =>
    first
      | cases hg; done
      | cases hk

theorem not_check_resume_getter (k : Getter) (n : Nat) (a : Except NetworkError HorizonProvider) :
    inHealthCheck (k.resume n a) = false := by
  unfold Getter.resume
  split
  · rfl
  · rfl
  · rfl
  · split
    · rfl
    · rfl

theorem not_check_step (h : inHealthCheck x = false) (r : Surroundings) (c : HorizonClient) :
    inHealthCheck (step r x c).1 = false := by
  cases x with
  | choosing k index => exact not_check_resume_getter k _ _
  | movingIndex k =>
    dsimp only [step, Switcher.resume]
    split <;> rfl
  | operating attempts provider =>
    dsimp only [step]
    split
    · rfl
    · rfl
  | writingFailure attempts provider text =>
    dsimp only [step, afterFailure]
    split
    · rfl
    · rfl
  | checking => cases h
  | probing => cases h
  | updating => cases h
  | writingChecks => cases h
  | _ => rfl

theorem Step.not_check (h : Step s m s') (hs : ∀ x ∈ s.tasks, inHealthCheck x = false) :
    ∀ x ∈ s'.tasks, inHealthCheck x = false := by
  obtain ⟨y, hy, _, rfl⟩ := h.cases
  intro x hx
  rcases mem_or_eq_of_mem_put hx with hx | rfl
  · exact hs x hx
  · exact not_check_step (hs y (List.mem_of_getElem? hy)) _ _

/-! ## One call alone

A request that nobody interrupts does what the sequential loop does. -/

theorem step_alone (h : inHealthCheck x = false) (r : Surroundings) (c : HorizonClient) :
    Step ⟨c, [x]⟩ ⟨0, r⟩ ⟨(step r x c).2, [(step r x c).1]⟩ := by
  refine step_of_granted (s := ⟨c, [x]⟩) rfl ?_
  intro g hg y hy k hk hconflict
  cases List.mem_singleton.mp hy
  have hlt := ascends_of_not_check h g hg k hk
  rw [hconflict.1] at hlt
  exact Nat.lt_irrefl _ hlt

/-- What a call finds when nothing is read from its surroundings. -/
def calm : Surroundings := ⟨0, .ok (), fun _ => none⟩

theorem get_alone (k : Getter) (c : HorizonClient) : ∃ moves, Run Step ⟨c, [.getting k]⟩ moves
    ⟨c, [k.resume c.config.providers.length c.getCurrentProvider]⟩ := by
  have h1 := step_alone (x := .getting k) rfl calm c
  have h2 := step_alone (x := .gettingIndex k) rfl calm c
  have h3 := step_alone (x := .readingIndex k) rfl calm c
  have h4 := step_alone (x := .choosing k c.currentProviderIndex) rfl calm c
  exact ⟨_, .snoc (.snoc (.snoc (.snoc .nil h1) h2) h3) h4⟩

theorem switch_alone (k : Switcher) (c : HorizonClient) : ∃ moves, Run Step ⟨c, [.switching k]⟩ moves
    ⟨c.switchProvider.2, [k.resume c.switchProvider.1]⟩ := by
  have h1 := step_alone (x := .switching k) rfl calm c
  have h2 := step_alone (x := .switchingIndex k) rfl calm c
  have h3 := step_alone (x := .movingIndex k) rfl calm c
  exact ⟨_, .snoc (.snoc (.snoc .nil h1) h2) h3⟩

theorem success_alone (attempts : Nat) (provider : HorizonProvider) (now : Instant)
    (c : HorizonClient) : ∃ moves, Run Step ⟨c, [.operating attempts provider]⟩ moves
      ⟨c.recordProviderSuccess provider now, [.ended .done]⟩ := by
  have h1 := step_alone (x := .operating attempts provider) rfl calm c
  have h2 := step_alone (x := .succeeding provider) rfl calm c
  have h3 := step_alone (x := .writingSuccess provider) rfl { calm with now := now } c
  exact ⟨_, .snoc (.snoc (.snoc .nil h1) h2) h3⟩

theorem failure_alone (attempts : Nat) (provider : HorizonProvider) (text : String) (now : Instant)
    (c : HorizonClient) : ∃ moves, Run Step ⟨c, [.operating attempts provider]⟩ moves
      ⟨(c.recordProviderFailure provider now).2, [afterFailure c.config.providers.length attempts text
        (c.recordProviderFailure provider now).1]⟩ := by
  have h1 := step_alone (x := .operating attempts provider) rfl { calm with outcome := .error text } c
  have h2 := step_alone (x := .failing attempts provider text) rfl calm c
  have h3 := step_alone (x := .writingFailure attempts provider text) rfl { calm with now := now } c
  exact ⟨_, .snoc (.snoc (.snoc .nil h1) h2) h3⟩

def answerOf : Except NetworkError Unit → Answer
  | .ok _ => .done
  | .error e => .failed e

/-- A round that finds no provider, and is not the last one, switches. -/
theorem notFound_alone (attempts : Nat) {e : NetworkError} (hget : c.getCurrentProvider = .error e)
    (hmore : attempts < c.config.providers.length) :
    ∃ moves, Run Step ⟨c, [.getting (.round attempts)]⟩ moves
      ⟨c.switchProvider.2, [(Switcher.notFound attempts).resume c.switchProvider.1]⟩ := by
  obtain ⟨got, hgot⟩ := get_alone (.round attempts) c
  rw [hget, Getter.resume, if_neg (not_le.mpr hmore)] at hgot
  obtain ⟨switched, hswitched⟩ := switch_alone (.notFound attempts) c
  exact ⟨_, hgot.trans hswitched⟩

/-- A round whose failure is one too many, and that is not the last one, switches. -/
theorem failed_alone (attempts : Nat) {provider : HorizonProvider} {now : Instant}
    (hget : c.getCurrentProvider = .ok provider)
    (hfail : c.recordProviderFailure provider now = (true, c'))
    (hmore : attempts < c.config.providers.length) (text : String) :
    ∃ moves, Run Step ⟨c, [.getting (.round attempts)]⟩ moves
      ⟨c'.switchProvider.2, [(Switcher.failed attempts).resume c'.switchProvider.1]⟩ := by
  obtain ⟨got, hgot⟩ := get_alone (.round attempts) c
  rw [hget, Getter.resume] at hgot
  obtain ⟨failed, hfailed⟩ := failure_alone attempts provider text now c
  rw [hfail, afterFailure, if_pos ⟨rfl, hmore⟩] at hfailed
  obtain ⟨switched, hswitched⟩ := switch_alone (.failed attempts) c'
  exact ⟨_, (hgot.trans hfailed).trans hswitched⟩

/-- The rounds of a request from the given one on. -/
theorem rounds_alone (operation : Nat → HorizonProvider → Response Unit) (remaining attempts : Nat)
    (c : HorizonClient) (h : remaining = c.config.providers.length - attempts) :
    ∃ moves, Run Step ⟨c, [.getting (.round attempts)]⟩ moves
      ⟨(executeFrom operation remaining c).client,
        [.ended (answerOf (executeFrom operation remaining c).result)]⟩ := by
  fun_induction executeFrom operation remaining c generalizing attempts with
  | case1 c e hget =>
    have hlast : c.config.providers.length ≤ attempts := by omega
    obtain ⟨got, hgot⟩ := get_alone (.round attempts) c
    rw [hget, Getter.resume, if_pos hlast] at hgot
    exact ⟨_, hgot⟩
  | case2 c e hget rest e' c' hswitch =>
    obtain ⟨switched, hswitched⟩ := notFound_alone attempts hget (by omega)
    rw [hswitch] at hswitched
    exact ⟨_, hswitched⟩
  | case3 c e hget rest p c' hswitch ih =>
    have hconfig := switchProvider_config c
    obtain ⟨switched, hswitched⟩ := notFound_alone attempts hget (by omega)
    rw [hswitch] at hswitched hconfig
    obtain ⟨later, hlater⟩ := ih (attempts + 1) (by rw [hconfig]; omega)
    exact ⟨_, hswitched.trans hlater⟩
  | case4 remaining c provider hget response value hvalue =>
    obtain ⟨got, hgot⟩ := get_alone (.round attempts) c
    rw [hget, Getter.resume] at hgot
    obtain ⟨served, hserved⟩ := success_alone attempts provider response.recordedAt c
    exact ⟨_, hgot.trans hserved⟩
  | case5 c provider hget text c₁ rest why c₂ hswitch response hresult hfail =>
    obtain ⟨switched, hswitched⟩ := failed_alone attempts hget hfail (by omega) text
    rw [hswitch] at hswitched
    exact ⟨_, hswitched⟩
  | case6 c provider hget text c₁ rest p c₂ hswitch later response hresult hfail ih =>
    have hconfig := switchProvider_config c₁
    have hkept : c₁.config = c.config := congrArg (fun x => x.2.config) hfail.symm
    obtain ⟨switched, hswitched⟩ := failed_alone attempts hget hfail (by omega) text
    rw [hswitch] at hswitched hconfig
    obtain ⟨rounds, hrounds⟩ := ih (attempts + 1) (by rw [hconfig, hkept]; omega)
    exact ⟨_, hswitched.trans hrounds⟩
  | case7 remaining c provider hget response text hresult shouldSwitch c₁ hfail hstop =>
    obtain ⟨got, hgot⟩ := get_alone (.round attempts) c
    rw [hget, Getter.resume] at hgot
    obtain ⟨failed, hfailed⟩ := failure_alone attempts provider text response.recordedAt c
    have hends : ¬ (shouldSwitch = true ∧ attempts < c.config.providers.length) := by
      intro hgoes
      exact hstop (remaining - 1) (by omega) hgoes.1
    rw [hfail, afterFailure, if_neg hends] at hfailed
    exact ⟨_, hgot.trans hfailed⟩

/-- **A request that runs alone** ends as the sequential function says and leaves
the client that it leaves. -/
theorem executeRequest_alone (c : HorizonClient) (operation : Nat → HorizonProvider → Response Unit) :
    ∃ moves, Run Step (begun c [.executeRequest]) moves ⟨(c.executeRequest operation).client,
      [.ended (answerOf (c.executeRequest operation).result)]⟩ :=
  rounds_alone operation _ 1 c rfl

/-! ## A health check -/

theorem waitsForItself_updating (results : List (HorizonProvider × Bool)) :
    WaitsForItself locking (.updating results) :=
  ⟨_, rfl, _, List.mem_singleton.mpr rfl, rfl⟩

/-- With all calls about to begin, a health check gets to where it waits for
itself. -/
theorem health_check_waits {calls : List Call} (h : .healthCheckAll ∈ calls) (c : HorizonClient)
    (r : Surroundings) : ∃ moves s, Run Step (begun c calls) moves s ∧
      ∃ x ∈ s.tasks, WaitsForItself locking x := by
  obtain ⟨i, hi⟩ := List.getElem?_of_mem h
  have hstart : (begun c calls).tasks[i]? = some .checking := by
    simp [begun, hi, entry]
  have hidle : ∀ x ∈ (begun c calls).tasks, locking.holds x = [] := by
    intro x hx
    obtain ⟨call, _, rfl⟩ := List.mem_map.mp hx
    cases call <;> rfl
  have hgranted : Granted locking (begun c calls).tasks .checking := by
    intro g _ y hy k hk
    rw [hidle y hy] at hk
    cases hk
  have hfirst := step_of_granted (r := r) hstart hgranted
  have hprobing := @get_put_self _ _ (begun c calls) i _ (step r .checking c) hstart
  have hsecond := step_of_granted (r := r) hprobing (fun g hg => by cases hg)
  refine ⟨_, _, .snoc (.snoc .nil hfirst) hsecond, ?_⟩
  exact ⟨_, List.mem_of_getElem? (get_put_self hprobing), waitsForItself_updating _⟩

/-- No call waits for a lock that it has, and none wait for each other's locks in
a circle. -/
def Unblocked (s : Locked) : Prop :=
  (∀ x ∈ s.tasks, ¬ WaitsForItself locking x) ∧
    ∀ i, ¬ Relation.TransGen (WaitsOn locking s.tasks) i i

/-- **Which calls can run together.** Whatever the probes and operations say, no
run of the calls blocks itself exactly if none of the calls is a health check. -/
theorem unblocked_iff_no_health_check (c : HorizonClient) (calls : List Call) :
    (∀ moves s, Run Step (begun c calls) moves s → Unblocked s) ↔ .healthCheckAll ∉ calls := by
  refine ⟨?_, ?_⟩
  · intro h hcheck
    obtain ⟨moves, s, hrun, x, hx, hself⟩ :=
      health_check_waits hcheck c ⟨0, .ok (), fun _ => some true⟩
    exact (h moves s hrun).1 x hx hself
  · intro hnone moves s hrun
    have hplain : ∀ x ∈ s.tasks, inHealthCheck x = false := by
      refine hrun.invariant (I := fun s => ∀ x ∈ s.tasks, inHealthCheck x = false) ?_ ?_
      · intro x hx
        obtain ⟨call, hcall, rfl⟩ := List.mem_map.mp hx
        cases call with
        | healthCheckAll => exact absurd hcall hnone
        | _ => rfl
      · intro s m s' hs hstep
        exact hstep.not_check hs
    have hascends : ∀ x ∈ s.tasks, Ascends locking rank x :=
      fun x hx => ascends_of_not_check (hplain x hx)
    exact ⟨fun x hx => (hascends x hx).not_waitsForItself, not_waits_in_circle hascends⟩

/-- A health check alone is enough. -/
theorem health_check_waits_for_itself : ∃ moves s,
    Run Step (begun (.new ⟨[⟨"https://horizon.stellar.org", "Stellar Public", 1⟩], 3, 300⟩)
      [.healthCheckAll]) moves s ∧ ∃ x ∈ s.tasks, WaitsForItself locking x :=
  health_check_waits (List.mem_singleton.mpr rfl) _ ⟨0, .ok (), fun _ => some true⟩

/-! ## After a health check -/

/-- The statuses change under a write guard only. -/
theorem providers_step (r : Surroundings) (c : HorizonClient)
    (h : ⟨.providers, .write⟩ ∉ locking.holds x) : (step r x c).2.providers = c.providers := by
  cases x with
  | movingIndex k => exact switchProvider_providers c
  | operating attempts provider =>
    dsimp only [step]
    split
    · rfl
    · rfl
  | writingSuccess provider => exact False.elim (h List.mem_cons_self)
  | writingFailure attempts provider text => exact False.elim (h List.mem_cons_self)
  | writingChecks results => exact False.elim (h (List.mem_cons_of_mem _ List.mem_cons_self))
  | _ => rfl

theorem exclusive_begun (c : HorizonClient) (calls : List Call) :
    Exclusive locking (begun c calls).tasks := by
  refine exclusive_of_free fun x hx => ?_
  obtain ⟨call, _, rfl⟩ := List.mem_map.mp hx
  cases call <;> rfl

/-- A step with regard to the guards and the statuses. -/
theorem Step.guarded (h : Step s m s') :
    Moves locking ⟨.providers, .write⟩ HorizonClient.providers s s' := by
  obtain ⟨x, hx, hgranted, rfl⟩ := h.cases
  exact .put hx hgranted (holds_step _ _ _) (providers_step _ _)

/-- **A health check that has its results ends the bookkeeping.** It stays where
it is, and no success, failure or health is recorded any more. -/
theorem statuses_frozen_by_health_check {calls : List Call} {later : List Move}
    {results : List (HorizonProvider × Bool)} (hrun : Run Step (begun c calls) moves s)
    (hcheck : s.tasks[i]? = some (.updating results)) (hlater : Run Step s later s') :
    s'.tasks[i]? = some (.updating results) ∧ s'.shared.providers = s.shared.providers := by
  have hex : Exclusive locking s.tasks :=
    hrun.invariant (I := fun s => Exclusive locking s.tasks) (exclusive_begun c calls)
      fun _ _ _ hu hstep => hstep.guarded.exclusive hu
  have hstuck : Stuck locking (.updating results) :=
    ⟨_, rfl, _, List.mem_singleton.mpr rfl, rfl, Or.inl rfl⟩
  have hfrozen : Frozen locking HorizonClient.providers i (.updating results)
      s.shared.providers s' :=
    hlater.invariant ⟨hex, hcheck, rfl⟩ fun _ _ _ hu hstep =>
      hu.step (k := ⟨.providers, .write⟩) hstuck (List.mem_singleton.mpr rfl) ⟨rfl, Or.inr rfl⟩
        hstep.guarded
  exact ⟨hfrozen.stays, hfrozen.kept⟩

end Axionvera.Node.HorizonLocks

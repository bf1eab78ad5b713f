import Axionvera.Node.ConnectionTracker

/-! # Graceful shutdown

`NetworkNode::shutdown` of `lib.rs` against the requests of `enhanced_server.rs`.
A request goes through the middleware from the outside in: it is counted, the
rate limiter is asked, and only then is `is_accepting` read; what is refused on
the way is counted until its answer is out. The shutdown clears `is_accepting`,
polls the count and the database at most sixty and thirty times, unless the
grace period cuts both short, and closes the pool.

To close the pool it needs the write guard of the pool's lock, of which handlers
hold read guards while they ask the database, and so do calls of the gRPC
services, which are neither counted nor turned away. The lock is fair: while the
shutdown waits nobody gets a read guard. Under the write guard it waits for
`PgPool::close`.

Requests that arrive meanwhile are still counted, so the poll may see them; but
they are turned away before a handler runs. So the pool is closed under no
request's feet if the poll has seen no request at all (`quiet_close`). A request
whose future is dropped is never taken off the count, and then no poll sees that
(`leak_never_quiet`). -/
namespace Axionvera.Node.Shutdown
open Axionvera.Lib.Interleaving Axionvera.Lib.Transition

/-! ## Requests -/

/-- What the rate limiter says to a request. -/
inductive Verdict where
  | allowed
  | limited
  | failed

inductive Answer where
  | served
  | tooManyRequests
  | internalServerError
  | serviceUnavailable
  deriving DecidableEq

/-- Where a request is in the middleware. -/
inductive Point where
  /-- Before `connection_tracker_middleware` counts it. -/
  | arriving
  /-- Before the answer of the rate limiter. -/
  | counted
  /-- Before `connection_limiter_middleware` reads `is_accepting`. -/
  | admitted
  /-- In its handler, with a read guard of the pool or without. -/
  | handling (guarded : Bool)
  /-- Before it is taken off the count. -/
  | leaving (answer : Answer)
  | ended
  deriving DecidableEq

/-- How the wait of the shutdown came to its end: after so many polls of the
connections and of the database, or by the grace period. -/
inductive Ending where
  | completed (polls databasePolls : Nat)
  | expired
  deriving DecidableEq

/-- Where `shutdown` is. -/
inductive Stage where
  | running
  /-- Before `stop_accepting_new_connections`. -/
  | stopping
  /-- In `wait_for_connections_to_complete`. -/
  | waiting (attempts : Nat)
  /-- In `wait_for_database_operations`. -/
  | idling (polls attempts : Nat)
  /-- Before `close_database_connections`. -/
  | closing (ending : Ending)
  /-- Waiting for the write guard of the pool. -/
  | locking (ending : Ending)
  /-- Has it and waits for `PgPool::close`. -/
  | draining (ending : Ending)
  /-- Before `EnhancedHttpServer::stop`. -/
  | signalling (ending : Ending)
  | finished (ending : Ending)
  deriving DecidableEq

/-- What requests and shutdown share. -/
structure Shared where
  accepting : Bool
  active : Nat
  stage : Stage
  /-- The read guards of the pool that gRPC calls hold. -/
  remote : Nat
  deriving DecidableEq

abbrev Server : Type := System Point Shared

def new : Server := ⟨⟨true, 0, .running, 0⟩, []⟩

/-- The next step of a request. -/
def advance (verdict : Verdict) (x : Point) (n : Shared) : Point × Shared :=
  match x with
  | .arriving => (.counted, { n with active := n.active + 1 })
  | .counted =>
    match verdict with
    | .allowed => (.admitted, n)
    | .limited => (.leaving .tooManyRequests, n)
    | .failed => (.leaving .internalServerError, n)
  | .admitted => if n.accepting then (.handling false, n) else (.leaving .serviceUnavailable, n)
  | .handling true => (.handling false, n)
  | .handling false => (.leaving .served, n)
  | .leaving _ => (.ended, { n with active := n.active - 1 })
  | .ended => (.ended, n)

/-! ## The guards of the pool -/

def isReader : Point → Bool
  | .handling true => true
  | _ => false

/-- The read guards that are out. -/
def readers (s : Server) : Nat := s.count isReader + s.shared.remote

/-- A read guard can be had: the shutdown does not hold the write guard and does
not wait for it. -/
def readable : Stage → Bool
  | .locking _ => false
  | .draining _ => false
  | _ => true

/-! ## The shutdown -/

def maxAttempts : Nat := 60

def maxDatabaseAttempts : Nat := 30

/-- The next step of `shutdown`; `database` is what the pool reports when it is
asked, and `readers` the number of read guards that are out. -/
def shut (database readers : Nat) (n : Shared) : Option Shared :=
  match n.stage with
  | .running => none
  | .stopping => some { n with accepting := false, stage := .waiting 0 }
  | .waiting attempts =>
    if attempts < maxAttempts then
      if n.active = 0 then some { n with stage := .idling attempts 0 }
      else some { n with stage := .waiting (attempts + 1) }
    else some { n with stage := .idling attempts 0 }
  | .idling polls attempts =>
    if attempts < maxDatabaseAttempts then
      if database = 0 then some { n with stage := .closing (.completed polls attempts) }
      else some { n with stage := .idling polls (attempts + 1) }
    else some { n with stage := .closing (.completed polls attempts) }
  | .closing ending => some { n with stage := .locking ending }
  | .locking ending => if readers = 0 then some { n with stage := .draining ending } else none
  | .draining _ => none
  | .signalling ending => some { n with stage := .finished ending }
  | .finished _ => none

/-- The grace period is over. -/
def expire (n : Shared) : Option Shared :=
  match n.stage with
  | .waiting _ => some { n with stage := .closing .expired }
  | .idling _ _ => some { n with stage := .closing .expired }
  | _ => none

inductive Move where
  | arrive
  | advance (place : Nat) (verdict : Verdict)
  /-- The future of a request is dropped, and its guard with it. -/
  | drop (place : Nat)
  /-- A handler takes a read guard of the pool. -/
  | read (place : Nat)
  | remoteRead
  | remoteRelease
  /-- The shutdown token is cancelled. -/
  | signal
  | shut (database : Nat)
  /-- `PgPool::close` returns. -/
  | closed
  | expire

def after (s : Server) : Move → Option Server
  | .arrive => some (s.start .arriving)
  | .advance i verdict => (s.tasks[i]?).map fun x => s.put i (advance verdict x s.shared)
  | .drop i => (s.tasks[i]?).map fun _ => s.put i (.ended, s.shared)
  | .read i => (s.tasks[i]?).bind fun x =>
    if x = .handling false ∧ readable s.shared.stage = true then
      some (s.put i (.handling true, s.shared))
    else none
  | .remoteRead =>
    if readable s.shared.stage = true then
      some { s with shared := { s.shared with remote := s.shared.remote + 1 } }
    else none
  | .remoteRelease =>
    if 0 < s.shared.remote then
      some { s with shared := { s.shared with remote := s.shared.remote - 1 } }
    else none
  | .signal =>
    if s.shared.stage = .running then some { s with shared := { s.shared with stage := .stopping } }
    else none
  | .shut database => (shut database (readers s) s.shared).map fun n => { s with shared := n }
  | .closed =>
    match s.shared.stage with
    | .draining ending => some { s with shared := { s.shared with stage := .signalling ending } }
    | _ => none
  | .expire => (expire s.shared).map fun n => { s with shared := n }

def Step (s : Server) (m : Move) (s' : Server) : Prop := after s m = some s'

variable {s s' : Server} {m : Move} {h later : List Move} {n n' : Shared} {database r : Nat}

/-- What a step of the shutdown can be, with so many read guards out. -/
inductive Shuts (r : Nat) (n : Shared) : Shared → Prop
  | stop (stage : n.stage = .stopping) :
      Shuts r n { n with accepting := false, stage := .waiting 0 }
  | drained {attempts : Nat} (stage : n.stage = .waiting attempts) (room : attempts < maxAttempts)
      (zero : n.active = 0) : Shuts r n { n with stage := .idling attempts 0 }
  | poll {attempts : Nat} (stage : n.stage = .waiting attempts) (room : attempts < maxAttempts)
      (busy : n.active ≠ 0) : Shuts r n { n with stage := .waiting (attempts + 1) }
  | giveUp {attempts : Nat} (stage : n.stage = .waiting attempts) (full : maxAttempts ≤ attempts) :
      Shuts r n { n with stage := .idling attempts 0 }
  | ask {polls attempts : Nat} (stage : n.stage = .idling polls attempts)
      (room : attempts < maxDatabaseAttempts) :
      Shuts r n { n with stage := .idling polls (attempts + 1) }
  | close {polls attempts : Nat} (stage : n.stage = .idling polls attempts) :
      Shuts r n { n with stage := .closing (.completed polls attempts) }
  | lock {ending : Ending} (stage : n.stage = .closing ending) :
      Shuts r n { n with stage := .locking ending }
  | locked {ending : Ending} (stage : n.stage = .locking ending) (free : r = 0) :
      Shuts r n { n with stage := .draining ending }
  | closed {ending : Ending} (stage : n.stage = .draining ending) :
      Shuts r n { n with stage := .signalling ending }
  | signalled {ending : Ending} (stage : n.stage = .signalling ending) :
      Shuts r n { n with stage := .finished ending }

theorem shuts_of_shut (h : shut database r n = some n') : Shuts r n n' := by
  unfold shut at h
  split at h
  · cases h
  · rename_i hstage
    cases h
    exact .stop hstage
  · rename_i attempts hstage
    split at h
    · rename_i hroom
      split at h
      · rename_i hzero
        cases h
        exact .drained hstage hroom hzero
      · rename_i hbusy
        cases h
        exact .poll hstage hroom hbusy
    · rename_i hfull
      cases h
      exact .giveUp hstage (Nat.le_of_not_lt hfull)
  · rename_i polls attempts hstage
    split at h
    · rename_i hroom
      split at h
      · cases h
        exact .close hstage
      · cases h
        exact .ask hstage hroom
    · cases h
      exact .close hstage
  · rename_i ending hstage
    cases h
    exact .lock hstage
  · rename_i ending hstage
    split at h
    · rename_i hfree
      cases h
      exact .locked hstage hfree
    · cases h
  · cases h
  · rename_i ending hstage
    cases h
    exact .signalled hstage
  · cases h

theorem expire_cases (h : expire n = some n') : n' = { n with stage := .closing .expired } ∧
    ((∃ attempts, n.stage = .waiting attempts) ∨
      ∃ polls attempts, n.stage = .idling polls attempts) := by
  unfold expire at h
  split at h
  · rename_i attempts hstage
    cases h
    exact ⟨rfl, Or.inl ⟨attempts, hstage⟩⟩
  · rename_i polls attempts hstage
    cases h
    exact ⟨rfl, Or.inr ⟨polls, attempts, hstage⟩⟩
  · cases h

/-- The moves that are steps of the shutdown. -/
def isShut : Move → Bool
  | .shut _ => true
  | .closed => true
  | _ => false

/-- What a step of the server can be. -/
inductive Steps (s : Server) : Move → Server → Prop
  | arrive : Steps s .arrive (s.start .arriving)
  | advance {i : Nat} {x : Point} {verdict : Verdict} (found : s.tasks[i]? = some x) :
      Steps s (.advance i verdict) (s.put i (advance verdict x s.shared))
  | drop {i : Nat} {x : Point} (found : s.tasks[i]? = some x) :
      Steps s (.drop i) (s.put i (.ended, s.shared))
  | read {i : Nat} (found : s.tasks[i]? = some (.handling false))
      (free : readable s.shared.stage = true) :
      Steps s (.read i) (s.put i (.handling true, s.shared))
  | remoteRead (free : readable s.shared.stage = true) :
      Steps s .remoteRead { s with shared := { s.shared with remote := s.shared.remote + 1 } }
  | remoteRelease (out : 0 < s.shared.remote) :
      Steps s .remoteRelease { s with shared := { s.shared with remote := s.shared.remote - 1 } }
  | signal (stage : s.shared.stage = .running) :
      Steps s .signal { s with shared := { s.shared with stage := .stopping } }
  | shut {m : Move} {n : Shared} (own : isShut m = true) (shuts : Shuts (readers s) s.shared n) :
      Steps s m { s with shared := n }
  | expire (stage : (∃ attempts, s.shared.stage = .waiting attempts) ∨
        ∃ polls attempts, s.shared.stage = .idling polls attempts) :
      Steps s .expire { s with shared := { s.shared with stage := .closing .expired } }

theorem Step.steps (h : Step s m s') : Steps s m s' := by
  cases m with
  | arrive =>
    obtain rfl := Option.some.inj h
    exact .arrive
  | advance i verdict =>
    obtain ⟨x, hx, rfl⟩ := Option.map_eq_some_iff.mp h
    exact .advance hx
  | drop i =>
    obtain ⟨x, hx, rfl⟩ := Option.map_eq_some_iff.mp h
    exact .drop hx
  | read i =>
    obtain ⟨x, hx, h⟩ := Option.bind_eq_some_iff.mp h
    split at h
    · rename_i hfree
      obtain rfl := Option.some.inj h
      exact .read (hfree.1 ▸ hx) hfree.2
    · cases h
  | remoteRead =>
    simp only [Step, after] at h
    split at h
    · rename_i hfree
      obtain rfl := Option.some.inj h
      exact .remoteRead hfree
    · cases h
  | remoteRelease =>
    simp only [Step, after] at h
    split at h
    · rename_i hout
      obtain rfl := Option.some.inj h
      exact .remoteRelease hout
    · cases h
  | signal =>
    simp only [Step, after] at h
    split at h
    · rename_i hstage
      obtain rfl := Option.some.inj h
      exact .signal hstage
    · cases h
  | shut database =>
    obtain ⟨n, hn, rfl⟩ := Option.map_eq_some_iff.mp h
    exact .shut rfl (shuts_of_shut hn)
  | closed =>
    simp only [Step, after] at h
    split at h
    · rename_i ending hstage
      obtain rfl := Option.some.inj h
      exact .shut rfl (.closed hstage)
    · cases h
  | expire =>
    obtain ⟨n, hn, rfl⟩ := Option.map_eq_some_iff.mp h
    obtain ⟨rfl, hstage⟩ := expire_cases hn
    exact .expire hstage

theorem advance_stage (verdict : Verdict) (x : Point) (n : Shared) :
    (advance verdict x n).2.stage = n.stage ∧ (advance verdict x n).2.accepting = n.accepting ∧
      (advance verdict x n).2.remote = n.remote := by
  unfold advance
  cases x with
  | counted => cases verdict <;> exact ⟨rfl, rfl, rfl⟩
  | admitted =>
    simp only
    split <;> exact ⟨rfl, rfl, rfl⟩
  | handling guarded => cases guarded <;> exact ⟨rfl, rfl, rfl⟩
  | _ => exact ⟨rfl, rfl, rfl⟩

/-- A request that moves on does not come to hold a guard. -/
theorem isReader_advance (verdict : Verdict) (x : Point) (n : Shared) :
    isReader (advance verdict x n).1 = false := by
  unfold advance
  cases x with
  | counted => cases verdict <;> rfl
  | admitted =>
    simp only
    split <;> rfl
  | handling guarded => cases guarded <;> rfl
  | _ => rfl

/-! ## The shutdown comes to an end -/

/-- The steps of its own that a shutdown has still to make, at most. -/
def remaining : Stage → Nat
  | .running => 97
  | .stopping => 97
  | .waiting attempts => 36 + (maxAttempts - attempts)
  | .idling _ attempts => 5 + (maxDatabaseAttempts - attempts)
  | .closing _ => 4
  | .locking _ => 3
  | .draining _ => 2
  | .signalling _ => 1
  | .finished _ => 0

theorem Shuts.remaining_lt (h : Shuts r n n') : remaining n'.stage < remaining n.stage := by
  cases h with
  | stop stage => simp [remaining, stage, maxAttempts]
  | drained stage room zero =>
    simp only [remaining, stage, maxAttempts, maxDatabaseAttempts] at room ⊢
    omega
  | poll stage room busy =>
    simp only [remaining, stage, maxAttempts] at room ⊢
    omega
  | giveUp stage full =>
    simp only [remaining, stage, maxDatabaseAttempts]
    omega
  | ask stage room =>
    simp only [remaining, stage, maxDatabaseAttempts] at room ⊢
    omega
  | close stage =>
    simp only [remaining, stage]
    omega
  | lock stage | locked stage | closed stage | signalled stage => simp [remaining, stage]

/-- A shutdown makes at most ninety-seven steps of its own. -/
theorem shut_bounded (hr : Run Step new h s) : h.countP isShut + remaining s.shared.stage ≤ 97 := by
  induction hr with
  | nil => decide
  | snoc _ hs ih =>
    cases hs.steps with
    | advance found =>
      rw [List.countP_cons_of_neg (by simp [isShut])]
      rwa [put_shared, (advance_stage _ _ _).1]
    | signal stage =>
      rw [List.countP_cons_of_neg (by simp [isShut])]
      rwa [stage] at ih
    | shut own shuts =>
      have hlt := shuts.remaining_lt
      rw [List.countP_cons_of_pos own]
      simp only
      omega
    | expire stage =>
      rw [List.countP_cons_of_neg (by simp [isShut])]
      rcases stage with ⟨_, hstage⟩ | ⟨_, _, hstage⟩
      · simp only [hstage, remaining] at ih ⊢
        omega
      · simp only [hstage, remaining] at ih ⊢
        omega
    | _ =>
      rw [List.countP_cons_of_neg (by simp [isShut])]
      exact ih

/-! ## The count covers the requests -/

/-- A request as the tracker sees it. -/
def tracked : Point → ConnectionTracker.Point
  | .arriving => .arriving
  | .counted => .handling
  | .admitted => .handling
  | .handling _ => .handling
  | .leaving _ => .leaving
  | .ended => .ended

def tracker (s : Server) : ConnectionTracker.Server := ⟨s.shared.active, s.tasks.map tracked⟩

theorem tracker_put (i : Nat) (x : Point × Shared) :
    tracker (s.put i x) = (tracker s).put i (tracked x.1, x.2.active) := by
  simp [tracker, System.put, List.map_set]

/-- A step of a request is one of the tracker, or one inside of its handler. -/
theorem tracker_advance (verdict : Verdict) (x : Point) (n : Shared) :
    (tracked (advance verdict x n).1, (advance verdict x n).2.active) =
      ConnectionTracker.advance (tracked x) n.active ∨
    (tracked (advance verdict x n).1 = tracked x ∧ (advance verdict x n).2.active = n.active) := by
  cases x with
  | counted =>
    cases verdict with
    | allowed => exact Or.inr ⟨rfl, rfl⟩
    | limited => exact Or.inl rfl
    | failed => exact Or.inl rfl
  | admitted =>
    simp only [advance]
    split
    · exact Or.inr ⟨rfl, rfl⟩
    · exact Or.inl rfl
  | handling guarded =>
    cases guarded with
    | true => exact Or.inr ⟨rfl, rfl⟩
    | false => exact Or.inl rfl
  | _ => exact Or.inl rfl

theorem tracker_step (hs : Step s m s') :
    tracker s' = tracker s ∨ ∃ m', ConnectionTracker.Step (tracker s) m' (tracker s') := by
  cases hs.steps with
  | arrive =>
    refine Or.inr ⟨.arrive, ?_⟩
    simp [ConnectionTracker.Step, ConnectionTracker.after, tracker, System.start, tracked]
  | @advance i x verdict found =>
    have hfound : (tracker s).tasks[i]? = some (tracked x) := by
      simp [tracker, found]
    rw [tracker_put]
    rcases tracker_advance verdict x s.shared with heq | ⟨hpoint, hactive⟩
    · refine Or.inr ⟨.advance i, ?_⟩
      rw [heq]
      exact Option.map_eq_some_iff.mpr ⟨_, hfound, rfl⟩
    · left
      rw [hpoint, hactive]
      exact put_self hfound
  | @drop i x found =>
    refine Or.inr ⟨.drop i, ?_⟩
    have hfound : (tracker s).tasks[i]? = some (tracked x) := by
      simp [tracker, found]
    rw [tracker_put]
    exact Option.map_eq_some_iff.mpr ⟨_, hfound, rfl⟩
  | @read i found free =>
    left
    have hfound : (tracker s).tasks[i]? = some (tracked (.handling false)) := by
      simp [tracker, found]
    rw [tracker_put]
    exact put_self hfound
  | remoteRead => exact Or.inl rfl
  | remoteRelease => exact Or.inl rfl
  | signal => exact Or.inl rfl
  | shut own shuts =>
    left
    cases shuts <;> rfl
  | expire => exact Or.inl rfl

theorem tracker_run (hr : Run Step new h s) :
    ∃ moves, Run ConnectionTracker.Step ConnectionTracker.new moves (tracker s) := by
  induction hr with
  | nil => exact ⟨[], .nil⟩
  | snoc _ hs ih =>
    obtain ⟨moves, hmoves⟩ := ih
    rcases tracker_step hs with heq | ⟨m', hstep⟩
    · exact ⟨moves, heq ▸ hmoves⟩
    · exact ⟨_, .snoc hmoves hstep⟩

/-- Requests between their count and their end. -/
def inFlight (s : Server) : Nat := ConnectionTracker.inFlight (tracker s)

theorem inFlight_le_active (hr : Run Step new h s) : inFlight s ≤ s.shared.active := by
  obtain ⟨moves, hmoves⟩ := tracker_run hr
  rcases ConnectionTracker.tidy_or_over hmoves with htidy | hover
  · exact Nat.le_of_eq (ConnectionTracker.exact_of_tidy htidy).symm
  · exact Nat.le_of_lt hover

theorem not_inFlight_of_zero (hzero : inFlight s = 0) {x : Point} (hx : x ∈ s.tasks) :
    ConnectionTracker.isInFlight (tracked x) = false := by
  have hnone := count_eq_zero.mp hzero (tracked x) (List.mem_map_of_mem hx)
  exact Bool.eq_false_iff.mpr hnone

/-! ## Closing the pool -/

def Ending.polls : Ending → Option Nat
  | .completed polls _ => some polls
  | .expired => none

/-- How often the connections were polled before the wait for them was over. -/
def pollsOf : Stage → Option Nat
  | .idling polls _ => some polls
  | .closing ending => ending.polls
  | .locking ending => ending.polls
  | .draining ending => ending.polls
  | .signalling ending => ending.polls
  | .finished ending => ending.polls
  | _ => none

/-- Requests are turned away and none is handled. -/
structure Quiet (s : Server) : Prop where
  refusing : s.shared.accepting = false
  unhandled : ∀ x ∈ s.tasks, ∀ guarded, x ≠ .handling guarded

theorem Quiet.put (h : Quiet s) {i : Nat} {y : Point × Shared} (haccepting : y.2.accepting = false)
    (hy : ∀ guarded, y.1 ≠ .handling guarded) : Quiet (s.put i y) := by
  refine ⟨haccepting, fun z hz => ?_⟩
  rcases mem_or_eq_of_mem_put hz with hz | rfl
  · exact h.unhandled z hz
  · exact hy

theorem advance_ne_handling (hn : n.accepting = false) (verdict : Verdict) {x : Point}
    (hx : ∀ guarded, x ≠ .handling guarded) (guarded : Bool) :
    (advance verdict x n).1 ≠ .handling guarded := by
  cases x with
  | counted => cases verdict <;> exact Point.noConfusion
  | admitted => simp [advance, hn]
  | handling g => exact absurd rfl (hx g)
  | _ => exact Point.noConfusion

theorem Shuts.accepting (h : Shuts r n n') (hn : n.accepting = false) : n'.accepting = false := by
  cases h with
  | stop => rfl
  | _ => exact hn

theorem Quiet.step (h : Quiet s) (hs : Step s m s') : Quiet s' := by
  cases hs.steps with
  | arrive =>
    refine ⟨h.refusing, fun x hx => ?_⟩
    rcases mem_start.mp hx with hx | rfl
    · exact h.unhandled x hx
    · exact fun _ => Point.noConfusion
  | @advance i x verdict found =>
    exact h.put ((advance_stage verdict x s.shared).2.1.trans h.refusing)
      (advance_ne_handling h.refusing verdict (h.unhandled x (List.mem_of_getElem? found)))
  | drop => exact h.put h.refusing fun _ => Point.noConfusion
  | read found => exact absurd rfl (h.unhandled _ (List.mem_of_getElem? found) false)
  | remoteRead => exact ⟨h.refusing, h.unhandled⟩
  | remoteRelease => exact ⟨h.refusing, h.unhandled⟩
  | signal => exact ⟨h.refusing, h.unhandled⟩
  | shut own shuts => exact ⟨shuts.accepting h.refusing, h.unhandled⟩
  | expire => exact ⟨h.refusing, h.unhandled⟩

theorem Quiet.run (h : Quiet s) (hr : Run Step s later s') : Quiet s' :=
  hr.invariant h fun _ _ _ hq hs => hq.step hs

/-- A shutdown past its first step has requests turned away; once it has seen
no request there is none. -/
structure Orderly (s : Server) : Prop where
  refusing : s.shared.stage ≠ .running → s.shared.stage ≠ .stopping → s.shared.accepting = false
  quiet : ∀ polls, pollsOf s.shared.stage = some polls → polls < maxAttempts → Quiet s

theorem Shuts.refuses (h : Shuts r n n')
    (hn : n.stage ≠ .running → n.stage ≠ .stopping → n.accepting = false) :
    n'.accepting = false := by
  cases h with
  | stop => rfl
  | drained stage | poll stage | giveUp stage | ask stage | close stage | lock stage
  | locked stage | closed stage | signalled stage =>
    exact hn (by simp [stage]) (by simp [stage])

/-- The wait for the connections was over before, or a poll reads zero, or all
polls are used up. -/
theorem Shuts.pollsOf_cases (h : Shuts r n n') {polls : Nat} (hp : pollsOf n'.stage = some polls) :
    pollsOf n.stage = some polls ∨ n.active = 0 ∨ maxAttempts ≤ polls := by
  cases h with
  | stop => cases hp
  | drained stage room zero => exact Or.inr (Or.inl zero)
  | poll => cases hp
  | giveUp stage full =>
    cases hp
    exact Or.inr (Or.inr full)
  | ask stage | close stage | lock stage | locked stage | closed stage | signalled stage =>
    left
    rw [stage]
    exact hp

/-- The poll that reads zero is the one that makes the difference. -/
theorem Orderly.shut (h : Orderly s) (hle : inFlight s ≤ s.shared.active)
    (hs : Shuts r s.shared n) : Orderly { s with shared := n } := by
  have hrefusing : n.accepting = false := hs.refuses h.refusing
  refine ⟨fun _ _ => hrefusing, fun polls hp hlt => ⟨hrefusing, fun x hx => ?_⟩⟩
  rcases hs.pollsOf_cases hp with hbefore | hzero | hfull
  · exact (h.quiet polls hbefore hlt).unhandled x hx
  · have hflight := not_inFlight_of_zero (Nat.le_zero.mp (hzero ▸ hle)) hx
    rintro guarded rfl
    cases hflight
  · exact absurd hlt (Nat.not_lt.mpr hfull)

theorem orderly_of_run (hr : Run Step new h s) : Orderly s := by
  induction hr with
  | nil => exact ⟨fun hne => absurd rfl hne, fun polls hp => by cases hp⟩
  | @snoc h s s' m hr hs ih =>
    have hq : ∀ polls, pollsOf s.shared.stage = some polls → polls < maxAttempts → Quiet s' :=
      fun polls hp hlt => (ih.quiet polls hp hlt).step hs
    cases hs.steps with
    | arrive => exact ⟨ih.refusing, hq⟩
    | @advance i x verdict found =>
      obtain ⟨hstage, haccepting, _⟩ := advance_stage verdict x s.shared
      refine ⟨?_, ?_⟩
      · rw [put_shared, hstage, haccepting]
        exact ih.refusing
      · rw [put_shared, hstage]
        exact hq
    | drop found => exact ⟨ih.refusing, hq⟩
    | read found free => exact ⟨ih.refusing, hq⟩
    | remoteRead => exact ⟨ih.refusing, hq⟩
    | remoteRelease => exact ⟨ih.refusing, hq⟩
    | signal stage => exact ⟨fun _ hne => absurd rfl hne, fun polls hp => by cases hp⟩
    | shut own shuts => exact ih.shut (inFlight_le_active hr) shuts
    | expire stage =>
      refine ⟨fun _ _ => ?_, fun polls hp => by cases hp⟩
      rcases stage with ⟨_, hstage⟩ | ⟨_, _, hstage⟩
      · exact ih.refusing (by simp [hstage]) (by simp [hstage])
      · exact ih.refusing (by simp [hstage]) (by simp [hstage])

/-! ## The write guard -/

theorem readers_put {i : Nat} {x : Point} (hx : s.tasks[i]? = some x) (y : Point × Shared) :
    readers (s.put i y) + (isReader x).toNat + s.shared.remote =
      readers s + (isReader y.1).toNat + y.2.remote := by
  have hcount := count_put (f := isReader) (x := y) hx
  simp only [readers, put_shared]
  omega

/-- While the shutdown waits for the write guard or has it, no read guard is
given out. -/
theorem readers_le (hs : Step s m s') (hstage : readable s.shared.stage = false) :
    readers s' ≤ readers s := by
  cases hs.steps with
  | arrive =>
    have hcount := count_start (s := s) (t := Point.arriving) (f := isReader)
    exact Nat.le_of_eq (congrArg (· + s.shared.remote) hcount)
  | @advance i x verdict found =>
    have hput := readers_put found (advance verdict x s.shared)
    rw [isReader_advance, (advance_stage verdict x s.shared).2.2, Bool.toNat_false] at hput
    omega
  | @drop i x found =>
    have hput := readers_put found (.ended, s.shared)
    simp only [isReader, Bool.toNat_false] at hput
    omega
  | read found free => rw [hstage] at free; cases free
  | remoteRead free => rw [hstage] at free; cases free
  | remoteRelease =>
    simp only [readers, System.count]
    omega
  | signal => exact Nat.le_refl _
  | shut own shuts =>
    have hremote : ∀ {n}, Shuts (readers s) s.shared n → n.remote = s.shared.remote := by
      intro n hn
      cases hn <;> rfl
    simp only [readers, System.count, hremote shuts]
    exact Nat.le_refl _
  | expire => exact Nat.le_refl _

/-- Nobody reads while the pool is being closed. -/
theorem unread_of_draining (hr : Run Step new h s) {ending : Ending}
    (hstage : s.shared.stage = .draining ending) : readers s = 0 := by
  refine hr.invariant (I := fun s => ∀ ending, s.shared.stage = .draining ending → readers s = 0)
    (fun ending hstage => by cases hstage) ?_ ending hstage
  intro s m s' hI hs ending hstage
  have hkept : s.shared.stage = .draining ending → readers s' = 0 := by
    intro hbefore
    have hle := readers_le hs (by rw [hbefore]; rfl)
    rw [hI ending hbefore] at hle
    exact Nat.le_zero.mp hle
  cases hs.steps with
  | @advance i x verdict found =>
    rw [put_shared, (advance_stage verdict x s.shared).1] at hstage
    exact hkept hstage
  | signal => cases hstage
  | expire => cases hstage
  | shut own shuts =>
    cases shuts with
    | locked stage free => exact free
    | _ => cases hstage
  | _ => exact hkept hstage

/-- Whoever has a read guard can let go of it. -/
theorem exists_release (hout : readers s ≠ 0) : ∃ m s', Step s m s' ∧
    s'.shared.stage = s.shared.stage ∧ readers s' < readers s := by
  by_cases hremote : 0 < s.shared.remote
  · refine ⟨.remoteRelease, _, if_pos hremote, rfl, ?_⟩
    simp only [readers, System.count]
    omega
  · have hpos : 0 < s.count isReader := by
      unfold readers at hout
      omega
    obtain ⟨i, x, hx, hreader⟩ := exists_of_count_pos hpos
    have hstep : Step s (.advance i .allowed) (s.put i (advance .allowed x s.shared)) := by
      simp only [Step, after, hx, Option.map_some]
    obtain ⟨hstage, _, hkept⟩ := advance_stage .allowed x s.shared
    have hput := readers_put hx (advance .allowed x s.shared)
    rw [isReader_advance, hkept, hreader, Bool.toNat_false, Bool.toNat_true] at hput
    exact ⟨_, _, hstep, hstage, by omega⟩

/-- All read guards can be let go of, one after the other. -/
theorem reaches_unread (s : Server) : ∃ later s', Run Step s later s' ∧
    s'.shared.stage = s.shared.stage ∧ readers s' = 0 := by
  generalize hr : readers s = r
  induction r using Nat.strongRecOn generalizing s with
  | ind r ih =>
    by_cases hzero : r = 0
    · exact ⟨[], s, .nil, rfl, hr.trans hzero⟩
    · obtain ⟨m, s₁, hstep, hstage, hlt⟩ := exists_release (s := s) (hr ▸ hzero)
      obtain ⟨later, s₂, hlater, hstage₂, hunread⟩ := ih (readers s₁) (hr ▸ hlt) s₁ rfl
      exact ⟨later ++ [m], s₂, (Run.snoc .nil hstep).trans hlater, hstage₂.trans hstage, hunread⟩

/-- The shutdown can make a step of its own, unless it has to wait. -/
theorem exists_shut (hrunning : s.shared.stage ≠ .running)
    (hlocking : ∀ ending, s.shared.stage = .locking ending → readers s = 0)
    (hdraining : ∀ ending, s.shared.stage ≠ .draining ending)
    (hfinished : ∀ ending, s.shared.stage ≠ .finished ending) (database : Nat) :
    ∃ s', Step s (.shut database) s' := by
  have hsome : (shut database (readers s) s.shared).isSome = true := by
    unfold shut
    cases hstage : s.shared.stage with
    | running => exact absurd hstage hrunning
    | draining ending => exact absurd hstage (hdraining ending)
    | finished ending => exact absurd hstage (hfinished ending)
    | locking ending => simp [hlocking ending hstage]
    | waiting attempts => grind
    | idling polls attempts => grind
    | _ => rfl
  obtain ⟨n, hn⟩ := Option.isSome_iff_exists.mp hsome
  exact ⟨_, Option.map_eq_some_iff.mpr ⟨n, hn, rfl⟩⟩

/-- A shutdown that has begun gets one step further, after others have let go of
their guards if it waits for them. -/
theorem exists_further (hrunning : s.shared.stage ≠ .running)
    (hfinished : ∀ ending, s.shared.stage ≠ .finished ending) :
    ∃ later s', Run Step s later s' ∧ s'.shared.stage ≠ .running ∧
      remaining s'.shared.stage < remaining s.shared.stage := by
  obtain ⟨later, s₁, hlater, hstage, hunread⟩ := reaches_unread s
  have hown : ∃ m s₂, Step s₁ m s₂ ∧ isShut m = true := by
    by_cases hdraining : ∃ ending, s₁.shared.stage = .draining ending
    · obtain ⟨ending, hdraining⟩ := hdraining
      refine ⟨.closed, { s₁ with shared := { s₁.shared with stage := .signalling ending } }, ?_,
        rfl⟩
      simp only [Step, after, hdraining]
    · obtain ⟨s₂, hs₂⟩ := exists_shut (hstage ▸ hrunning) (fun _ _ => hunread)
        (fun ending h => hdraining ⟨ending, h⟩) (hstage ▸ hfinished) 0
      exact ⟨.shut 0, s₂, hs₂, rfl⟩
  obtain ⟨m, s₂, hs₂, hown⟩ := hown
  have hsteps := hs₂.steps
  refine ⟨m :: later, s₂, hlater.snoc hs₂, ?_⟩
  cases hsteps with
  | shut _ shuts =>
    refine ⟨?_, hstage ▸ shuts.remaining_lt⟩
    cases shuts <;> exact Stage.noConfusion
  | _ => cases hown

/-- **A shutdown that has begun can be finished**, from wherever it is. -/
theorem reaches_finished (hrunning : s.shared.stage ≠ .running) :
    ∃ later s' ending, Run Step s later s' ∧ s'.shared.stage = .finished ending := by
  generalize hr : remaining s.shared.stage = r
  induction r using Nat.strongRecOn generalizing s with
  | ind r ih =>
    by_cases hfinished : ∃ ending, s.shared.stage = .finished ending
    · obtain ⟨ending, hfinished⟩ := hfinished
      exact ⟨[], s, ending, .nil, hfinished⟩
    · obtain ⟨later, s₁, hlater, hrunning₁, hlt⟩ :=
        exists_further hrunning fun ending h => hfinished ⟨ending, h⟩
      obtain ⟨later', s₂, ending, hlater', hend⟩ := ih _ (hr ▸ hlt) hrunning₁ rfl
      exact ⟨later' ++ later, s₂, ending, hlater.trans hlater', hend⟩

/-- Where the shutdown has to wait: for the read guards that are out, or for
`PgPool::close`. -/
def Waits (s : Server) : Prop :=
  (∃ ending, s.shared.stage = .locking ending) ∧ readers s ≠ 0 ∨
    ∃ ending, s.shared.stage = .draining ending

/-- **The pool is closed quietly.** A shutdown makes ninety-seven steps of its own
at most, waits in two places only, and can be finished from wherever it is; while
it waits for the write guard no read guard is given out, and while the pool is
being closed none is held. If its wait for the connections ended before all sixty
polls were used up, no request is handled from then on: neither while the
database is waited for and closed nor later, whoever arrives. -/
theorem quiet_close (hr : Run Step new h s) :
    h.countP isShut ≤ 97 ∧
    (s.shared.stage ≠ .running →
      (∃ later s' ending, Run Step s later s' ∧ s'.shared.stage = .finished ending) ∧
      ((∃ ending, s.shared.stage = .finished ending) ∨ Waits s ∨
        ∀ database, ∃ s', Step s (.shut database) s')) ∧
    (∀ ending, s.shared.stage = .locking ending → ∀ m s', Step s m s' → readers s' ≤ readers s) ∧
    (∀ ending, s.shared.stage = .draining ending → readers s = 0) ∧
    ∀ polls, pollsOf s.shared.stage = some polls → polls < maxAttempts →
      ∀ later s', Run Step s later s' → ∀ x ∈ s'.tasks, ∀ guarded, x ≠ .handling guarded := by
  have hbound := shut_bounded hr
  refine ⟨by omega, ?_, ?_, fun _ => unread_of_draining hr, ?_⟩
  · intro hrunning
    refine ⟨reaches_finished hrunning, ?_⟩
    by_cases hfinished : ∃ ending, s.shared.stage = .finished ending
    · exact Or.inl hfinished
    by_cases hwaits : Waits s
    · exact Or.inr (Or.inl hwaits)
    · refine Or.inr (Or.inr (exists_shut hrunning ?_ ?_ fun ending h => hfinished ⟨ending, h⟩))
      · intro ending hlocking
        by_contra hout
        exact hwaits (Or.inl ⟨⟨ending, hlocking⟩, hout⟩)
      · exact fun ending hdraining => hwaits (Or.inr ⟨ending, hdraining⟩)
  · intro ending hlocking m s' hs
    exact readers_le hs (by rw [hlocking]; rfl)
  · intro polls hp hlt later s' hlater
    exact (((orderly_of_run hr).quiet polls hp hlt).run hlater).unhandled

/-- The server after some moves, latest first. -/
def afterwards (moves : List Move) : Server := (play after (fun _ _ => true) new moves).getD new

/-- A request that reads the database is served before the signal and another one
comes after it, while the database is waited for; a gRPC call holds a guard when
the shutdown asks for the write guard. -/
def servedThenStopped : List Move :=
  [.shut 0, .remoteRead, .shut 0, .shut 1, .advance 1 .allowed, .arrive, .shut 0,
    .advance 0 .allowed, .advance 0 .allowed, .advance 0 .allowed, .shut 0, .signal, .read 0,
    .advance 0 .allowed, .advance 0 .allowed, .advance 0 .allowed, .arrive]

theorem quiet_close_served : Run Step new servedThenStopped (afterwards servedThenStopped) ∧
    (afterwards servedThenStopped).tasks = [.ended, .counted] ∧
    (afterwards servedThenStopped).shared.stage = .locking (.completed 0 1) ∧
    readers (afterwards servedThenStopped) = 1 ∧
    ∀ later s', Run Step (afterwards servedThenStopped) later s' →
      ∀ x ∈ s'.tasks, ∀ guarded, x ≠ .handling guarded := by
  have hrun : Run Step new servedThenStopped (afterwards servedThenStopped) := run_of_play_true rfl
  exact ⟨hrun, rfl, rfl, rfl, (quiet_close hrun).2.2.2.2 0 rfl (by decide)⟩

/-! ## A request that is never taken off the count -/

/-- More requests are counted than there are. -/
def Over (s : Server) : Prop := inFlight s < s.shared.active

theorem Over.step (h : Over s) (hs : Step s m s') : Over s' := by
  rcases tracker_step hs with heq | ⟨m', hstep⟩
  · have hflight : inFlight s' = inFlight s := congrArg ConnectionTracker.inFlight heq
    have hactive : s'.shared.active = s.shared.active := congrArg System.shared heq
    unfold Over
    rw [hflight, hactive]
    exact h
  · have heffect := hstep.effect
    simp only [Over, inFlight, tracker] at h heffect ⊢
    omega

/-- The wait goes through all its polls as long as the count is over. -/
theorem polls_of_over (h : Over s) (hopen : ∀ polls, pollsOf s.shared.stage = some polls →
      maxAttempts ≤ polls) (hr : Run Step s later s') :
    ∀ polls, pollsOf s'.shared.stage = some polls → maxAttempts ≤ polls := by
  refine (hr.invariant (I := fun s => Over s ∧ ∀ polls, pollsOf s.shared.stage = some polls →
    maxAttempts ≤ polls) ⟨h, hopen⟩ ?_).2
  intro s m s' hI hs
  obtain ⟨hover, hpolls⟩ := hI
  refine ⟨hover.step hs, ?_⟩
  cases hs.steps with
  | @advance i x verdict found =>
    rw [put_shared, (advance_stage verdict x s.shared).1]
    exact hpolls
  | signal => exact fun polls hp => by cases hp
  | expire => exact fun polls hp => by cases hp
  | shut own shuts =>
    intro polls hp
    rcases shuts.pollsOf_cases hp with hbefore | hzero | hfull
    · exact hpolls polls hbefore
    · exact absurd hzero (Nat.ne_of_gt (Nat.zero_lt_of_lt hover))
    · exact hfull
  | _ => exact hpolls

/-- **One request that goes away spoils the wait.** If the future of a request is
dropped while the request is counted, before the wait for the connections is
over, then no poll of the shutdown ever reads zero: it uses up all sixty, or the
grace period ends it. -/
theorem leak_never_quiet (hr : Run Step new h s) {i : Nat} {x : Point}
    (hx : s.tasks[i]? = some x) (hcounted : x ≠ .arriving ∧ x ≠ .ended)
    (hopen : pollsOf s.shared.stage = none) (hdrop : Step s (.drop i) s')
    {s'' : Server} (hlater : Run Step s' later s'') :
    ∀ polls, pollsOf s''.shared.stage = some polls → maxAttempts ≤ polls := by
  obtain rfl : s.put i (.ended, s.shared) = s' := by
    have hafter : after s (.drop i) = some (s.put i (.ended, s.shared)) := by simp [after, hx]
    exact Option.some.inj (hafter.symm.trans hdrop)
  have hflight : ConnectionTracker.isInFlight (tracked x) = true := by
    cases x with
    | arriving => exact absurd rfl hcounted.1
    | ended => exact absurd rfl hcounted.2
    | _ => rfl
  have hover : Over (s.put i (.ended, s.shared)) := by
    have hle := inFlight_le_active hr
    have hfound : (tracker s).tasks[i]? = some (tracked x) := by simp [tracker, hx]
    have hcount := @count_put _ _ (tracker s) i (tracked x) (.ended, s.shared.active)
      ConnectionTracker.isInFlight hfound
    rw [hflight] at hcount
    have hput : inFlight (s.put i (.ended, s.shared)) =
        ((tracker s).put i (.ended, s.shared.active)).count ConnectionTracker.isInFlight := by
      unfold inFlight
      rw [tracker_put]
      rfl
    have hsum : inFlight (s.put i (.ended, s.shared)) + 1 = inFlight s := by
      rw [hput]
      exact hcount
    show inFlight (s.put i (.ended, s.shared)) < s.shared.active
    omega
  refine polls_of_over hover ?_ hlater
  intro polls hp
  rw [put_shared, hopen] at hp
  cases hp

/-- The client of the only request goes away; the shutdown polls sixty times. -/
theorem leak_never_quiet_waited : ∃ s, Run Step new (List.replicate 62 (.shut 0) ++
      [.signal, .drop 0, .advance 0 .allowed, .arrive]) s ∧
    s.shared.stage = .idling 60 0 ∧ s.tasks = [.ended] ∧
    ∀ polls, pollsOf s.shared.stage = some polls → maxAttempts ≤ polls := by
  have hcounted : Run Step new [.advance 0 .allowed, .arrive]
      ⟨⟨true, 1, .running, 0⟩, [.counted]⟩ := run_of_play_true rfl
  have hlater : Run Step ⟨⟨true, 1, .running, 0⟩, [.ended]⟩
      (List.replicate 62 (.shut 0) ++ [.signal]) ⟨⟨false, 1, .idling 60 0, 0⟩, [.ended]⟩ :=
    run_of_play_true rfl
  have hdrop : Step ⟨⟨true, 1, .running, 0⟩, [.counted]⟩ (.drop 0)
      ⟨⟨true, 1, .running, 0⟩, [.ended]⟩ := rfl
  refine ⟨_, (hcounted.snoc hdrop).trans hlater, rfl, rfl, ?_⟩
  exact leak_never_quiet (x := .counted) hcounted rfl ⟨by simp, by simp⟩ rfl hdrop hlater

end Axionvera.Node.Shutdown

import Axionvera.Lib.Interleaving
import Axionvera.Lib.Transition

/-! # The connection tracker

`connection_tracker_middleware` of `enhanced_server.rs` counts a request before
it runs the handler and takes it off the count afterwards. Each of its three
awaits is a point where the request's future may be dropped, as it is when the
client goes away. The guards of the counter are given back at the end of the
statement that asked for them, so that an update is one step with its wait. -/
namespace Axionvera.Node.ConnectionTracker
open Axionvera.Lib.Interleaving Axionvera.Lib.Transition

/-- Where a request is in the middleware. -/
inductive Point where
  /-- Before its increment. -/
  | arriving
  | handling
  /-- Before its decrement. -/
  | leaving
  | ended
  deriving DecidableEq

/-- The requests, and `active_connections`. -/
abbrev Server : Type := System Point Nat

def new : Server := ⟨0, []⟩

def advance : Point → Nat → Point × Nat
  | .arriving, active => (.handling, active + 1)
  | .handling, active => (.leaving, active)
  | .leaving, active => (.ended, active - 1)
  | .ended, active => (.ended, active)

inductive Move where
  | arrive
  | advance (place : Nat)
  /-- The future of a request is dropped. -/
  | drop (place : Nat)

def after (s : Server) : Move → Option Server
  | .arrive => some (s.start .arriving)
  | .advance i => (s.tasks[i]?).map fun x => s.put i (advance x s.shared)
  | .drop i => (s.tasks[i]?).map fun _ => s.put i (.ended, s.shared)

def Step (s : Server) (m : Move) (s' : Server) : Prop := after s m = some s'

/-- Between its increment and its end. -/
def isInFlight : Point → Bool
  | .handling => true
  | .leaving => true
  | _ => false

def inFlight (s : Server) : Nat := s.count isInFlight

/-! ## Waiting for the last request -/

/-- The rounds that are left of `wait_for_connections_to_complete`: the attempt
that reads a zero, if one does. -/
def waitFrom (readings : Nat → Nat) : Nat → Nat → Option Nat
  | 0, _ => none
  | remaining + 1, attempts =>
    if readings attempts = 0 then some attempts else waitFrom readings remaining (attempts + 1)

/-- What the counter reads at each attempt decides at which of them the wait is
over, or that it is given up after sixty. -/
def waitForConnectionsToComplete (readings : Nat → Nat) : Option Nat := waitFrom readings 60 0

theorem waitFrom_eq_none {readings : Nat → Nat} {remaining attempts : Nat} :
    waitFrom readings remaining attempts = none ↔
      ∀ k < remaining, readings (attempts + k) ≠ 0 := by
  induction remaining generalizing attempts with
  | zero => simp [waitFrom]
  | succ remaining ih =>
    rw [waitFrom]
    by_cases hzero : readings attempts = 0
    · rw [if_pos hzero]
      refine iff_of_false (Option.some_ne_none _) ?_
      intro h
      exact h 0 (Nat.zero_lt_succ _) hzero
    · rw [if_neg hzero, ih]
      refine ⟨?_, ?_⟩
      · intro h k hk
        cases k with
        | zero => exact hzero
        | succ k =>
          have hlater := h k (Nat.lt_of_succ_lt_succ hk)
          rw [Nat.add_right_comm] at hlater
          exact hlater
      · intro h k hk
        have hlater := h (k + 1) (Nat.succ_lt_succ hk)
        rw [← Nat.add_assoc, Nat.add_right_comm] at hlater
        exact hlater

/-! ## What a step does to the count -/

variable {s s' : Server} {m : Move} {moves : List Move} {x : Point} {i : Nat}

/-- A request that is dropped is not in flight. -/
def Tidy (s : Server) : Move → Prop
  | .drop i => ∀ x ∈ s.tasks[i]?, isInFlight x = false
  | _ => True

def TidyStep (s : Server) (m : Move) (s' : Server) : Prop := Step s m s' ∧ Tidy s m

/-- Requests in flight and their count go up and down together, except where a
request in flight is dropped. -/
theorem Step.effect (h : Step s m s') :
    (Tidy s m ∧ ((s'.shared = s.shared ∧ inFlight s' = inFlight s) ∨
      (s'.shared = s.shared + 1 ∧ inFlight s' = inFlight s + 1) ∨
      (s'.shared = s.shared - 1 ∧ inFlight s' + 1 = inFlight s))) ∨
    (¬ Tidy s m ∧ s'.shared = s.shared ∧ inFlight s' + 1 = inFlight s) := by
  cases m with
  | arrive =>
    cases h
    exact Or.inl ⟨trivial, Or.inl ⟨rfl, count_start⟩⟩
  | advance i =>
    obtain ⟨x, hx, rfl⟩ := Option.map_eq_some_iff.mp h
    have hcount : inFlight (s.put i (advance x s.shared)) + (isInFlight x).toNat =
        inFlight s + (isInFlight (advance x s.shared).1).toNat := count_put hx
    refine Or.inl ⟨trivial, ?_⟩
    cases x with
    | arriving => exact Or.inr (Or.inl ⟨rfl, hcount⟩)
    | handling => exact Or.inl ⟨rfl, Nat.add_right_cancel hcount⟩
    | leaving => exact Or.inr (Or.inr ⟨rfl, hcount⟩)
    | ended => exact Or.inl ⟨rfl, hcount⟩
  | drop i =>
    obtain ⟨x, hx, rfl⟩ := Option.map_eq_some_iff.mp h
    have hcount : inFlight (s.put i (.ended, s.shared)) + (isInFlight x).toNat = inFlight s + 0 :=
      count_put hx
    cases hflight : isInFlight x with
    | false =>
      rw [hflight] at hcount
      refine Or.inl ⟨?_, Or.inl ⟨rfl, hcount⟩⟩
      intro y hy
      cases hx.symm.trans hy
      exact hflight
    | true =>
      rw [hflight] at hcount
      refine Or.inr ⟨?_, rfl, hcount⟩
      intro htidy
      cases hflight.symm.trans (htidy x hx)

/-! ## Runs -/

theorem exact_of_tidy (hrun : Run TidyStep new moves s) : s.shared = inFlight s := by
  refine Run.invariant (I := fun s => s.shared = inFlight s) rfl ?_ hrun
  intro s m s' h hs
  rcases hs.1.effect with ⟨_, heffect⟩ | ⟨huntidy, _⟩
  · omega
  · exact absurd hs.2 huntidy

/-- A request that was dropped in flight is counted for ever. -/
theorem tidy_or_over (hrun : Run Step new moves s) :
    Run TidyStep new moves s ∨ inFlight s < s.shared := by
  induction hrun with
  | nil => exact Or.inl .nil
  | snoc _ hs ih =>
    rcases hs.effect with ⟨htidy, heffect⟩ | ⟨_, heffect⟩
    · rcases ih with hrun | hover
      · exact Or.inl (.snoc hrun ⟨hs, htidy⟩)
      · right
        omega
    · right
      rcases ih with hrun | hover
      · have hexact := exact_of_tidy hrun
        omega
      · omega

/-- **The accounting is exact** after a run exactly if no request in flight was
dropped in it; and a server without requests in flight is seen to be drained
exactly after such a run. -/
theorem active_exact_iff_tidy (moves : List Move) (s : Server) (hrun : Run Step new moves s) :
    (s.shared = inFlight s ↔ Run TidyStep new moves s) ∧
      (inFlight s = 0 →
        (waitForConnectionsToComplete (fun _ => s.shared) ≠ none ↔ Run TidyStep new moves s)) := by
  have hexact : s.shared = inFlight s ↔ Run TidyStep new moves s := by
    refine ⟨?_, exact_of_tidy⟩
    intro h
    rcases tidy_or_over hrun with htidy | hover
    · exact htidy
    · omega
  refine ⟨hexact, ?_⟩
  intro hnone
  rw [← hexact, hnone, waitForConnectionsToComplete, Ne, waitFrom_eq_none]
  refine ⟨?_, ?_⟩
  · intro h
    by_contra hactive
    exact h fun _ _ => hactive
  · intro hactive h
    exact h 0 (Nat.zero_lt_succ _) hactive

/-- A request that is served, and one that goes away before it is counted. -/
theorem active_exact_iff_tidy_served :
    ∃ s, Run Step new
        [.drop 1, .advance 0, .advance 0, .arrive, .advance 0, .arrive] s ∧
      inFlight s = 0 ∧ s.shared = 0 ∧
      Run TidyStep new [.drop 1, .advance 0, .advance 0, .arrive, .advance 0, .arrive] s := by
  have hplay : play after (fun _ _ => true) new
      [.drop 1, .advance 0, .advance 0, .arrive, .advance 0, .arrive] =
      some ⟨0, [.ended, .ended]⟩ := rfl
  have hrun : Run Step new [.drop 1, .advance 0, .advance 0, .arrive, .advance 0, .arrive] _ :=
    run_of_play_true hplay
  exact ⟨_, hrun, rfl, rfl, (active_exact_iff_tidy _ _ hrun).1.mp rfl⟩

/-- A client goes away while its request is handled: nothing is in flight, and
one connection is counted. -/
theorem dropped_request_stays_counted :
    ∃ s, Run Step new [.drop 0, .advance 0, .arrive] s ∧ inFlight s = 0 ∧ s.shared = 1 ∧
      waitForConnectionsToComplete (fun _ => s.shared) = none := by
  have hplay : play after (fun _ _ => true) new [.drop 0, .advance 0, .arrive] =
      some ⟨1, [.ended]⟩ := rfl
  exact ⟨_, run_of_play_true hplay, rfl, rfl, rfl⟩

end Axionvera.Node.ConnectionTracker

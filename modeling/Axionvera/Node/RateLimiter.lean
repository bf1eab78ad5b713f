import Axionvera.Lib.Guards
import Axionvera.Lib.Transition
import Mathlib.Data.List.AList

/-! # The rate limiter

`rate_limiter.rs`: a call reads the clock, waits for the mutex, and counts itself
in the slot of its key, which is one count and the minute that it is for. The
Redis backend has a counter for each key and minute instead. Reading the clock,
taking the mutex and the update under it are separate steps. -/
namespace Axionvera.Node.RateLimiter
open Axionvera.Lib.Guards Axionvera.Lib.Interleaving Axionvera.Lib.Transition

/-- For each key, the count and the minute it is for. -/
abbrev Slots : Type := AList fun _ : String => UInt64 × Nat

/-- The in-memory branch of `allow`, under the mutex. The count wraps, as it does
without overflow checks. -/
def update (limitPerMinute : UInt64) (slots : Slots) (key : String) (bucket : Nat) : Bool × Slots :=
  match slots.lookup key with
  | some (count, ts) =>
    let slot := if ts = bucket then (count + 1, ts) else (1, bucket)
    (decide (slot.1 ≤ limitPerMinute), slots.insert key slot)
  | none => (decide (1 ≤ limitPerMinute), slots.insert key (1, bucket))

/-! ## Concurrent calls -/

structure Shared where
  /-- The seconds since the epoch. -/
  now : Nat
  slots : Slots

/-- Where a call is in `allow`. -/
inductive Point where
  | begun (key : String)
  | clocked (key : String) (bucket : Nat)
  | locked (key : String) (bucket : Nat)
  | returned (key : String) (bucket : Nat) (allowed : Bool)

def mutex : Discipline Unit Point where
  holds
    | .locked _ _ => [⟨(), .write⟩]
    | _ => []
  wants
    | .clocked _ _ => some ⟨(), .write⟩
    | _ => none

def step (limitPerMinute : UInt64) : Point → Shared → Point × Shared
  | .begun key, e => (.clocked key (e.now / 60), e)
  | .clocked key bucket, e => (.locked key bucket, e)
  | .locked key bucket, e =>
    let updated := update limitPerMinute e.slots key bucket
    (.returned key bucket updated.1, { e with slots := updated.2 })
  | .returned key bucket allowed, e => (.returned key bucket allowed, e)

abbrev Limiter : Type := System Point Shared

inductive Move where
  | start (key : String)
  | advance (place : Nat)
  | tick (seconds : Nat)

def after (limitPerMinute : UInt64) (s : Limiter) : Move → Option Limiter
  | .start key => some (s.start (.begun key))
  | .advance i => (s.tasks[i]?).bind fun x =>
    if Granted mutex s.tasks x then some (s.put i (step limitPerMinute x s.shared)) else none
  | .tick seconds => some { s with shared := { s.shared with now := s.shared.now + seconds } }

def Step (limitPerMinute : UInt64) (s : Limiter) (m : Move) (s' : Limiter) : Prop :=
  after limitPerMinute s m = some s'

/-- A limiter with no slots and no calls. -/
def fresh (now : Nat) : Limiter := ⟨⟨now, ∅⟩, []⟩

variable {limit : UInt64} {s s' : Limiter} {m : Move} {moves : List Move} {x : Point}
  {key : String} {bucket i : Nat}

theorem Step.advance_cases (h : Step limit s (.advance i) s') :
    ∃ x, s.tasks[i]? = some x ∧ s' = s.put i (step limit x s.shared) := by
  obtain ⟨x, hx, hs⟩ := Option.bind_eq_some_iff.mp h
  split at hs
  · exact ⟨x, hx, (Option.some.inj hs).symm⟩
  · cases hs

/-! ## What has been admitted -/

/-- A call for this key and minute that has returned. -/
def isReturned (key : String) (bucket : Nat) : Point → Bool
  | .returned key' bucket' _ => decide (key' = key ∧ bucket' = bucket)
  | _ => false

def isAdmitted (key : String) (bucket : Nat) : Point → Bool
  | .returned key' bucket' allowed => decide (key' = key ∧ bucket' = bucket) && allowed
  | _ => false

/-- How many calls for this key that read this minute have returned. -/
def calls (s : Limiter) (key : String) (bucket : Nat) : Nat := s.count (isReturned key bucket)

/-- How many of them have returned true. -/
def admitted (s : Limiter) (key : String) (bucket : Nat) : Nat := s.count (isAdmitted key bucket)

/-- How many of so many calls the Redis backend admits, which compares the counter
of the key and minute after its increment. -/
def redisAdmitted (limitPerMinute : UInt64) (calls : Nat) : Nat :=
  (List.range calls).countP fun earlier => decide (earlier + 1 ≤ limitPerMinute.toNat)

theorem redisAdmitted_succ (limit : UInt64) (calls : Nat) :
    redisAdmitted limit (calls + 1) =
      redisAdmitted limit calls + (decide (calls + 1 ≤ limit.toNat)).toNat := by
  rw [redisAdmitted, List.range_succ, List.countP_append, List.countP_singleton]
  cases decide (calls + 1 ≤ limit.toNat) with
  | true => rfl
  | false => rfl

theorem redisAdmitted_eq (limit : UInt64) (calls : Nat) :
    redisAdmitted limit calls = min calls limit.toNat := by
  induction calls with
  | zero => exact (Nat.zero_min _).symm
  | succ calls ih =>
    rw [redisAdmitted_succ, ih]
    by_cases hlimit : calls + 1 ≤ limit.toNat
    · rw [decide_eq_true hlimit, Bool.toNat_true]
      omega
    · rw [decide_eq_false hlimit, Bool.toNat_false]
      omega

/-! ## What a step does -/

/-- A step that counts no call. -/
structure Quiet (s s' : Limiter) : Prop where
  slots : s'.shared.slots = s.shared.slots
  calls : ∀ key bucket, calls s' key bucket = calls s key bucket
  admitted : ∀ key bucket, admitted s' key bucket = admitted s key bucket

theorem Quiet.start (s : Limiter) (key : String) : Quiet s (s.start (.begun key)) where
  slots := rfl
  calls _ _ := count_start
  admitted _ _ := count_start

theorem Quiet.put {e : Shared} {y : Point} (hx : s.tasks[i]? = some x)
    (hslots : e.slots = s.shared.slots)
    (hcalls : ∀ key bucket, isReturned key bucket y = isReturned key bucket x)
    (hadmitted : ∀ key bucket, isAdmitted key bucket y = isAdmitted key bucket x) :
    Quiet s (s.put i (y, e)) where
  slots := hslots
  calls key bucket := by
    have hcount := count_put (f := isReturned key bucket) (x := (y, e)) hx
    rw [hcalls] at hcount
    exact Nat.add_right_cancel hcount
  admitted key bucket := by
    have hcount := count_put (f := isAdmitted key bucket) (x := (y, e)) hx
    rw [hadmitted] at hcount
    exact Nat.add_right_cancel hcount

/-- A step counts no call, or is the update of one that has the mutex. -/
theorem Step.quiet_or_update (h : Step limit s m s') :
    Quiet s s' ∨ ∃ i key bucket, m = .advance i ∧ s.tasks[i]? = some (.locked key bucket) ∧
      s' = s.put i (.returned key bucket (update limit s.shared.slots key bucket).1,
        { s.shared with slots := (update limit s.shared.slots key bucket).2 }) := by
  cases m with
  | start key =>
    cases h
    exact Or.inl (.start s key)
  | tick seconds =>
    cases h
    exact Or.inl ⟨rfl, fun _ _ => rfl, fun _ _ => rfl⟩
  | advance i =>
    obtain ⟨x, hx, rfl⟩ := h.advance_cases
    cases x with
    | begun key => exact Or.inl (.put hx rfl (fun _ _ => rfl) fun _ _ => rfl)
    | clocked key bucket => exact Or.inl (.put hx rfl (fun _ _ => rfl) fun _ _ => rfl)
    | locked key bucket => exact Or.inr ⟨i, key, bucket, rfl, hx, rfl⟩
    | returned key bucket allowed => exact Or.inl (.put hx rfl (fun _ _ => rfl) fun _ _ => rfl)

/-- The count that the slot of a key has for a minute. -/
def counted (slots : Slots) (key : String) (bucket : Nat) : Nat :=
  match slots.lookup key with
  | some (count, ts) => if ts = bucket then count.toNat else 0
  | none => 0

section Counted
variable {slots : Slots}

theorem counted_insert_self (slot : UInt64 × Nat) :
    counted (slots.insert key slot) key bucket = if slot.2 = bucket then slot.1.toNat else 0 := by
  rw [counted, AList.lookup_insert]

theorem counted_insert_ne {key' : String} (hne : key' ≠ key) (slot : UInt64 × Nat) :
    counted (slots.insert key slot) key' bucket = counted slots key' bucket := by
  rw [counted, AList.lookup_insert_ne hne, counted]

theorem counted_eq_zero (h : ∀ slot ∈ slots.lookup key, slot.2 ≠ bucket) :
    counted slots key bucket = 0 := by
  unfold counted
  cases hslot : slots.lookup key with
  | none => rfl
  | some slot => exact if_neg (h slot hslot)

end Counted

/-- The update answers as a counter of the minute would that is where the slot
is, and takes the slot over for its minute. -/
theorem update_spec {slots : Slots} (limit : UInt64) (bucket : Nat)
    (hwrap : ∀ slot ∈ slots.lookup key, slot.2 = bucket → slot.1.toNat + 1 < UInt64.size) :
    ∃ count : UInt64, count.toNat = counted slots key bucket + 1 ∧
      update limit slots key bucket =
        (decide (counted slots key bucket + 1 ≤ limit.toNat), slots.insert key (count, bucket)) := by
  unfold update counted
  cases hslot : slots.lookup key with
  | none => exact ⟨1, rfl, rfl⟩
  | some slot =>
    obtain ⟨count, ts⟩ := slot
    by_cases hts : ts = bucket
    · subst hts
      have hsucc : (count + 1).toNat = count.toNat + 1 := by
        rw [UInt64.toNat_add]
        exact Nat.mod_eq_of_lt (hwrap _ hslot rfl)
      refine ⟨count + 1, ?_, ?_⟩
      · simp [hsucc]
      · simp [UInt64.le_iff_toNat_le, hsucc]
    · refine ⟨1, ?_, ?_⟩
      · simp [hts]
      · simp [hts, UInt64.le_iff_toNat_le]

/-! ## Updates in order -/

/-- A call that has the mutex finds its key's slot, if there is one, at its own
minute or an earlier one, and not at the largest count of its own. -/
def InOrder (s : Limiter) (m : Move) : Prop :=
  ∀ i key bucket, m = .advance i → s.tasks[i]? = some (.locked key bucket) →
    ∀ slot ∈ s.shared.slots.lookup key,
      slot.2 ≤ bucket ∧ (slot.2 = bucket → slot.1.toNat + 1 < UInt64.size)

def OrderlyStep (limit : UInt64) (s : Limiter) (m : Move) (s' : Limiter) : Prop :=
  Step limit s m s' ∧ InOrder s m

/-- The slots have the counts of all minutes that they have not passed, and the
calls were admitted as the counters would have. -/
structure Counts (limit : UInt64) (s : Limiter) : Prop where
  slots : ∀ key bucket, (∀ slot ∈ s.shared.slots.lookup key, slot.2 ≤ bucket) →
    calls s key bucket = counted s.shared.slots key bucket
  answers : ∀ key bucket, admitted s key bucket = redisAdmitted limit (calls s key bucket)

theorem Counts.fresh (limit : UInt64) (now : Nat) : Counts limit (fresh now) where
  slots _ _ _ := rfl
  answers _ _ := rfl

theorem Counts.quiet (h : Counts limit s) (hquiet : Quiet s s') : Counts limit s' where
  slots key bucket hpassed := by
    rw [hquiet.slots] at hpassed ⊢
    rw [hquiet.calls]
    exact h.slots key bucket hpassed
  answers key bucket := by
    rw [hquiet.admitted, hquiet.calls]
    exact h.answers key bucket

theorem calls_put_returned {e : Shared} {allowed : Bool}
    (hx : s.tasks[i]? = some (.locked key bucket)) (key' : String) (bucket' : Nat) :
    calls (s.put i (.returned key bucket allowed, e)) key' bucket' =
      calls s key' bucket' + (decide (key = key' ∧ bucket = bucket')).toNat :=
  count_put (f := isReturned key' bucket') (x := (Point.returned key bucket allowed, e)) hx

theorem admitted_put_returned {e : Shared} {allowed : Bool}
    (hx : s.tasks[i]? = some (.locked key bucket)) (key' : String) (bucket' : Nat) :
    admitted (s.put i (.returned key bucket allowed, e)) key' bucket' =
      admitted s key' bucket' + (decide (key = key' ∧ bucket = bucket') && allowed).toNat :=
  count_put (f := isAdmitted key' bucket') (x := (Point.returned key bucket allowed, e)) hx

theorem Counts.afterUpdate (h : Counts limit s) (hx : s.tasks[i]? = some (.locked key bucket))
    (horder : ∀ slot ∈ s.shared.slots.lookup key,
      slot.2 ≤ bucket ∧ (slot.2 = bucket → slot.1.toNat + 1 < UInt64.size)) :
    Counts limit (s.put i (.returned key bucket (update limit s.shared.slots key bucket).1,
      { s.shared with slots := (update limit s.shared.slots key bucket).2 })) := by
  obtain ⟨count, hcount, hupdate⟩ :=
    update_spec limit bucket fun slot hslot => (horder slot hslot).2
  have hnow : calls s key bucket = counted s.shared.slots key bucket :=
    h.slots key bucket fun slot hslot => (horder slot hslot).1
  rw [hupdate]
  refine ⟨?_, ?_⟩
  · intro key' bucket' hpassed
    rw [put_shared] at hpassed ⊢
    dsimp only at hpassed ⊢
    rw [calls_put_returned hx]
    by_cases hkey : key = key'
    · subst hkey
      have hlater : bucket ≤ bucket' := hpassed _ (AList.lookup_insert _)
      rw [counted_insert_self]
      by_cases hbucket : bucket = bucket'
      · subst hbucket
        simp [hnow, hcount]
      · have hzero : calls s key bucket' = 0 := by
          rw [h.slots key bucket' fun slot hslot => Nat.le_trans (horder slot hslot).1 hlater]
          refine counted_eq_zero fun slot hslot => Nat.ne_of_lt ?_
          exact Nat.lt_of_le_of_lt (horder slot hslot).1 (Nat.lt_of_le_of_ne hlater hbucket)
        simp [hbucket, hzero]
    · rw [AList.lookup_insert_ne (Ne.symm hkey)] at hpassed
      rw [counted_insert_ne (Ne.symm hkey), ← h.slots key' bucket' hpassed]
      simp [hkey]
  · intro key' bucket'
    rw [calls_put_returned hx, admitted_put_returned hx, h.answers]
    by_cases hsame : key = key' ∧ bucket = bucket'
    · obtain ⟨rfl, rfl⟩ := hsame
      simp [redisAdmitted_succ, hnow]
    · simp [hsame]

theorem OrderlyStep.counts (hs : OrderlyStep limit s m s') (h : Counts limit s) :
    Counts limit s' := by
  rcases hs.1.quiet_or_update with hquiet | ⟨i, key, bucket, rfl, hx, rfl⟩
  · exact h.quiet hquiet
  · exact h.afterUpdate hx (hs.2 i key bucket rfl hx)

/-- **The in-memory limit**: in a run in which the calls update their slots in
the order of their minutes, each key and minute admits no more calls than the
limit, and as many as the Redis backend's counter. -/
theorem admitted_le_limit (limit : UInt64) (now : Nat) (moves : List Move) (s : Limiter)
    (hrun : Run (OrderlyStep limit) (fresh now) moves s) (key : String) (bucket : Nat) :
    admitted s key bucket ≤ limit.toNat ∧
      admitted s key bucket = redisAdmitted limit (calls s key bucket) := by
  have hcounts : Counts limit s :=
    Run.invariant (.fresh limit now) (fun _ _ _ h hs => hs.counts h) hrun
  have hadmitted := hcounts.answers key bucket
  refine ⟨?_, hadmitted⟩
  rw [hadmitted, redisAdmitted_eq]
  exact Nat.min_le_right _ _

/-- `InOrder`, evaluated. -/
def orderly (s : Limiter) : Move → Bool
  | .advance i =>
    match s.tasks[i]? with
    | some (.locked key bucket) =>
      (s.shared.slots.lookup key).all fun slot =>
        decide (slot.2 ≤ bucket ∧ (slot.2 = bucket → slot.1.toNat + 1 < UInt64.size))
    | _ => true
  | _ => true

theorem inOrder_of_orderly (h : orderly s m = true) : InOrder s m := by
  rintro i key bucket rfl hx slot hslot
  rw [orderly, hx] at h
  exact of_decide_eq_true ((Option.all_eq_true _ _).mp h slot hslot)

/-- Two calls that read the same minute before either of them has counted, and a
third of the next minute, with a limit of one. The second finds the slot of the
first and is refused, the third finds it and takes it over. -/
theorem admitted_le_limit_three :
    ∃ s, Run (OrderlyStep 1) (fresh 59)
        [.advance 2, .advance 2, .advance 1, .advance 2, .advance 1, .start "client", .tick 1,
          .advance 0, .advance 0, .advance 1, .advance 0, .start "client", .start "client"] s ∧
      (calls s "client" 0 = 2 ∧ admitted s "client" 0 = 1) ∧
      (calls s "client" 1 = 1 ∧ admitted s "client" 1 = 1) ∧
      (admitted s "client" 0 ≤ (1 : UInt64).toNat ∧
        admitted s "client" 0 = redisAdmitted 1 (calls s "client" 0)) := by
  have hplay : (play (after 1) orderly (fresh 59)
      [.advance 2, .advance 2, .advance 1, .advance 2, .advance 1, .start "client", .tick 1,
        .advance 0, .advance 0, .advance 1, .advance 0, .start "client", .start "client"]).map
      (fun s => (calls s "client" 0, admitted s "client" 0, calls s "client" 1,
        admitted s "client" 1)) = some (2, 1, 1, 1) := by
    decide
  obtain ⟨s, hs, hcounts⟩ := Option.map_eq_some_iff.mp hplay
  simp only [Prod.mk.injEq] at hcounts
  obtain ⟨hcalls, hadmitted, hcalls', hadmitted'⟩ := hcounts
  have hrun : Run (OrderlyStep 1) (fresh 59) _ s :=
    (run_of_play hs).mono fun _ _ _ h => ⟨h.2, inOrder_of_orderly h.1⟩
  exact ⟨s, hrun, ⟨hcalls, hadmitted⟩, ⟨hcalls', hadmitted'⟩, admitted_le_limit 1 59 _ s hrun _ _⟩

/-- Three calls with a limit of one. The first and the last read the same minute,
the second reads the next one and updates the slot between them. -/
theorem late_call_reopens_minute :
    ∃ s, Run (Step 1) (fresh 59)
        [.advance 2, .advance 2, .advance 1, .advance 1, .advance 0, .advance 0, .advance 1, .tick 1,
          .advance 2, .advance 0, .start "client", .start "client", .start "client"] s ∧
      admitted s "client" 0 = 2 := by
  have hplay : (play (after 1) (fun _ _ => true) (fresh 59)
      [.advance 2, .advance 2, .advance 1, .advance 1, .advance 0, .advance 0, .advance 1, .tick 1,
        .advance 2, .advance 0, .start "client", .start "client", .start "client"]).map
      (admitted · "client" 0) = some 2 := rfl
  obtain ⟨s, hs, hadmitted⟩ := Option.map_eq_some_iff.mp hplay
  exact ⟨s, run_of_play_true hs, hadmitted⟩

end Axionvera.Node.RateLimiter

import Axionvera.Node.RateLimiter

/-! # The Redis backend of the rate limiter

`allow` of `rate_limiter.rs` with Redis behind it: a call reads the clock of its
node, sends `INCR` for the key of its client and minute, then `EXPIRE`, and
compares the count. Redis is a parameter, of which the documented behaviour of
the two commands is assumed; it has a clock of its own. Any number of nodes share
the counters, each with its own clock; a command may be lost, or carried out and
not answered, and then the call fails.

A counter lives for seventy seconds after the last `EXPIRE`. Calls whose `INCR`
reaches Redis before the seventy seconds are over that begin when the first clock
can have shown their minute find it alive, and of these no more than the limit
are admitted, whatever the interleaving. One call at a time, this backend answers
like the one in memory. Times are in milliseconds. -/
namespace Axionvera.Node.RedisLimiter
open Axionvera.Lib.Interleaving Axionvera.Lib.Transition
open Axionvera.Node.RateLimiter (Slots update update_spec counted counted_eq_zero)

/-! ## Redis -/

/-- A key that holds a number, and when it expires. -/
structure Counter where
  count : Nat
  expiresAt : Option Nat
  deriving DecidableEq

def Counter.live (now : Nat) (c : Counter) : Bool :=
  match c.expiresAt with
  | none => true
  | some t => decide (now < t)

/-- The largest count that `INCR` makes; past it the command is an error. -/
def maxCount : Nat := 9223372036854775807

/-- A Redis server. Each command is carried out at a time of the server's clock. -/
structure Redis where
  State : Type
  /-- `INCR name`, with the number it replies, if it is no error. -/
  incr : (now : Nat) → (name : String) → State → Option Nat × State
  /-- `EXPIRE name seconds`. -/
  expire : (now : Nat) → (name : String) → (seconds : Nat) → State → State
  /-- What `GET` and `PEXPIRETIME` show of a counter. -/
  find : (now : Nat) → (name : String) → State → Option Counter

/-- The number that `INCR` starts from: a missing key counts as zero. -/
def Redis.count (R : Redis) (now : Nat) (name : String) (state : R.State) : Nat :=
  ((R.find now name state).map Counter.count).getD 0

/-- What the documentation says of the commands. -/
structure Redis.Documented (R : Redis) : Prop where
  /-- A key is there until it expires. -/
  find_later : ∀ (now later : Nat) (name : String) (state : R.State), now ≤ later →
    R.find later name state = (R.find now name state).filter fun c => c.live later
  incr_reply : ∀ (now : Nat) (name : String) (state : R.State), (R.incr now name state).1 =
    if R.count now name state + 1 ≤ maxCount then some (R.count now name state + 1) else none
  /-- `INCR` keeps the expiry, and an error changes nothing. -/
  incr_self : ∀ (now : Nat) (name : String) (state : R.State),
    R.find now name (R.incr now name state).2 =
      if R.count now name state + 1 ≤ maxCount then
        some ⟨R.count now name state + 1, (R.find now name state).bind Counter.expiresAt⟩
      else R.find now name state
  incr_other : ∀ (now : Nat) (name other : String) (state : R.State), other ≠ name →
    R.find now other (R.incr now name state).2 = R.find now other state
  expire_self : ∀ (now : Nat) (name : String) (seconds : Nat) (state : R.State), 0 < seconds →
    R.find now name (R.expire now name seconds state) =
      (R.find now name state).map fun c => { c with expiresAt := some (now + 1000 * seconds) }
  expire_other : ∀ (now : Nat) (name other : String) (seconds : Nat) (state : R.State),
    other ≠ name → R.find now other (R.expire now name seconds state) = R.find now other state

section Commands
variable {R : Redis} {now later seconds : Nat} {name other : String} {state : R.State} {c : Counter}

/-- A key that is there and does not expire before some time is there at that time. -/
theorem Redis.Documented.find_of_live (hR : R.Documented) (hle : now ≤ later)
    (hlive : ∀ c ∈ R.find now name state, c.live later = true) :
    R.find later name state = R.find now name state := by
  rw [hR.find_later now later name state hle]
  cases hc : R.find now name state with
  | none => rfl
  | some c => simp [hlive c hc]

theorem Redis.Documented.count_incr_self (hR : R.Documented) :
    R.count now name (R.incr now name state).2 =
      if R.count now name state + 1 ≤ maxCount then R.count now name state + 1
      else R.count now name state := by
  rw [Redis.count, hR.incr_self]
  split
  · rfl
  · rfl

theorem Redis.Documented.count_incr_other (hR : R.Documented) (hne : other ≠ name) :
    R.count now other (R.incr now name state).2 = R.count now other state := by
  rw [Redis.count, hR.incr_other now name other state hne, Redis.count]

/-- `EXPIRE` changes no count. -/
theorem Redis.Documented.count_expire (hR : R.Documented) (hseconds : 0 < seconds)
    (other : String) :
    R.count now other (R.expire now name seconds state) = R.count now other state := by
  by_cases hne : other = name
  · subst hne
    rw [Redis.count, hR.expire_self now other seconds state hseconds, Option.map_map, Redis.count]
    rfl
  · rw [Redis.count, hR.expire_other now name other seconds state hne, Redis.count]

end Commands

/-! ## Names -/

/-- `format!("rate:{}:{}", key, bucket)`. -/
def redisKey (key : String) (bucket : Nat) : String := s!"rate:{key}:{bucket}"

/-! Names of different clients or minutes differ, although the name of a client
may contain colons: there is none behind the last one. -/

/-- What stands around the first separator is determined. -/
theorem split_inj {α : Type} {a : α} {xs ys us vs : List α} (hx : a ∉ xs) (hu : a ∉ us)
    (h : xs ++ a :: ys = us ++ a :: vs) : xs = us ∧ ys = vs := by
  induction xs generalizing us with
  | nil =>
    cases us with
    | nil => exact ⟨rfl, (List.cons.inj h).2⟩
    | cons u us => exact absurd (List.cons.inj h).1 fun heq => hu (heq ▸ List.mem_cons_self)
  | cons x xs ih =>
    cases us with
    | nil => exact absurd (List.cons.inj h).1 fun heq => hx (heq ▸ List.mem_cons_self)
    | cons u us =>
      obtain ⟨rfl, hrest⟩ := List.cons.inj h
      obtain ⟨rfl, rfl⟩ := ih (fun hm => hx (List.mem_cons_of_mem _ hm))
        (fun hm => hu (List.mem_cons_of_mem _ hm)) hrest
      exact ⟨rfl, rfl⟩

theorem colon_notMem_digits (n : Nat) : ':' ∉ Nat.toDigits 10 n := by
  intro hmem
  have hdigit := Nat.isDigit_of_mem_toDigits (by decide) (by decide) hmem
  exact absurd hdigit (by decide)

theorem redisKey_toList (key : String) (bucket : Nat) : (redisKey key bucket).toList =
    "rate:".toList ++ (key.toList ++ ':' :: Nat.toDigits 10 bucket) := by
  simp [redisKey, toString, Nat.repr_eq_ofList_toDigits]

theorem redisKey_inj {key key' : String} {bucket bucket' : Nat}
    (h : redisKey key bucket = redisKey key' bucket') : key = key' ∧ bucket = bucket' := by
  have hlist := congrArg String.toList h
  rw [redisKey_toList, redisKey_toList] at hlist
  have hsuffix := congrArg List.reverse (List.append_cancel_left hlist)
  simp only [List.reverse_append, List.reverse_cons, List.append_assoc, List.singleton_append]
    at hsuffix
  obtain ⟨hdigits, hkey⟩ := split_inj (by simpa using colon_notMem_digits bucket)
    (by simpa using colon_notMem_digits bucket') hsuffix
  refine ⟨String.toList_injective (List.reverse_injective hkey), ?_⟩
  have hnumber := congrArg (fun ds => Nat.ofDigitChars 10 ds 0) (List.reverse_injective hdigits)
  simpa [Nat.ofDigitChars_toDigits] using hnumber

/-! ## Concurrent calls -/

/-- The minute of a time: `as_secs() / 60`. -/
def minute (time : Nat) : Nat := time / 1000 / 60

theorem minute_le (time : Nat) : 60000 * minute time ≤ time := by
  unfold minute
  omega

theorem lt_minute (time : Nat) : time < 60000 * minute time + 60000 := by
  unfold minute
  omega

theorem minute_mono {time time' : Nat} (h : time ≤ time') : minute time ≤ minute time' := by
  unfold minute
  omega

/-- What becomes of a command. -/
inductive Fault where
  | none
  | lost
  /-- Carried out, but the answer does not arrive. -/
  | unanswered

/-- Where a call is in `allow`; it ends with an answer or an error. -/
inductive Point where
  | begun (key : String)
  | clocked (key : String) (bucket : Nat)
  | incremented (key : String) (bucket count : Nat)
  | returned (key : String) (bucket : Nat) (answer : Option Bool)
  deriving DecidableEq

structure Shared (R : Redis) where
  /-- The clock of Redis. -/
  now : Nat
  state : R.State

/-- A step of a call. `reading` is what the clock of its node shows. -/
def step (R : Redis) (limitPerMinute : UInt64) (reading : Nat) (fault : Fault) :
    Point → Shared R → Point × Shared R
  | .begun key, e => (.clocked key (minute reading), e)
  | .clocked key bucket, e =>
    let sent := R.incr e.now (redisKey key bucket) e.state
    match fault with
    | .lost => (.returned key bucket .none, e)
    | .unanswered => (.returned key bucket .none, { e with state := sent.2 })
    | .none =>
      match sent.1 with
      | some count => (.incremented key bucket count, { e with state := sent.2 })
      | .none => (.returned key bucket .none, { e with state := sent.2 })
  | .incremented key bucket count, e =>
    let sent := R.expire e.now (redisKey key bucket) 70 e.state
    match fault with
    | .lost => (.returned key bucket .none, e)
    | .unanswered => (.returned key bucket .none, { e with state := sent })
    | .none =>
      (.returned key bucket (some (decide (count ≤ limitPerMinute.toNat))),
        { e with state := sent })
  | .returned key bucket answer, e => (.returned key bucket answer, e)

abbrev Limiter (R : Redis) : Type := System Point (Shared R)

inductive Move where
  | start (key : String)
  | advance (place reading : Nat) (fault : Fault)
  | tick (ms : Nat)

def after (R : Redis) (limitPerMinute : UInt64) (s : Limiter R) : Move → Option (Limiter R)
  | .start key => some (s.start (.begun key))
  | .advance i reading fault =>
    (s.tasks[i]?).map fun x => s.put i (step R limitPerMinute reading fault x s.shared)
  | .tick ms => some { s with shared := { s.shared with now := s.shared.now + ms } }

def Step (R : Redis) (limitPerMinute : UInt64) (s : Limiter R) (m : Move) (s' : Limiter R) : Prop :=
  after R limitPerMinute s m = some s'

/-- No calls yet. -/
def opened {R : Redis} (now : Nat) (state : R.State) : Limiter R := ⟨⟨now, state⟩, []⟩

/-- Redis has no counters of the limiter. -/
def Unused (R : Redis) (now : Nat) (state : R.State) : Prop :=
  ∀ key bucket, R.find now (redisKey key bucket) state = none

section Calls
variable {R : Redis} {limit : UInt64} {s s' : Limiter R} {m : Move} {moves : List Move} {x : Point}
  {key : String} {bucket i now ahead reading : Nat} {fault : Fault}

/-- A call that reads the clock next. -/
def reads : Point → Bool
  | .begun _ => true
  | _ => false

/-- The minute of a call that sends its `INCR` next. -/
def sending : Point → Option Nat
  | .clocked _ bucket => some bucket
  | _ => none

/-- No clock that is read is further ahead of Redis than `ahead`, and an `INCR`
reaches Redis less than seventy seconds, and that much, after its minute began. -/
def Prompt (ahead : Nat) (s : Limiter R) : Move → Prop
  | .advance i reading _ => ∀ x ∈ s.tasks[i]?,
    (reads x = true → reading ≤ s.shared.now + ahead) ∧
      ∀ bucket ∈ sending x, s.shared.now + ahead < 60000 * bucket + 70000
  | _ => True

instance : DecidablePred (Prompt ahead s)
  | .advance i _ _ =>
    inferInstanceAs (Decidable (∀ x ∈ s.tasks[i]?, (reads x = true → _) ∧ ∀ bucket ∈ sending x, _))
  | .start _ => .isTrue trivial
  | .tick _ => .isTrue trivial

def PromptStep (R : Redis) (ahead : Nat) (limit : UInt64) (s : Limiter R) (m : Move)
    (s' : Limiter R) : Prop :=
  Step R limit s m s' ∧ Prompt ahead s m

/-! ## What has been admitted -/

def isAdmitted (key : String) (bucket : Nat) : Point → Bool
  | .returned key' bucket' (some allowed) => decide (key' = key ∧ bucket' = bucket) && allowed
  | _ => false

/-- How many calls for this key that read this minute have returned true. -/
def admitted (s : Limiter R) (key : String) (bucket : Nat) : Nat := s.count (isAdmitted key bucket)

/-- A call that has returned true, or will if nothing fails. -/
def isGranted (limit : UInt64) (key : String) (bucket : Nat) : Point → Bool
  | .incremented key' bucket' count =>
    decide (key' = key ∧ bucket' = bucket) && decide (count ≤ limit.toNat)
  | .returned key' bucket' (some allowed) => decide (key' = key ∧ bucket' = bucket) && allowed
  | _ => false

def granted (limit : UInt64) (s : Limiter R) (key : String) (bucket : Nat) : Nat :=
  s.count (isGranted limit key bucket)

theorem admitted_le_granted (limit : UInt64) (s : Limiter R) (key : String) (bucket : Nat) :
    admitted s key bucket ≤ granted limit s key bucket := by
  refine List.countP_mono_left fun x _ hx => ?_
  cases x with
  | returned key' bucket' answer =>
    cases answer with
    | none => cases hx
    | some allowed => exact hx
  | _ => cases hx

/-- The minute that a call has read. -/
def minuteOf : Point → Option Nat
  | .begun _ => none
  | .clocked _ bucket => some bucket
  | .incremented _ bucket _ => some bucket
  | .returned _ bucket _ => some bucket

/-- An `INCR` for the minute may still come. -/
def Open (ahead now bucket : Nat) : Prop := now + ahead < 60000 * bucket + 70000

/-- No counter expires while an `INCR` for its minute may still come. -/
def Lasting (R : Redis) (ahead now : Nat) (state : R.State) : Prop :=
  ∀ key bucket, ∀ c ∈ R.find now (redisKey key bucket) state, ∀ t ∈ c.expiresAt,
    60000 * bucket + 70000 ≤ t + ahead

section Lasting
variable {state : R.State}

theorem Lasting.live (h : Lasting R ahead now state) {later : Nat}
    (hopen : Open ahead later bucket) (key : String) :
    ∀ c ∈ R.find now (redisKey key bucket) state, c.live later = true := by
  intro c hc
  unfold Counter.live
  split
  · rfl
  · rename_i t ht
    have hlast := h key bucket c hc t ht
    unfold Open at hopen
    exact decide_eq_true (by omega)

theorem Lasting.later (h : Lasting R ahead now state) (hR : R.Documented) {later : Nat}
    (hle : now ≤ later) : Lasting R ahead later state := by
  intro key bucket c hc
  rw [hR.find_later now later _ _ hle] at hc
  exact h key bucket c (Option.filter_eq_some_iff.mp hc).1

theorem Lasting.incr (h : Lasting R ahead now state) (hR : R.Documented) (key : String)
    (bucket : Nat) : Lasting R ahead now (R.incr now (redisKey key bucket) state).2 := by
  intro key' bucket' c hc t ht
  by_cases hname : redisKey key' bucket' = redisKey key bucket
  · rw [hname, hR.incr_self] at hc
    split at hc
    · cases hc
      obtain ⟨c, hc, ht⟩ := Option.bind_eq_some_iff.mp ht
      exact h key' bucket' c (hname ▸ hc) t ht
    · exact h key' bucket' c (hname ▸ hc) t ht
  · rw [hR.incr_other _ _ _ _ hname] at hc
    exact h key' bucket' c hc t ht

theorem Lasting.expire (h : Lasting R ahead now state) (hR : R.Documented) (key : String)
    (hclock : 60000 * bucket ≤ now + ahead) :
    Lasting R ahead now (R.expire now (redisKey key bucket) 70 state) := by
  intro key' bucket' c hc t ht
  by_cases hname : redisKey key' bucket' = redisKey key bucket
  · obtain ⟨rfl, rfl⟩ := redisKey_inj hname
    rw [hR.expire_self _ _ _ _ (by decide)] at hc
    obtain ⟨c, -, rfl⟩ := Option.map_eq_some_iff.mp hc
    cases ht
    omega
  · rw [hR.expire_other _ _ _ _ _ hname] at hc
    exact h key' bucket' c hc t ht

end Lasting

/-- What holds along prompt runs: while an `INCR` for a minute may still come, its
counter counts at least what is granted. -/
structure Sane (R : Redis) (ahead : Nat) (limit : UInt64) (s : Limiter R) : Prop where
  clock : ∀ x ∈ s.tasks, ∀ bucket ∈ minuteOf x, 60000 * bucket ≤ s.shared.now + ahead
  lasting : Lasting R ahead s.shared.now s.shared.state
  within : ∀ key bucket, granted limit s key bucket ≤ limit.toNat
  counted : ∀ key bucket, Open ahead s.shared.now bucket →
    granted limit s key bucket ≤ R.count s.shared.now (redisKey key bucket) s.shared.state

theorem sane_opened {state : R.State} (hunused : Unused R now state) :
    Sane R ahead limit (opened now state) where
  clock x hx := absurd hx List.not_mem_nil
  lasting key bucket c hc := by
    have hnone := hunused key bucket
    rw [show R.find now (redisKey key bucket) state = some c from hc] at hnone
    cases hnone
  within _ _ := Nat.zero_le _
  counted _ _ _ := Nat.zero_le _

/-- A call moves on: no counter goes down, and where a call is granted its counter
goes up, within the limit. -/
theorem Sane.put (h : Sane R ahead limit s) (hx : s.tasks[i]? = some x) {y : Point}
    {e : Shared R} (hnow : e.now = s.shared.now)
    (hminute : ∀ bucket ∈ minuteOf y, 60000 * bucket ≤ s.shared.now + ahead)
    (hlasting : Lasting R ahead e.now e.state)
    (hcount : ∀ key bucket, R.count s.shared.now (redisKey key bucket) s.shared.state ≤
      R.count e.now (redisKey key bucket) e.state)
    (hgranted : ∀ key bucket, isGranted limit key bucket y = true →
      isGranted limit key bucket x = true ∨ Open ahead s.shared.now bucket ∧
        R.count s.shared.now (redisKey key bucket) s.shared.state + 1 ≤
          R.count e.now (redisKey key bucket) e.state ∧
        R.count s.shared.now (redisKey key bucket) s.shared.state + 1 ≤ limit.toNat) :
    Sane R ahead limit (s.put i (y, e)) := by
  have hmoved : ∀ key bucket,
      granted limit (s.put i (y, e)) key bucket ≤ granted limit s key bucket ∨
        granted limit (s.put i (y, e)) key bucket ≤ granted limit s key bucket + 1 ∧
          Open ahead s.shared.now bucket ∧
          R.count s.shared.now (redisKey key bucket) s.shared.state + 1 ≤
            R.count e.now (redisKey key bucket) e.state ∧
          R.count s.shared.now (redisKey key bucket) s.shared.state + 1 ≤ limit.toNat := by
    intro key bucket
    have hput := count_put (f := isGranted limit key bucket) (x := (y, e)) hx
    unfold granted
    dsimp only at hput
    cases hy : isGranted limit key bucket y with
    | false =>
      rw [hy, Bool.toNat_false] at hput
      left
      omega
    | true =>
      rw [hy, Bool.toNat_true] at hput
      rcases hgranted key bucket hy with hold | hnew
      · rw [hold, Bool.toNat_true] at hput
        left
        omega
      · right
        exact ⟨by omega, hnew⟩
  refine ⟨?_, hlasting, ?_, ?_⟩
  · intro z hz bucket hb
    rw [put_shared, hnow]
    rcases mem_or_eq_of_mem_put hz with hz | rfl
    · exact h.clock z hz bucket hb
    · exact hminute bucket hb
  · intro key bucket
    have hwithin := h.within key bucket
    rcases hmoved key bucket with hle | ⟨hle, hopen, _, hlimit⟩
    · omega
    · have hcounted := h.counted key bucket hopen
      omega
  · intro key bucket hopen
    rw [put_shared, hnow] at hopen
    have hcounted := h.counted key bucket hopen
    have hmono := hcount key bucket
    show granted limit (s.put i (y, e)) key bucket ≤ R.count e.now (redisKey key bucket) e.state
    rcases hmoved key bucket with hle | ⟨hle, _, hmore, _⟩
    · omega
    · omega

/-- The `INCR` of a prompt call. -/
theorem Sane.increments (h : Sane R ahead limit s) (hR : R.Documented)
    (hx : s.tasks[i]? = some (.clocked key bucket)) (hopen : Open ahead s.shared.now bucket) :
    Sane R ahead limit (s.put i (step R limit reading fault (.clocked key bucket) s.shared)) := by
  have hclock : ∀ b ∈ some bucket, 60000 * b ≤ s.shared.now + ahead := by
    intro b hb
    exact h.clock _ (List.mem_of_getElem? hx) b hb
  have hlasting := h.lasting.incr hR key bucket
  have hcount : ∀ key' bucket',
      R.count s.shared.now (redisKey key' bucket') s.shared.state ≤
        R.count s.shared.now (redisKey key' bucket')
          (R.incr s.shared.now (redisKey key bucket) s.shared.state).2 := by
    intro key' bucket'
    by_cases hname : redisKey key' bucket' = redisKey key bucket
    · rw [hname, hR.count_incr_self]
      split
      · omega
      · exact Nat.le_refl _
    · rw [hR.count_incr_other hname]
  -- a call that fails is not granted
  have hfailed : ∀ key' bucket', isGranted limit key' bucket' (.returned key bucket none) = true →
      isGranted limit key' bucket' (.clocked key bucket) = true ∨ Open ahead s.shared.now bucket' ∧
        R.count s.shared.now (redisKey key' bucket') s.shared.state + 1 ≤
          R.count s.shared.now (redisKey key' bucket')
            (R.incr s.shared.now (redisKey key bucket) s.shared.state).2 ∧
        R.count s.shared.now (redisKey key' bucket') s.shared.state + 1 ≤ limit.toNat := by
    intro key' bucket' hg
    cases hg
  have hreply := hR.incr_reply s.shared.now (redisKey key bucket) s.shared.state
  cases fault with
  | lost =>
    refine h.put hx rfl hclock h.lasting (fun _ _ => Nat.le_refl _) fun key' bucket' hg => ?_
    cases hg
  | unanswered => exact h.put hx rfl hclock hlasting hcount hfailed
  | none =>
    simp only [step]
    split at hreply
    · rename_i hmax
      rw [hreply]
      refine h.put hx rfl hclock hlasting hcount fun key' bucket' hg => Or.inr ?_
      simp only [isGranted, Bool.and_eq_true, decide_eq_true_eq] at hg
      obtain ⟨⟨rfl, rfl⟩, hlimit⟩ := hg
      refine ⟨hopen, ?_, hlimit⟩
      rw [hR.count_incr_self, if_pos hmax]
    · rw [hreply]
      exact h.put hx rfl hclock hlasting hcount hfailed

/-- The `EXPIRE` of a call, and its answer. -/
theorem Sane.expires {count : Nat} (h : Sane R ahead limit s) (hR : R.Documented)
    (hx : s.tasks[i]? = some (.incremented key bucket count)) :
    Sane R ahead limit
      (s.put i (step R limit reading fault (.incremented key bucket count) s.shared)) := by
  have hclock : ∀ b ∈ some bucket, 60000 * b ≤ s.shared.now + ahead := by
    intro b hb
    exact h.clock _ (List.mem_of_getElem? hx) b hb
  have hlasting := h.lasting.expire hR key (hclock bucket rfl)
  have hcount : ∀ key' bucket', R.count s.shared.now (redisKey key' bucket') s.shared.state ≤
      R.count s.shared.now (redisKey key' bucket')
        (R.expire s.shared.now (redisKey key bucket) 70 s.shared.state) :=
    fun _ _ => Nat.le_of_eq (hR.count_expire (by decide) _).symm
  cases fault with
  | lost =>
    refine h.put hx rfl hclock h.lasting (fun _ _ => Nat.le_refl _) fun key' bucket' hg => ?_
    cases hg
  | unanswered =>
    refine h.put hx rfl hclock hlasting hcount fun key' bucket' hg => ?_
    cases hg
  | none => exact h.put hx rfl hclock hlasting hcount fun key' bucket' hg => Or.inl hg

theorem Sane.tick (h : Sane R ahead limit s) (hR : R.Documented) (ms : Nat) :
    Sane R ahead limit { s with shared := { s.shared with now := s.shared.now + ms } } where
  clock x hx b hb := by
    have hclock := h.clock x hx b hb
    dsimp only
    omega
  lasting := h.lasting.later hR (Nat.le_add_right _ _)
  within := h.within
  counted key bucket hopen := by
    have hbefore : Open ahead s.shared.now bucket := by
      unfold Open at hopen ⊢
      dsimp only at hopen
      omega
    have hcounted := h.counted key bucket hbefore
    rw [Redis.count] at hcounted ⊢
    rwa [hR.find_of_live (Nat.le_add_right _ _) (h.lasting.live hopen key)]

theorem Sane.step (h : Sane R ahead limit s) (hR : R.Documented)
    (hs : PromptStep R ahead limit s m s') : Sane R ahead limit s' := by
  obtain ⟨hs, hprompt⟩ := hs
  cases m with
  | start key =>
    obtain rfl := Option.some.inj hs
    have hgranted : ∀ key' bucket, granted limit (s.start (.begun key)) key' bucket =
        granted limit s key' bucket := fun _ _ => count_start
    refine ⟨fun x hx b hb => ?_, h.lasting, fun key' bucket => ?_, fun key' bucket hopen => ?_⟩
    · rcases mem_start.mp hx with hx | rfl
      · exact h.clock x hx b hb
      · cases hb
    · rw [hgranted]
      exact h.within key' bucket
    · rw [hgranted]
      exact h.counted key' bucket hopen
  | tick ms =>
    obtain rfl := Option.some.inj hs
    exact h.tick hR ms
  | advance i reading fault =>
    obtain ⟨x, hx, rfl⟩ := Option.map_eq_some_iff.mp hs
    obtain ⟨hread, hsent⟩ := hprompt x hx
    cases x with
    | begun key =>
      refine h.put hx rfl (fun b hb => ?_) h.lasting (fun _ _ => Nat.le_refl _)
        fun _ _ hg => Or.inl hg
      cases hb
      exact Nat.le_trans (minute_le reading) (hread rfl)
    | clocked key bucket => exact h.increments hR hx (hsent bucket rfl)
    | incremented key bucket count => exact h.expires hR hx
    | returned key bucket answer =>
      have hsame :
          s.put i (RedisLimiter.step R limit reading fault (.returned key bucket answer) s.shared) =
            s :=
        put_self hx
      rw [hsame]
      exact h

/-- **The limit holds for all nodes together.** However many nodes share the
counters, however their calls interleave and whichever commands are lost: of the
calls for one client that read one minute no more than the limit are admitted, if
no clock is more than `ahead` before that of Redis and each call reaches Redis
less than seventy seconds, and that much, after its minute began. -/
theorem redis_admitted_le_limit (hR : R.Documented) {state : R.State}
    (hunused : Unused R now state)
    (hr : Run (PromptStep R ahead limit) (opened now state) moves s) (key : String) (bucket : Nat) :
    admitted s key bucket ≤ limit.toNat := by
  have hsane : Sane R ahead limit s :=
    hr.invariant (sane_opened hunused) fun _ _ _ h hs => h.step hR hs
  exact Nat.le_trans (admitted_le_granted limit s key bucket) (hsane.within key bucket)

end Calls

/-! ## A server -/

theorem Counter.live_of_live {c : Counter} {now later : Nat} (hle : now ≤ later)
    (h : c.live later = true) : c.live now = true := by
  unfold Counter.live at h ⊢
  split
  · rfl
  · rename_i t ht
    rw [ht] at h
    exact decide_eq_true (Nat.lt_of_le_of_lt hle (of_decide_eq_true h))

/-- Counters in a list; what has expired is not looked at. -/
abbrev Store : Type := AList fun _ : String => Counter

namespace Store

def find (now : Nat) (name : String) (store : Store) : Option Counter :=
  (store.lookup name).filter fun c => c.live now

def incr (now : Nat) (name : String) (store : Store) : Option Nat × Store :=
  let count := ((store.find now name).map Counter.count).getD 0 + 1
  if count ≤ maxCount then
    (some count, store.insert name ⟨count, (store.find now name).bind Counter.expiresAt⟩)
  else (none, store)

def expire (now : Nat) (name : String) (seconds : Nat) (store : Store) : Store :=
  match store.find now name with
  | some c => store.insert name { c with expiresAt := some (now + 1000 * seconds) }
  | none => store

theorem find_insert_self {store : Store} {now : Nat} {name : String} {c : Counter}
    (hlive : c.live now = true) : find now name (store.insert name c) = some c := by
  rw [find, AList.lookup_insert, Option.filter_some, if_pos hlive]

theorem find_insert_ne {store : Store} {now : Nat} {name other : String} {c : Counter}
    (hne : other ≠ name) : find now other (store.insert name c) = find now other store := by
  rw [find, AList.lookup_insert_ne hne, find]

theorem live_of_find {store : Store} {now : Nat} {name : String} {c : Counter}
    (h : find now name store = some c) : c.live now = true :=
  (Option.filter_eq_some_iff.mp h).2

theorem find_later (store : Store) (now later : Nat) (name : String) (hle : now ≤ later) :
    store.find later name = (store.find now name).filter fun c => c.live later := by
  rw [find, find, Option.filter_filter]
  congr 1
  funext c
  cases hlive : c.live later with
  | false => rw [Bool.and_false]
  | true => rw [Bool.and_true, Counter.live_of_live hle hlive]

theorem find_incr_self (store : Store) (now : Nat) (name : String) :
    find now name (store.incr now name).2 =
      if ((store.find now name).map Counter.count).getD 0 + 1 ≤ maxCount then
        some ⟨((store.find now name).map Counter.count).getD 0 + 1,
          (store.find now name).bind Counter.expiresAt⟩
      else store.find now name := by
  rw [incr]
  split
  · refine find_insert_self ?_
    cases hfound : store.find now name with
    | none => rfl
    | some c =>
      have hlive : c.live now = true := live_of_find hfound
      exact hlive
  · rfl

theorem find_incr_ne (store : Store) (now : Nat) {name other : String} (hne : other ≠ name) :
    find now other (store.incr now name).2 = store.find now other := by
  rw [incr]
  split
  · exact find_insert_ne hne
  · rfl

theorem find_expire_self (store : Store) (now : Nat) (name : String) {seconds : Nat}
    (hseconds : 0 < seconds) : find now name (store.expire now name seconds) =
      (store.find now name).map fun c => { c with expiresAt := some (now + 1000 * seconds) } := by
  rw [expire]
  split
  · rename_i c hfound
    have hlive : Counter.live now { c with expiresAt := some (now + 1000 * seconds) } = true :=
      decide_eq_true (by omega)
    rw [hfound, find_insert_self hlive]
    rfl
  · rename_i hfound
    rw [hfound]
    rfl

theorem find_expire_ne (store : Store) (now : Nat) {name other : String} (seconds : Nat)
    (hne : other ≠ name) :
    find now other (store.expire now name seconds) = store.find now other := by
  rw [expire]
  split
  · exact find_insert_ne hne
  · rfl

end Store

def inMemory : Redis where
  State := Store
  incr := Store.incr
  expire := Store.expire
  find := Store.find

theorem inMemory_documented : inMemory.Documented where
  find_later now later name store hle := Store.find_later store now later name hle
  incr_reply _ _ _ := apply_ite Prod.fst _ _ _
  incr_self now name store := Store.find_incr_self store now name
  incr_other now _ _ store hne := Store.find_incr_ne store now hne
  expire_self now name _ store hseconds := Store.find_expire_self store now name hseconds
  expire_other now _ _ seconds store hne := Store.find_expire_ne store now seconds hne

theorem unused_empty (now : Nat) : Unused inMemory now (∅ : Store) := fun _ _ => rfl

/-- The limiter after some moves, latest first, from an empty server on. -/
def afterwards (limit : UInt64) (moves : List Move) : Limiter inMemory :=
  (play (after inMemory limit) (fun _ _ => true) (opened 0 (∅ : Store)) moves).getD
    (opened 0 (∅ : Store))

/-- Two calls at a time, with a limit of one. The clocks of their nodes differ by
eight seconds. -/
def crowded : List Move :=
  [.advance 1 0 .none, .advance 0 0 .none, .advance 1 0 .none, .advance 0 0 .none,
    .advance 1 53000 .none, .advance 0 45000 .none, .tick 50000, .start "client", .start "client"]

theorem redis_admitted_le_limit_crowded :
    Run (PromptStep inMemory 3000 1) (opened 0 (∅ : Store)) crowded (afterwards 1 crowded) ∧
    (afterwards 1 crowded).tasks =
      [.returned "client" 0 (some true), .returned "client" 0 (some false)] ∧
    admitted (afterwards 1 crowded) "client" 0 ≤ (1 : UInt64).toNat := by
  have hplay : play (after inMemory 1) (fun s m => decide (Prompt 3000 s m)) (opened 0 (∅ : Store))
      crowded = some (afterwards 1 crowded) := rfl
  have hrun : Run (PromptStep inMemory 3000 1) (opened 0 (∅ : Store)) crowded
      (afterwards 1 crowded) := by
    refine (run_of_play hplay).mono fun s m s' hs => ?_
    exact ⟨hs.2, of_decide_eq_true hs.1⟩
  exact ⟨hrun, rfl, redis_admitted_le_limit inMemory_documented (unused_empty 0) hrun "client" 0⟩

/-- The seventy seconds are all there is: the first call is of the minute that its
clock shows five seconds early, and a call that comes seventy seconds after it,
still of that minute, finds its counter gone. -/
theorem late_call_counts_anew :
    ∃ s, Run (Step inMemory 1) (opened 55000 (∅ : Store))
        [.advance 1 0 .none, .advance 1 0 .none, .tick 7000, .advance 1 118000 .none, .tick 63000,
          .advance 0 0 .none, .advance 0 0 .none, .advance 0 60000 .none, .start "client",
          .start "client"] s ∧
      admitted s "client" 1 = 2 :=
  ⟨_, run_of_play_true rfl, rfl⟩

/-! ## One call at a time -/

/-- A call of `allow`: what the clock of the node shows, and when, by its own
clock, Redis carries out the two commands. -/
structure Request where
  key : String
  reading : Nat
  incrAt : Nat
  expireAt : Nat

def Request.bucket (q : Request) : Nat := minute q.reading

def Request.name (q : Request) : String := redisKey q.key q.bucket

/-- `allow` with the Redis backend, without faults. -/
def redisAllow (R : Redis) (limitPerMinute : UInt64) (q : Request) (state : R.State) :
    Option Bool × R.State :=
  let sent := R.incr q.incrAt q.name state
  match sent.1 with
  | some count =>
    (some (decide (count ≤ limitPerMinute.toNat)), R.expire q.expireAt q.name 70 sent.2)
  | none => (none, sent.2)

variable {R : Redis} {limit : UInt64} {now : Nat}

section Allow
variable {q : Request} {state : R.State} {count : Nat}

theorem redisAllow_of_count (hcount : (R.incr q.incrAt q.name state).1 = some count) :
    redisAllow R limit q state = (some (decide (count ≤ limit.toNat)),
      R.expire q.expireAt q.name 70 (R.incr q.incrAt q.name state).2) := by
  simp [redisAllow, hcount]

theorem redisAllow_of_error (hcount : (R.incr q.incrAt q.name state).1 = none) :
    redisAllow R limit q state = (none, (R.incr q.incrAt q.name state).2) := by
  simp [redisAllow, hcount]

/-- A call that nothing interrupts does this. -/
theorem alone_redisAllow (R : Redis) (limit : UInt64) (q : Request) (horder : q.incrAt ≤ q.expireAt)
    (state : R.State) : ∃ moves s, Run (Step R limit) ⟨⟨q.incrAt, state⟩, [.begun q.key]⟩ moves s ∧
      s.shared.state = (redisAllow R limit q state).2 ∧
      s.tasks = [.returned q.key q.bucket (redisAllow R limit q state).1] := by
  have hclocked : Run (Step R limit) ⟨⟨q.incrAt, state⟩, [.begun q.key]⟩
      [.advance 0 q.reading .none] ⟨⟨q.incrAt, state⟩, [.clocked q.key q.bucket]⟩ := .snoc .nil rfl
  cases hcount : (R.incr q.incrAt q.name state).1 with
  | none =>
    rw [redisAllow_of_error hcount]
    have hfailed : Step R limit ⟨⟨q.incrAt, state⟩, [.clocked q.key q.bucket]⟩
        (.advance 0 q.reading .none) ⟨⟨q.incrAt, (R.incr q.incrAt q.name state).2⟩,
          [.returned q.key q.bucket none]⟩ := by
      simp only [Request.name] at hcount
      simp [Step, after, step, hcount, System.put, Request.name]
    exact ⟨_, _, hclocked.snoc hfailed, rfl, rfl⟩
  | some count =>
    rw [redisAllow_of_count hcount]
    have hsent : Step R limit ⟨⟨q.incrAt, state⟩, [.clocked q.key q.bucket]⟩
        (.advance 0 q.reading .none) ⟨⟨q.incrAt, (R.incr q.incrAt q.name state).2⟩,
          [.incremented q.key q.bucket count]⟩ := by
      simp only [Request.name] at hcount
      simp [Step, after, step, hcount, System.put, Request.name]
    have hwaited : Step R limit ⟨⟨q.incrAt, (R.incr q.incrAt q.name state).2⟩,
        [.incremented q.key q.bucket count]⟩ (.tick (q.expireAt - q.incrAt))
        ⟨⟨q.expireAt, (R.incr q.incrAt q.name state).2⟩, [.incremented q.key q.bucket count]⟩ := by
      simp [Step, after, Nat.add_sub_cancel' horder]
    have hended : Step R limit ⟨⟨q.expireAt, (R.incr q.incrAt q.name state).2⟩,
        [.incremented q.key q.bucket count]⟩ (.advance 0 q.reading .none)
        ⟨⟨q.expireAt, R.expire q.expireAt q.name 70 (R.incr q.incrAt q.name state).2⟩,
          [.returned q.key q.bucket (some (decide (count ≤ limit.toNat)))]⟩ := rfl
    exact ⟨_, _, ((hclocked.snoc hsent).snoc hwaited).snoc hended, rfl, rfl⟩

/-- A counter that is missing, or alive until `EXPIRE` and able to go up. -/
theorem redisAllow_of_live (hR : R.Documented) (limit : UInt64) (horder : q.incrAt ≤ q.expireAt)
    (hlive : ∀ c ∈ R.find q.incrAt q.name state, c.live q.expireAt = true)
    (hmax : R.count q.incrAt q.name state + 1 ≤ maxCount) :
    (redisAllow R limit q state).1 =
        some (decide (R.count q.incrAt q.name state + 1 ≤ limit.toNat)) ∧
      R.find q.expireAt q.name (redisAllow R limit q state).2 =
        some ⟨R.count q.incrAt q.name state + 1, some (q.expireAt + 70000)⟩ ∧
      ∀ other ≠ q.name, R.find q.expireAt other (redisAllow R limit q state).2 =
        R.find q.expireAt other state := by
  have hreply := hR.incr_reply q.incrAt q.name state
  rw [if_pos hmax] at hreply
  have hfound := hR.incr_self q.incrAt q.name state
  rw [if_pos hmax] at hfound
  rw [redisAllow_of_count hreply]
  refine ⟨rfl, ?_, ?_⟩
  · -- the counter keeps its expiry until `EXPIRE`, so it is alive then
    have hthen : R.find q.expireAt q.name (R.incr q.incrAt q.name state).2 =
        R.find q.incrAt q.name (R.incr q.incrAt q.name state).2 := by
      refine hR.find_of_live horder ?_
      rw [hfound]
      intro c hc
      cases hc
      cases hold : R.find q.incrAt q.name state with
      | none => rfl
      | some c =>
        have hlive := hlive c hold
        exact hlive
    rw [hR.expire_self _ _ _ _ (by decide), hthen, hfound]
    rfl
  · intro other hne
    rw [hR.expire_other _ _ _ _ _ hne, hR.find_later q.incrAt q.expireAt _ _ horder,
      hR.incr_other _ _ _ _ hne, ← hR.find_later q.incrAt q.expireAt _ _ horder]

end Allow

/-- The answers to requests, one after the other. -/
def redisAnswers (R : Redis) (limit : UInt64) : R.State → List Request → List (Option Bool)
  | _, [] => []
  | state, q :: requests =>
    (redisAllow R limit q state).1 ::
      redisAnswers R limit (redisAllow R limit q state).2 requests

def memoryAnswers (limit : UInt64) : Slots → List Request → List Bool
  | _, [] => []
  | slots, q :: requests =>
    (update limit slots q.key q.bucket).1 ::
      memoryAnswers limit (update limit slots q.key q.bucket).2 requests

/-- The second request comes after the first, by both clocks, and that of Redis
has gained no more than ten seconds on that of the node. -/
def Follows (q q' : Request) : Prop :=
  q.reading ≤ q'.reading ∧ q.expireAt ≤ q'.incrAt ∧
    q'.expireAt + q.reading ≤ q.expireAt + q'.reading + 10000

instance (q q' : Request) : Decidable (Follows q q') := inferInstanceAs (Decidable (_ ∧ _ ∧ _))

/-- The counter of a request to come, in both backends: no request of its client
and minute has come, or both have the same count, and Redis keeps it. -/
inductive Alike (n : Nat) (rest : List Request) (slots : Slots) (found : Option Counter)
    (q : Request) : Prop
  | unused (memory : ∀ slot ∈ slots.lookup q.key, slot.2 ≠ q.bucket) (redis : found = none)
  | used {count : UInt64} {t : Nat} (memory : slots.lookup q.key = some (count, q.bucket))
      (redis : found = some ⟨count.toNat, some t⟩)
      (lasting : ∀ q' ∈ rest, q'.bucket = q.bucket → q'.expireAt < t) (small : count.toNat ≤ n)

/-- Both backends after `n` requests and before the rest. -/
structure Match (R : Redis) (n now : Nat) (rest : List Request) (slots : Slots) (state : R.State) :
    Prop where
  past : ∀ key, ∀ slot ∈ slots.lookup key, ∀ q ∈ rest, slot.2 ≤ q.bucket
  alike : ∀ q ∈ rest, Alike n rest slots (R.find now q.name state) q

theorem match_unused {state : R.State} (hunused : Unused R now state) (requests : List Request) :
    Match R 0 now requests ∅ state where
  past key slot hslot := by cases hslot
  alike q _ := .unused (fun slot hslot => by cases hslot) (hunused _ _)

/-- One request: the same answer, and the same count in the end. -/
theorem Alike.allow {n : Nat} {rest : List Request} {q : Request} {slots : Slots}
    {state : R.State} (hR : R.Documented) (limit : UInt64) (hnow : now ≤ q.incrAt)
    (horder : q.incrAt ≤ q.expireAt)
    (h : Alike n (q :: rest) slots (R.find now q.name state) q) (hn : n + 1 ≤ maxCount) :
    ∃ count : UInt64, count.toNat ≤ n + 1 ∧
      update limit slots q.key q.bucket = (decide (count.toNat ≤ limit.toNat),
        slots.insert q.key (count, q.bucket)) ∧
      (redisAllow R limit q state).1 = some (decide (count.toNat ≤ limit.toNat)) ∧
      R.find q.expireAt q.name (redisAllow R limit q state).2 =
        some ⟨count.toNat, some (q.expireAt + 70000)⟩ ∧
      ∀ other ≠ q.name, R.find q.expireAt other (redisAllow R limit q state).2 =
        R.find q.expireAt other state := by
  have hsize : maxCount < UInt64.size := by decide
  have hsame : (∀ c ∈ R.find now q.name state, c.live q.expireAt = true) →
      R.find q.incrAt q.name state = R.find now q.name state := fun hlive =>
    hR.find_of_live hnow fun c hc => Counter.live_of_live horder (hlive c hc)
  cases h with
  | unused memory redis =>
    have hwrap : ∀ slot ∈ slots.lookup q.key, slot.2 = q.bucket → slot.1.toNat + 1 < UInt64.size :=
      fun slot hslot hslot' => absurd hslot' (memory slot hslot)
    obtain ⟨count, hcount, hupdate⟩ := update_spec limit q.bucket hwrap
    rw [counted_eq_zero memory] at hcount hupdate
    have hlive : ∀ c ∈ R.find now q.name state, c.live q.expireAt = true := by
      rw [redis]
      intro c hc
      cases hc
    have hfound := (hsame hlive).trans redis
    have hzero : R.count q.incrAt q.name state = 0 := by
      rw [Redis.count, hfound]
      rfl
    obtain ⟨hanswer, hself, hother⟩ := redisAllow_of_live hR limit horder
      ((hsame hlive) ▸ hlive) (by omega)
    rw [hzero, ← hcount] at hanswer hself
    rw [← hcount] at hupdate
    exact ⟨count, by omega, hupdate, hanswer, hself, hother⟩
  | @used c t memory redis lasting small =>
    have hwrap : ∀ slot ∈ slots.lookup q.key, slot.2 = q.bucket →
        slot.1.toNat + 1 < UInt64.size := by
      intro slot hslot _
      cases memory.symm.trans hslot
      dsimp only
      omega
    obtain ⟨count, hcount, hupdate⟩ := update_spec limit q.bucket hwrap
    have hcounted : counted slots q.key q.bucket = c.toNat := by
      rw [counted, memory]
      exact if_pos rfl
    have hlive : ∀ c ∈ R.find now q.name state, c.live q.expireAt = true := by
      rw [redis]
      intro c hc
      cases hc
      exact decide_eq_true (lasting q List.mem_cons_self rfl)
    have hfound := (hsame hlive).trans redis
    have hstored : R.count q.incrAt q.name state = c.toNat := by
      rw [Redis.count, hfound]
      rfl
    rw [hcounted] at hcount hupdate
    obtain ⟨hanswer, hself, hother⟩ := redisAllow_of_live hR limit horder
      ((hsame hlive) ▸ hlive) (by omega)
    rw [hstored, ← hcount] at hanswer hself
    rw [← hcount] at hupdate
    exact ⟨count, by omega, hupdate, hanswer, hself, hother⟩

theorem Request.name_eq_iff {q q' : Request} :
    q'.name = q.name ↔ q'.key = q.key ∧ q'.bucket = q.bucket := by
  refine ⟨redisKey_inj, ?_⟩
  rintro ⟨hkey, hbucket⟩
  rw [Request.name, Request.name, hkey, hbucket]

/-- The counter of a request that comes later is kept. -/
theorem Follows.lasting {q q' : Request} (h : Follows q q') (hbucket : q'.bucket = q.bucket) :
    q'.expireAt < q.expireAt + 70000 := by
  obtain ⟨_, _, hdrift⟩ := h
  have hlow := minute_le q.reading
  have hhigh := lt_minute q'.reading
  rw [show minute q'.reading = minute q.reading from hbucket] at hhigh
  omega

/-- After a request both backends have the same counters again, for every request
that is to come. -/
theorem Match.allow {n : Nat} {q : Request} {rest : List Request} {slots : Slots} {state : R.State}
    (hR : R.Documented) (limit : UInt64) (h : Match R n now (q :: rest) slots state)
    (hnow : now ≤ q.incrAt) (horder : q.incrAt ≤ q.expireAt) (hfollow : ∀ q' ∈ rest, Follows q q')
    (hordered : ∀ q' ∈ rest, q'.incrAt ≤ q'.expireAt) (hn : n + 1 ≤ maxCount) :
    (redisAllow R limit q state).1 = some (update limit slots q.key q.bucket).1 ∧
      Match R (n + 1) q.expireAt rest (update limit slots q.key q.bucket).2
        (redisAllow R limit q state).2 := by
  obtain ⟨count, hsmall, hupdate, hanswer, hself, hother⟩ :=
    (h.alike q List.mem_cons_self).allow hR limit hnow horder hn
  rw [hupdate]
  refine ⟨hanswer, ?_, ?_⟩
  · intro key slot hslot q' hq'
    dsimp only at hslot
    by_cases hkey : key = q.key
    · subst hkey
      rw [AList.lookup_insert] at hslot
      cases hslot
      exact minute_mono (hfollow q' hq').1
    · rw [AList.lookup_insert_ne hkey] at hslot
      exact h.past key slot hslot q' (List.mem_cons_of_mem q hq')
  · intro q' hq'
    dsimp only
    have hmem := List.mem_cons_of_mem q hq'
    by_cases hname : q'.name = q.name
    · obtain ⟨hkey, hbucket⟩ := Request.name_eq_iff.mp hname
      have hredis : R.find q.expireAt q'.name (redisAllow R limit q state).2 =
          some ⟨count.toNat, some (q.expireAt + 70000)⟩ := hname ▸ hself
      refine .used ?_ hredis ?_ hsmall
      · rw [hkey, hbucket, AList.lookup_insert]
      · intro q'' hq'' hsame
        exact (hfollow q'' hq'').lasting (hsame.trans hbucket)
    · rw [hother q'.name hname]
      have hthen : now ≤ q.expireAt := Nat.le_trans hnow horder
      by_cases hkey : q'.key = q.key
      · -- a later minute of the same client, of which no request has come
        have hne : q.bucket ≠ q'.bucket := fun heq =>
          hname (Request.name_eq_iff.mpr ⟨hkey, heq.symm⟩)
        refine .unused ?_ ?_
        · rw [hkey, AList.lookup_insert]
          intro slot hslot
          cases hslot
          exact hne
        · rw [hR.find_later now q.expireAt _ _ hthen]
          cases h.alike q' hmem with
          | unused _ redis =>
            rw [redis]
            rfl
          | used memory _ _ _ =>
            have hpast := h.past q'.key _ memory q List.mem_cons_self
            have hlater := minute_mono (hfollow q' hq').1
            exact absurd (Nat.le_antisymm hlater hpast) hne
      · cases h.alike q' hmem with
        | unused memory redis =>
          refine .unused ?_ ?_
          · rw [AList.lookup_insert_ne hkey]
            exact memory
          · rw [hR.find_later now q.expireAt _ _ hthen, redis]
            rfl
        | @used c t memory redis lasting small =>
          have hlive : ∀ c ∈ R.find now q'.name state, c.live q.expireAt = true := by
            rw [redis]
            intro c hc
            cases hc
            have hexpire := lasting q' hmem rfl
            have hbefore := (hfollow q' hq').2.1
            have hafter := hordered q' hq'
            exact decide_eq_true (by omega)
          refine .used ((AList.lookup_insert_ne hkey).trans memory)
            ((hR.find_of_live hthen hlive).trans redis) ?_ (Nat.le_succ_of_le small)
          exact fun q'' hq'' => lasting q'' (List.mem_cons_of_mem q hq'')

theorem answers_of_match {n : Nat} {slots : Slots} {state : R.State} {requests : List Request}
    (hR : R.Documented) (h : Match R n now requests slots state)
    (hfrom : ∀ q ∈ requests, now ≤ q.incrAt) (hordered : ∀ q ∈ requests, q.incrAt ≤ q.expireAt)
    (hfollow : requests.Pairwise Follows) (hn : n + requests.length ≤ maxCount) :
    redisAnswers R limit state requests = (memoryAnswers limit slots requests).map some := by
  induction requests generalizing n now slots state with
  | nil => rfl
  | cons q requests ih =>
    rw [List.length_cons] at hn
    obtain ⟨hfirst, hrest⟩ := List.pairwise_cons.mp hfollow
    obtain ⟨horder, hordered⟩ := List.forall_mem_cons.mp hordered
    obtain ⟨hanswer, hmatch⟩ := h.allow hR limit (hfrom q List.mem_cons_self) horder hfirst hordered
      (by omega)
    rw [redisAnswers, memoryAnswers, List.map_cons, hanswer,
      ih hmatch (fun q' hq' => (hfirst q' hq').2.1) hordered hrest (by omega)]

/-- **Both backends give the same answers** to any sequence of requests that come
one after the other, as long as the clock of Redis does not gain more than ten
seconds on that of the node and there are not more requests than a Redis counter
can count. -/
theorem backends_agree (hR : R.Documented) (limit : UInt64) {state : R.State}
    (hunused : Unused R now state) {requests : List Request}
    (hfrom : ∀ q ∈ requests, now ≤ q.incrAt) (hordered : ∀ q ∈ requests, q.incrAt ≤ q.expireAt)
    (hfollow : requests.Pairwise Follows) (hn : requests.length ≤ maxCount) :
    redisAnswers R limit state requests = (memoryAnswers limit ∅ requests).map some :=
  answers_of_match hR (match_unused hunused requests) hfrom hordered hfollow (by omega)

/-- Two clients over two minutes; the clock of Redis is half a minute behind. -/
def twoMinutes : List Request :=
  [⟨"a", 30000, 0, 1⟩, ⟨"a", 40000, 10000, 10001⟩, ⟨"b", 50000, 20000, 20005⟩,
    ⟨"a", 59999, 29999, 30001⟩, ⟨"a", 60000, 31000, 31001⟩]

/-- The limit of two is used up in the first minute and there again in the next. -/
theorem backends_agree_two_minutes :
    memoryAnswers 2 ∅ twoMinutes = [true, true, true, false, true] ∧
    redisAnswers inMemory 2 (∅ : Store) twoMinutes =
      [some true, some true, some true, some false, some true] := by
  refine ⟨rfl, ?_⟩
  rw [backends_agree inMemory_documented 2 (unused_empty 0) (by decide) (by decide) (by decide)
    (by decide)]
  rfl

end Axionvera.Node.RedisLimiter

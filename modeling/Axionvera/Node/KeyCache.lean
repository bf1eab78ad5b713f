import Axionvera.Lib.Interleaving
import Axionvera.Node.Signing

/-! # Concurrent lookups of public keys

`get_public_key` of `signing.rs` on a shared service, which registers no signers
any more. A call takes the lock of the signers, then that of the cache to look
for an entry, asks the signer, and takes the lock of the cache again to store
what it got; each of these is a step, and other calls, invalidations and the time
go on in between. What a signer answers depends on the time at which it is asked,
as with a key that its provider replaces.

A key that is handed out was the signer's at most the time to live ago and as
long as an answer takes to be stored (`staleness_bounded`). An invalidation counts
for all later calls exactly if the answers that are on their way to the cache are
current at that time (`invalidation_effective_iff`). -/
namespace Axionvera.Node.KeyCache
open Axionvera.Lib.Interleaving Axionvera.Lib.Transition
open Axionvera.Node.Signing (Time HashMap NetworkError Scheme CacheEntry getOrFetch)

variable {S : Scheme}

/-- What each registered signer answers at each time when it is asked for its
public key. -/
abbrev Signers (S : Scheme) : Type := HashMap (Time → Except NetworkError S.PublicKey)

def ask (signers : Signers S) (keyId : String) (now : Time) : Except NetworkError S.PublicKey :=
  match signers.lookup keyId with
  | none => .error (.signer s!"Signer not found for key_id: {keyId}")
  | some answer => answer now

/-! ## Calls -/

/-- Where a call is in `get_public_key`. -/
inductive Point (S : Scheme) where
  | called (keyId : String)
  | looking (keyId : String)
  | missed (keyId : String)
  /-- With the time at which the signer answered. -/
  | fetched (keyId : String) (publicKey : S.PublicKey) (answeredAt : Time)
  | returned (keyId : String) (answer : Except NetworkError S.PublicKey)

structure Shared (S : Scheme) where
  now : Time
  cache : HashMap (CacheEntry S)

def step (signers : Signers S) (ttlSeconds : Int64) : Point S → Shared S → Point S × Shared S
  | .called keyId, e =>
    match signers.lookup keyId with
    | none => (.returned keyId (.error (.signer s!"Signer not found for key_id: {keyId}")), e)
    | some _ => (.looking keyId, e)
  | .looking keyId, e =>
    match (e.cache.lookup keyId).filter fun entry => !entry.isExpired e.now with
    | some entry => (.returned keyId (.ok entry.publicKey), e)
    | none => (.missed keyId, e)
  | .missed keyId, e =>
    match ask signers keyId e.now with
    | .error error => (.returned keyId (.error error), e)
    | .ok publicKey => (.fetched keyId publicKey e.now, e)
  | .fetched keyId publicKey _, e =>
    (.returned keyId (.ok publicKey),
      { e with cache := e.cache.insert keyId (.new publicKey e.now ttlSeconds) })
  | .returned keyId answer, e => (.returned keyId answer, e)

abbrev Calls (S : Scheme) : Type := System (Point S) (Shared S)

inductive Move where
  | start (keyId : String)
  | advance (place : Nat)
  | invalidate (keyId : String)
  | clear
  | tick (nanoseconds : Nat)

def after (signers : Signers S) (ttlSeconds : Int64) (s : Calls S) : Move → Option (Calls S)
  | .start keyId => some (s.start (.called keyId))
  | .advance i => (s.tasks[i]?).map fun x => s.put i (step signers ttlSeconds x s.shared)
  | .invalidate keyId => some { s with
      shared := { s.shared with cache := s.shared.cache.erase keyId } }
  | .clear => some { s with shared := { s.shared with cache := ∅ } }
  | .tick nanoseconds => some { s with
      shared := { s.shared with now := s.shared.now + nanoseconds } }

def Step (signers : Signers S) (ttlSeconds : Int64) (s : Calls S) (m : Move) (s' : Calls S) :
    Prop :=
  after signers ttlSeconds s m = some s'

/-- Nothing cached and no calls. -/
def fresh (S : Scheme) (now : Time) : Calls S := ⟨⟨now, ∅⟩, []⟩

variable {signers : Signers S} {ttl : Int64} {s s' : Calls S} {m : Move} {moves : List Move}
  {i : Nat} {x : Point S} {e : Shared S} {keyId : String} {publicKey : S.PublicKey}

/-! ## What a step does -/

/-- What a call makes of the point it is at and of the cache. -/
inductive Goes (signers : Signers S) (ttl : Int64) (e : Shared S) :
    Point S → Point S → Shared S → Prop
  | unknown {keyId : String} (text : NetworkError) :
      Goes signers ttl e (.called keyId) (.returned keyId (.error text)) e
  | found {keyId : String} : Goes signers ttl e (.called keyId) (.looking keyId) e
  | hit {keyId : String} {entry : CacheEntry S} (cached : e.cache.lookup keyId = some entry)
      (live : e.now ≤ entry.cachedAt + entry.ttl) :
      Goes signers ttl e (.looking keyId) (.returned keyId (.ok entry.publicKey)) e
  | miss {keyId : String} : Goes signers ttl e (.looking keyId) (.missed keyId) e
  | refused {keyId : String} (error : NetworkError) :
      Goes signers ttl e (.missed keyId) (.returned keyId (.error error)) e
  | answered {keyId : String} {publicKey : S.PublicKey}
      (asked : ask signers keyId e.now = .ok publicKey) :
      Goes signers ttl e (.missed keyId) (.fetched keyId publicKey e.now) e
  | stored {keyId : String} {publicKey : S.PublicKey} (answeredAt : Time) :
      Goes signers ttl e (.fetched keyId publicKey answeredAt) (.returned keyId (.ok publicKey))
        { e with cache := e.cache.insert keyId (.new publicKey e.now ttl) }
  | done {keyId : String} {answer : Except NetworkError S.PublicKey} :
      Goes signers ttl e (.returned keyId answer) (.returned keyId answer) e

theorem goes (signers : Signers S) (ttl : Int64) (x : Point S) (e : Shared S) :
    Goes signers ttl e x (step signers ttl x e).1 (step signers ttl x e).2 := by
  cases x with
  | called keyId =>
    rw [step]
    split
    · exact .unknown _
    · exact .found
  | looking keyId =>
    rw [step]
    split
    · rename_i entry hentry
      obtain ⟨hcached, hlive⟩ := Option.filter_eq_some_iff.mp hentry
      refine .hit hcached (Int.not_lt.mp ?_)
      simpa [CacheEntry.isExpired] using hlive
    · exact .miss
  | missed keyId =>
    rw [step]
    split
    · exact .refused _
    · rename_i hasked
      exact .answered hasked
  | fetched keyId publicKey answeredAt => exact .stored answeredAt
  | returned keyId answer => exact .done

/-- What a step does to the calls, to the cache and to the time. -/
inductive Steps (signers : Signers S) (ttl : Int64) (s : Calls S) : Move → Calls S → Prop
  | start (keyId : String) : Steps signers ttl s (.start keyId) (s.start (.called keyId))
  | advance {i : Nat} {x x' : Point S} {e' : Shared S} (found : s.tasks[i]? = some x)
      (went : Goes signers ttl s.shared x x' e') : Steps signers ttl s (.advance i) (s.put i (x', e'))
  | invalidate (keyId : String) : Steps signers ttl s (.invalidate keyId)
      ⟨{ s.shared with cache := s.shared.cache.erase keyId }, s.tasks⟩
  | clear : Steps signers ttl s .clear ⟨{ s.shared with cache := ∅ }, s.tasks⟩
  | tick (nanoseconds : Nat) : Steps signers ttl s (.tick nanoseconds)
      ⟨{ s.shared with now := s.shared.now + nanoseconds }, s.tasks⟩

theorem Step.steps (h : Step signers ttl s m s') : Steps signers ttl s m s' := by
  cases m with
  | start keyId =>
    cases h
    exact .start keyId
  | advance i =>
    obtain ⟨x, hx, rfl⟩ := Option.map_eq_some_iff.mp h
    exact .advance hx (goes signers ttl x s.shared)
  | invalidate keyId =>
    cases h
    exact .invalidate keyId
  | clear =>
    cases h
    exact .clear
  | tick nanoseconds =>
    cases h
    exact .tick nanoseconds

/-- A call that nothing comes in between of looks up a key as the service does. -/
theorem alone_getOrFetch (signers : Signers S) (ttl : Int64)
    (hx : s.tasks[i]? = some (.looking keyId)) :
    ∃ later, Run (Step signers ttl) s later (s.put i
      (.returned keyId (getOrFetch s.shared.cache ttl keyId ⟨s.shared.now, s.shared.now⟩
          (ask signers keyId s.shared.now)).1,
        { s.shared with cache := (getOrFetch s.shared.cache ttl keyId
          ⟨s.shared.now, s.shared.now⟩ (ask signers keyId s.shared.now)).2 })) := by
  have hstep : ∀ {s : Calls S} {x : Point S}, s.tasks[i]? = some x →
      Step signers ttl s (.advance i) (s.put i (step signers ttl x s.shared)) :=
    fun hx => Option.map_eq_some_iff.mpr ⟨_, hx, rfl⟩
  have hlook := hstep hx
  unfold getOrFetch
  rw [step] at hlook
  cases hlive : (s.shared.cache.lookup keyId).filter fun entry => !entry.isExpired s.shared.now with
  | some entry =>
    simp only [hlive] at hlook ⊢
    exact ⟨_, .snoc .nil hlook⟩
  | none =>
    simp only [hlive] at hlook ⊢
    have hask := hstep (get_put_self (x := (.missed keyId, s.shared)) hx)
    rw [put_shared, put_put, step] at hask
    cases hasked : ask signers keyId s.shared.now with
    | error error =>
      simp only [hasked] at hask ⊢
      exact ⟨_, .snoc (.snoc .nil hlook) hask⟩
    | ok publicKey =>
      simp only [hasked] at hask ⊢
      have hstore := hstep (get_put_self
        (x := (.fetched keyId publicKey s.shared.now, s.shared)) hx)
      rw [put_shared, put_put, step] at hstore
      exact ⟨_, .snoc (.snoc (.snoc .nil hlook) hask) hstore⟩

/-- The call at a place gets a key with this step. -/
def Gets (signers : Signers S) (ttl : Int64) (s : Calls S) (i : Nat) (keyId : String)
    (publicKey : S.PublicKey) : Prop :=
  ∃ x, s.tasks[i]? = some x ∧ (∀ answer, x ≠ .returned keyId answer) ∧
    (step signers ttl x s.shared).1 = .returned keyId (.ok publicKey)

/-- It gets it from the cache, or has it from the signer. -/
theorem Gets.cases (h : Gets signers ttl s i keyId publicKey) :
    (∃ entry, s.shared.cache.lookup keyId = some entry ∧
      s.shared.now ≤ entry.cachedAt + entry.ttl ∧ entry.publicKey = publicKey) ∨
    ∃ answeredAt, s.tasks[i]? = some (.fetched keyId publicKey answeredAt) := by
  obtain ⟨x, hx, hopen, hgot⟩ := h
  have hgoes := goes signers ttl x s.shared
  rw [hgot] at hgoes
  generalize (step signers ttl x s.shared).2 = e' at hgoes
  cases hgoes with
  | hit cached live => exact Or.inl ⟨_, cached, live, rfl⟩
  | stored answeredAt => exact Or.inr ⟨answeredAt, hx⟩
  | done => exact absurd rfl (hopen _)

/-! ## How old a key can be -/

/-- The time to live of an entry, in nanoseconds. -/
def lifetime (ttlSeconds : Int64) : Int := ttlSeconds.toInt * 1000000000

/-- When the signer gave the answer that a call stores next. -/
def storing : Point S → Option Time
  | .fetched _ _ answeredAt => some answeredAt
  | _ => none

/-- An answer is stored at most so long after the signer gave it. -/
def Prompt (delay : Nat) (s : Calls S) : Move → Prop
  | .advance i => ∀ x ∈ s.tasks[i]?, ∀ answeredAt ∈ storing x, s.shared.now ≤ answeredAt + delay
  | _ => True

instance (delay : Nat) (s : Calls S) : DecidablePred (Prompt delay s)
  | .advance i => inferInstanceAs (Decidable (∀ x ∈ s.tasks[i]?, ∀ answeredAt ∈ storing x, _))
  | .start _ => .isTrue trivial
  | .invalidate _ => .isTrue trivial
  | .clear => .isTrue trivial
  | .tick _ => .isTrue trivial

def PromptStep (signers : Signers S) (ttlSeconds : Int64) (delay : Nat) (s : Calls S) (m : Move)
    (s' : Calls S) : Prop :=
  Step signers ttlSeconds s m s' ∧ Prompt delay s m

/-- Every key in the cache, and every one that is on its way there, was the
signer's at a time that is known. -/
structure Dated (signers : Signers S) (ttl : Int64) (delay : Nat) (s : Calls S) : Prop where
  entries : ∀ keyId entry, s.shared.cache.lookup keyId = some entry →
    entry.ttl = lifetime ttl ∧ ∃ t, ask signers keyId t = .ok entry.publicKey ∧
      t ≤ entry.cachedAt ∧ entry.cachedAt ≤ t + delay ∧ entry.cachedAt ≤ s.shared.now
  fetched : ∀ keyId publicKey answeredAt, .fetched keyId publicKey answeredAt ∈ s.tasks →
    ask signers keyId answeredAt = .ok publicKey ∧ answeredAt ≤ s.shared.now

variable {delay : Nat}

theorem dated_fresh (now : Time) : Dated signers ttl delay (fresh S now) where
  entries keyId entry h := by cases h
  fetched keyId publicKey answeredAt h := by cases h

/-- A call that stores nothing adds at most an answer. -/
theorem Dated.put (h : Dated signers ttl delay s) {x' : Point S}
    (hx' : ∀ keyId publicKey answeredAt, x' = .fetched keyId publicKey answeredAt →
      ask signers keyId answeredAt = .ok publicKey ∧ answeredAt ≤ s.shared.now) :
    Dated signers ttl delay (s.put i (x', s.shared)) where
  entries := h.entries
  fetched keyId publicKey answeredAt hmem := by
    rcases mem_or_eq_of_mem_put hmem with hmem | heq
    · exact h.fetched keyId publicKey answeredAt hmem
    · exact hx' keyId publicKey answeredAt heq.symm

theorem Dated.store (h : Dated signers ttl delay s) {answeredAt : Time}
    (hx : s.tasks[i]? = some (.fetched keyId publicKey answeredAt))
    (hprompt : s.shared.now ≤ answeredAt + delay) :
    Dated signers ttl delay (s.put i (.returned keyId (.ok publicKey),
      { s.shared with cache := s.shared.cache.insert keyId (.new publicKey s.shared.now ttl) })) where
  entries keyId' entry hentry := by
    dsimp only [put_shared] at hentry
    by_cases hkey : keyId' = keyId
    · subst hkey
      rw [AList.lookup_insert] at hentry
      cases hentry
      obtain ⟨hasked, hle⟩ := h.fetched _ _ _ (List.mem_of_getElem? hx)
      exact ⟨rfl, answeredAt, hasked, hle, hprompt, Int.le_refl _⟩
    · rw [AList.lookup_insert_ne hkey] at hentry
      exact h.entries keyId' entry hentry
  fetched keyId' publicKey' answeredAt' hmem := by
    rcases mem_or_eq_of_mem_put hmem with hmem | heq
    · exact h.fetched keyId' publicKey' answeredAt' hmem
    · cases heq

theorem Dated.step (h : Dated signers ttl delay s) (hs : PromptStep signers ttl delay s m s') :
    Dated signers ttl delay s' := by
  obtain ⟨hstep, hprompt⟩ := hs
  cases hstep.steps with
  | start keyId =>
    refine ⟨h.entries, ?_⟩
    intro keyId' publicKey answeredAt hmem
    rcases mem_start.mp hmem with hmem | heq
    · exact h.fetched keyId' publicKey answeredAt hmem
    · cases heq
  | advance found went =>
    cases went with
    | answered asked =>
      refine h.put fun keyId' publicKey' answeredAt' heq => ?_
      cases heq
      exact ⟨asked, Int.le_refl _⟩
    | stored answeredAt => exact h.store found (hprompt _ found _ rfl)
    | _ => exact h.put fun keyId' publicKey' answeredAt' heq => by cases heq
  | invalidate keyId =>
    refine ⟨?_, h.fetched⟩
    intro keyId' entry hentry
    by_cases hkey : keyId' = keyId
    · subst hkey
      rw [AList.lookup_erase] at hentry
      cases hentry
    · rw [AList.lookup_erase_ne hkey] at hentry
      exact h.entries keyId' entry hentry
  | clear =>
    refine ⟨?_, h.fetched⟩
    intro keyId' entry hentry
    cases hentry
  | tick nanoseconds =>
    have hlater : s.shared.now ≤ s.shared.now + nanoseconds :=
      Int.le_add_of_nonneg_right (Int.natCast_nonneg _)
    refine ⟨?_, ?_⟩
    · intro keyId entry hentry
      obtain ⟨httl, t, hasked, hle, hdelay, hnow⟩ := h.entries keyId entry hentry
      exact ⟨httl, t, hasked, hle, hdelay, Int.le_trans hnow hlater⟩
    · intro keyId publicKey answeredAt hmem
      obtain ⟨hasked, hle⟩ := h.fetched keyId publicKey answeredAt hmem
      exact ⟨hasked, Int.le_trans hle hlater⟩

theorem dated_of_run {now : Time}
    (hr : Run (PromptStep signers ttl delay) (fresh S now) moves s) : Dated signers ttl delay s :=
  hr.invariant (dated_fresh now) fun _ _ _ h hs => h.step hs

theorem age_of_entry {now cachedAt t life : Int} (hlive : now ≤ cachedAt + life)
    (hdelay : cachedAt ≤ t + delay) : now ≤ t + max life 0 + delay := by
  omega

theorem age_of_answer {now t : Int} (life : Int) (hsoon : now ≤ t + delay) :
    now ≤ t + max life 0 + delay := by
  omega

/-- **No key is too old.** However the calls interleave with one another and with
invalidations, a key that a call gets was the signer's at a time that is not
longer ago than the time to live and the delay with which answers are stored. -/
theorem staleness_bounded {now : Time}
    (hr : Run (PromptStep signers ttl delay) (fresh S now) moves s)
    (hgets : Gets signers ttl s i keyId publicKey) (hprompt : Prompt delay s (.advance i)) :
    ∃ t, ask signers keyId t = .ok publicKey ∧ t ≤ s.shared.now ∧
      s.shared.now ≤ t + max (lifetime ttl) 0 + delay := by
  have hdated := dated_of_run hr
  rcases hgets.cases with ⟨entry, hentry, hlive, rfl⟩ | ⟨answeredAt, hfetched⟩
  · obtain ⟨httl, t, hasked, hle, hdelay, hnow⟩ := hdated.entries keyId entry hentry
    rw [httl] at hlive
    exact ⟨t, hasked, Int.le_trans hle hnow, age_of_entry hlive hdelay⟩
  · obtain ⟨hasked, hle⟩ := hdated.fetched _ _ _ (List.mem_of_getElem? hfetched)
    exact ⟨answeredAt, hasked, hle, age_of_answer _ (hprompt _ hfetched _ rfl)⟩

/-- The key of the signer is replaced one second after the start. -/
def rotating : Signers Signing.named :=
  AList.singleton "node" fun t => .ok (if t < 1000000000 then "old" else "new")

/-- The service after some moves, latest first. -/
def afterwards (moves : List Move) : Calls Signing.named :=
  (play (after rotating 60) (fun _ _ => true) (fresh Signing.named 0) moves).getD
    (fresh Signing.named 0)

/-- One call has stored the old key, and another looks it up ten seconds later. -/
def cachedOld : List Move :=
  [.advance 1, .start "node", .tick 10000000000, .advance 0, .advance 0, .advance 0, .advance 0,
    .start "node"]

theorem staleness_bounded_cachedOld :
    Gets rotating 60 (afterwards cachedOld) 1 "node" "old" ∧
      ∃ t, ask rotating "node" t = .ok "old" ∧ t ≤ 10000000000 ∧
        10000000000 ≤ t + max (lifetime 60) 0 + (0 : Nat) := by
  have hplay : play (after rotating 60) (fun s m => decide (Prompt 0 s m)) (fresh Signing.named 0)
      cachedOld = some (afterwards cachedOld) := rfl
  have hrun : Run (PromptStep rotating 60 0) (fresh Signing.named 0) cachedOld
      (afterwards cachedOld) := by
    refine (run_of_play hplay).mono fun s m s' hs => ?_
    exact ⟨hs.2, of_decide_eq_true hs.1⟩
  have hgets : Gets rotating 60 (afterwards cachedOld) 1 "node" "old" := by
    refine ⟨.looking "node", rfl, ?_, rfl⟩
    intro answer heq
    cases heq
  exact ⟨hgets, staleness_bounded hrun hgets (of_decide_eq_true rfl)⟩

/-! ## Invalidations -/

/-- The key was the signer's at some time of a span. -/
def Vouched (signers : Signers S) (keyId : String) (since now : Time)
    (publicKey : S.PublicKey) : Prop :=
  ∃ t, since ≤ t ∧ t ≤ now ∧ ask signers keyId t = .ok publicKey

theorem Vouched.later {since now now' : Time} (h : Vouched signers keyId since now publicKey)
    (hle : now ≤ now') : Vouched signers keyId since now' publicKey := by
  obtain ⟨t, hsince, hnow, hasked⟩ := h
  exact ⟨t, hsince, Int.le_trans hnow hle, hasked⟩

/-- What the cache has under an identifier, and what is on its way there, is not
older than some time. -/
structure Since (signers : Signers S) (keyId : String) (since : Time) (s : Calls S) : Prop where
  time : since ≤ s.shared.now
  entries : ∀ entry, s.shared.cache.lookup keyId = some entry →
    Vouched signers keyId since s.shared.now entry.publicKey
  fetched : ∀ publicKey answeredAt, .fetched keyId publicKey answeredAt ∈ s.tasks →
    Vouched signers keyId since s.shared.now publicKey

variable {since : Time}

theorem Since.put (h : Since signers keyId since s) {x' : Point S} {e' : Shared S}
    (hnow : e'.now = s.shared.now)
    (hcache : ∀ entry, e'.cache.lookup keyId = some entry →
      Vouched signers keyId since s.shared.now entry.publicKey)
    (hx' : ∀ publicKey answeredAt, x' = .fetched keyId publicKey answeredAt →
      Vouched signers keyId since s.shared.now publicKey) :
    Since signers keyId since (s.put i (x', e')) := by
  refine ⟨?_, ?_, ?_⟩
  · rw [put_shared, hnow]
    exact h.time
  · rw [put_shared, hnow]
    exact hcache
  · intro publicKey answeredAt hmem
    rw [put_shared, hnow]
    rcases mem_or_eq_of_mem_put hmem with hmem | heq
    · exact h.fetched publicKey answeredAt hmem
    · exact hx' publicKey answeredAt heq.symm

theorem Since.step (h : Since signers keyId since s) (hs : Step signers ttl s m s') :
    Since signers keyId since s' := by
  cases hs.steps with
  | start keyId' =>
    refine ⟨h.time, h.entries, ?_⟩
    intro publicKey answeredAt hmem
    rcases mem_start.mp hmem with hmem | heq
    · exact h.fetched publicKey answeredAt hmem
    · cases heq
  | advance found went =>
    cases went with
    | answered asked =>
      refine h.put rfl h.entries fun publicKey answeredAt heq => ?_
      cases heq
      exact ⟨_, h.time, Int.le_refl _, asked⟩
    | @stored keyId' publicKey answeredAt =>
      refine h.put rfl (fun entry hentry => ?_) fun publicKey' answeredAt' heq => by cases heq
      by_cases hkey : keyId = keyId'
      · subst hkey
        rw [AList.lookup_insert] at hentry
        cases hentry
        exact h.fetched publicKey answeredAt (List.mem_of_getElem? found)
      · rw [AList.lookup_insert_ne hkey] at hentry
        exact h.entries entry hentry
    | _ => exact h.put rfl h.entries fun publicKey answeredAt heq => by cases heq
  | invalidate keyId' =>
    refine ⟨h.time, ?_, h.fetched⟩
    intro entry hentry
    by_cases hkey : keyId = keyId'
    · subst hkey
      rw [AList.lookup_erase] at hentry
      cases hentry
    · rw [AList.lookup_erase_ne hkey] at hentry
      exact h.entries entry hentry
  | clear =>
    refine ⟨h.time, ?_, h.fetched⟩
    intro entry hentry
    cases hentry
  | tick nanoseconds =>
    have hlater : s.shared.now ≤ s.shared.now + nanoseconds :=
      Int.le_add_of_nonneg_right (Int.natCast_nonneg _)
    exact ⟨Int.le_trans h.time hlater, fun entry hentry => (h.entries entry hentry).later hlater,
      fun publicKey answeredAt hmem => (h.fetched publicKey answeredAt hmem).later hlater⟩

theorem Since.gets (h : Since signers keyId since s) (hgets : Gets signers ttl s i keyId publicKey) :
    Vouched signers keyId since s.shared.now publicKey := by
  rcases hgets.cases with ⟨entry, hentry, _, rfl⟩ | ⟨answeredAt, hfetched⟩
  · exact h.entries entry hentry
  · exact h.fetched publicKey answeredAt (List.mem_of_getElem? hfetched)

/-- The service right after an entry was invalidated. -/
def invalidated (s : Calls S) (keyId : String) : Calls S :=
  ⟨{ s.shared with cache := s.shared.cache.erase keyId }, s.tasks⟩

/-- Every call made after the invalidation gets a key that was the signer's since. -/
def Effective (signers : Signers S) (ttl : Int64) (s : Calls S) (keyId : String) : Prop :=
  ∀ later s' i publicKey, Run (Step signers ttl) (invalidated s keyId) later s' →
    s.tasks.length ≤ i → Gets signers ttl s' i keyId publicKey →
    Vouched signers keyId s.shared.now s'.shared.now publicKey

/-- The keys that calls have and have not stored yet are the current ones. -/
def NoneOutdated (signers : Signers S) (s : Calls S) (keyId : String) : Prop :=
  ∀ publicKey answeredAt, .fetched keyId publicKey answeredAt ∈ s.tasks →
    ask signers keyId s.shared.now = .ok publicKey

theorem effective_of_current (h : NoneOutdated signers s keyId) : Effective signers ttl s keyId := by
  intro later s' i publicKey hlater _ hgets
  have hstart : Since signers keyId s.shared.now (invalidated s keyId) := by
    refine ⟨Int.le_refl _, ?_, ?_⟩
    · intro entry hentry
      rw [invalidated, AList.lookup_erase] at hentry
      cases hentry
    · intro publicKey answeredAt hmem
      exact ⟨_, Int.le_refl _, Int.le_refl _, h publicKey answeredAt hmem⟩
  exact (hlater.invariant hstart fun _ _ _ hsince hs => hsince.step hs).gets hgets

/-- An entry that has just been stored is found. -/
theorem step_looking (httl : 0 ≤ ttl.toInt)
    (hentry : e.cache.lookup keyId = some (.new publicKey e.now ttl)) :
    (step signers ttl (.looking keyId) e).1 = .returned keyId (.ok publicKey) := by
  have hlife : 0 ≤ ttl.toInt * 1000000000 := Int.mul_nonneg httl (by decide)
  have hlive : (CacheEntry.new publicKey e.now ttl).isExpired e.now = false :=
    decide_eq_false (Int.not_lt.mpr (Int.le_add_of_nonneg_right hlife))
  rw [step, hentry, Option.filter_some, hlive]
  rfl

/-- After the invalidation a call that is on its way stores its key, and the next
call finds it. -/
theorem exists_gets {answer : Time → Except NetworkError S.PublicKey}
    (hsigner : signers.lookup keyId = some answer) (httl : 0 ≤ ttl.toInt) {answeredAt : Time}
    (hmem : .fetched keyId publicKey answeredAt ∈ s.tasks) :
    ∃ later s', Run (Step signers ttl) (invalidated s keyId) later s' ∧
      s'.shared.now = s.shared.now ∧ Gets signers ttl s' s.tasks.length keyId publicKey := by
  obtain ⟨j, hj⟩ := List.getElem?_of_mem hmem
  let stored : Shared S := { s.shared with
    cache := (s.shared.cache.erase keyId).insert keyId (.new publicKey s.shared.now ttl) }
  let s₁ : Calls S := (invalidated s keyId).put j (.returned keyId (.ok publicKey), stored)
  let s₂ : Calls S := s₁.start (.called keyId)
  let s₃ : Calls S := s₂.put s.tasks.length (.looking keyId, stored)
  have hstore : Step signers ttl (invalidated s keyId) (.advance j) s₁ :=
    Option.map_eq_some_iff.mpr ⟨_, hj, rfl⟩
  have hcalled : s₂.tasks[s.tasks.length]? = some (.called keyId) := by
    have hlength : s₁.tasks.length = s.tasks.length := List.length_set
    rw [← hlength]
    exact List.getElem?_concat_length
  have hlook : Step signers ttl s₂ (.advance s.tasks.length) s₃ := by
    refine Option.map_eq_some_iff.mpr ⟨_, hcalled, ?_⟩
    simp only [step, hsigner]
    rfl
  have hstart : Step signers ttl s₁ (.start keyId) s₂ := rfl
  refine ⟨_, s₃, .snoc (.snoc (.snoc .nil hstore) hstart) hlook, rfl, .looking keyId,
    get_put_self hcalled, ?_, step_looking httl (AList.lookup_insert _)⟩
  intro answer heq
  cases heq

/-- **An invalidation counts** for all calls that are made after it if and only if
no call is about to store a key that is outdated by then. -/
theorem invalidation_effective_iff (s : Calls S) {answer : Time → Except NetworkError S.PublicKey}
    (hsigner : signers.lookup keyId = some answer) (httl : 0 ≤ ttl.toInt) :
    Effective signers ttl s keyId ↔ NoneOutdated signers s keyId := by
  refine ⟨?_, effective_of_current⟩
  intro heffective publicKey answeredAt hmem
  obtain ⟨later, s', hlater, hnow, hgets⟩ := exists_gets hsigner httl hmem
  obtain ⟨t, hsince, hle, hasked⟩ := heffective later s' _ publicKey hlater (Nat.le_refl _) hgets
  rw [hnow] at hle
  rw [Int.le_antisymm hsince hle]
  exact hasked

/-- The signer has answered a call, and a second later its key is another one. -/
def onTheWay : List Move :=
  [.tick 1000000000, .advance 0, .advance 0, .advance 0, .start "node"]

theorem invalidation_effective_iff_onTheWay :
    .fetched "node" "old" 0 ∈ (afterwards onTheWay).tasks ∧
      ¬ Effective rotating 60 (afterwards onTheWay) "node" := by
  have hmem : .fetched "node" "old" 0 ∈ (afterwards onTheWay).tasks := List.mem_singleton.mpr rfl
  refine ⟨hmem, fun heffective => ?_⟩
  have hsigner : rotating.lookup "node" = some fun t =>
      .ok (if t < 1000000000 then "old" else "new") := rfl
  have hsame := (invalidation_effective_iff (afterwards onTheWay) hsigner (by decide)).mp heffective
    "old" 0 hmem
  have hnew : ("new" : String) = "old" := Except.ok.inj hsame
  exact absurd hnew (by decide)

end Axionvera.Node.KeyCache

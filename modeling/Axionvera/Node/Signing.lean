import Axionvera.Lib.Transition
import Mathlib.Data.List.AList

/-! # The signing service

`signing.rs`: signers under key identifiers and a cache of their public keys with
a time to live. `add_signer` takes the service by exclusive reference, so its
calls run one after the other. What a signer answers from afar (its health, and
whether it hands out its public key) is found by each call anew; its key pair is
its own and does not change. -/
namespace Axionvera.Node.Signing
open Axionvera.Lib.Transition

/-- A point in time, in nanoseconds. -/
abbrev Time : Type := Int

abbrev HashMap (ν : Type) : Type := AList fun _ : String => ν

/-- The variants that the service and the signers return. -/
inductive NetworkError where
  | signer (text : String)
  | kms (text : String)
  | notImplemented (text : String)
  deriving DecidableEq

/-- Public keys, messages and signatures, and when a signature is accepted. -/
structure Scheme where
  PublicKey : Type
  Message : Type
  Signature : Type
  verify : PublicKey → Message → Signature → Bool

/-- A key pair whose signatures its public key accepts. -/
structure Signer (S : Scheme) where
  publicKey : S.PublicKey
  sign : S.Message → S.Signature
  correct : ∀ message, S.verify publicKey message (sign message) = true

variable {S : Scheme}

/-! ## The cache -/

structure CacheEntry (S : Scheme) where
  publicKey : S.PublicKey
  cachedAt : Time
  ttl : Int

/-- `CacheEntry::new`, with a time to live given in seconds. -/
def CacheEntry.new (publicKey : S.PublicKey) (now : Time) (ttlSeconds : Int64) : CacheEntry S :=
  ⟨publicKey, now, ttlSeconds.toInt * 1000000000⟩

def CacheEntry.isExpired (entry : CacheEntry S) (now : Time) : Bool :=
  decide (entry.cachedAt + entry.ttl < now)

/-- When a lookup reads the clock: to judge the entry it finds, and for the one
that it stores. -/
structure Clock where
  checkedAt : Time
  storedAt : Time

/-- The unexpired entry or, failing that, what the signer hands out, which is
cached. -/
def getOrFetch (cache : HashMap (CacheEntry S)) (defaultTtlSeconds : Int64) (keyId : String)
    (clock : Clock) (fetch : Except NetworkError S.PublicKey) :
    Except NetworkError S.PublicKey × HashMap (CacheEntry S) :=
  match (cache.lookup keyId).filter fun entry => !entry.isExpired clock.checkedAt with
  | some entry => (.ok entry.publicKey, cache)
  | none =>
    match fetch with
    | .error e => (.error e, cache)
    | .ok publicKey =>
      (.ok publicKey, cache.insert keyId (.new publicKey clock.storedAt defaultTtlSeconds))

/-! ## The service -/

structure SigningService (S : Scheme) where
  signers : HashMap (Signer S)
  cache : HashMap (CacheEntry S)
  defaultTtlSeconds : Int64
  defaultSignerKey : Option String

namespace SigningService

def new (cacheTtlSeconds : Int64) : SigningService S where
  signers := ∅
  cache := ∅
  defaultTtlSeconds := cacheTtlSeconds
  defaultSignerKey := none

/-- `health` is what the signer answers to the check before it is added. -/
def addSigner (s : SigningService S) (keyId : String) (signer : Signer S)
    (health : Except NetworkError Bool) : Except NetworkError Unit × SigningService S :=
  match health with
  | .error e => (.error e, s)
  | .ok false => (.error (.signer s!"Signer health check failed for key_id: {keyId}"), s)
  | .ok true =>
    (.ok (), { s with
      signers := s.signers.insert keyId signer
      defaultSignerKey := some (s.defaultSignerKey.getD keyId) })

def getSigner (s : SigningService S) (keyId : String) : Except NetworkError (Signer S) :=
  match s.signers.lookup keyId with
  | some signer => .ok signer
  | none => .error (.signer s!"Signer not found for key_id: {keyId}")

def setDefaultSigner (s : SigningService S) (keyId : String) :
    Except NetworkError Unit × SigningService S :=
  match s.signers.lookup keyId with
  | some _ => (.ok (), { s with defaultSignerKey := some keyId })
  | none => (.error (.signer s!"Signer not found for key_id: {keyId}"), s)

/-- `reply` is what the signer answers to the request for a signature: it is not
asked for anything else than to sign. -/
def signWith (s : SigningService S) (keyId : String) (message : S.Message)
    (reply : Except NetworkError Unit) : Except NetworkError S.Signature :=
  match s.getSigner keyId with
  | .error e => .error e
  | .ok signer => reply.map fun _ => signer.sign message

/-- `reply` is what the signer answers when its public key is asked for. -/
def getPublicKey (s : SigningService S) (keyId : String) (clock : Clock)
    (reply : Except NetworkError Unit) : Except NetworkError S.PublicKey × SigningService S :=
  match s.getSigner keyId with
  | .error e => (.error e, s)
  | .ok signer =>
    let found := getOrFetch s.cache s.defaultTtlSeconds keyId clock
      (reply.map fun _ => signer.publicKey)
    (found.1, { s with cache := found.2 })

def invalidateCache (s : SigningService S) (keyId : String) : SigningService S :=
  { s with cache := s.cache.erase keyId }

end SigningService

/-! ## Sequences of calls -/

inductive Call (S : Scheme) where
  | addSigner (keyId : String) (signer : Signer S) (health : Except NetworkError Bool)
  | setDefaultSigner (keyId : String)
  | getPublicKey (keyId : String) (clock : Clock) (reply : Except NetworkError Unit)
  | invalidateCache (keyId : String)
  | signWith (keyId : String) (message : S.Message) (reply : Except NetworkError Unit)

def after (s : SigningService S) : Call S → SigningService S
  | .addSigner keyId signer health => (s.addSigner keyId signer health).2
  | .setDefaultSigner keyId => (s.setDefaultSigner keyId).2
  | .getPublicKey keyId clock reply => (s.getPublicKey keyId clock reply).2
  | .invalidateCache keyId => s.invalidateCache keyId
  | .signWith _ _ _ => s

/-- The service after calls, the latest of which comes first. -/
def serviceAfter (cacheTtlSeconds : Int64) (calls : List (Call S)) : SigningService S :=
  calls.foldr (fun call s => after s call) (.new cacheTtlSeconds)

/-! ## Keys that match -/

variable {s : SigningService S} {keyId : String} {call : Call S}

/-- Every public key that the service would hand out now, whatever its clock
says, is that of the signer that it would sign with now. -/
def KeysMatch (s : SigningService S) : Prop :=
  ∀ keyId clock reply publicKey, (s.getPublicKey keyId clock reply).1 = .ok publicKey →
    ∃ signer, s.getSigner keyId = .ok signer ∧ publicKey = signer.publicKey

/-- Every cached key is that of the signer. -/
def CacheMatches (s : SigningService S) : Prop :=
  ∀ keyId entry signer, s.cache.lookup keyId = some entry → s.signers.lookup keyId = some signer →
    entry.publicKey = signer.publicKey

theorem getSigner_eq_ok {signer : Signer S} :
    s.getSigner keyId = .ok signer ↔ s.signers.lookup keyId = some signer := by
  unfold SigningService.getSigner
  cases s.signers.lookup keyId with
  | none => simp
  | some found => simp

/-- Under matching keys a signature is accepted by the key that is handed out. -/
theorem KeysMatch.verify (h : KeysMatch s) {message : S.Message} {signature : S.Signature}
    {clock : Clock} {reply reply' : Except NetworkError Unit} {publicKey : S.PublicKey}
    (hsign : s.signWith keyId message reply = .ok signature)
    (hkey : (s.getPublicKey keyId clock reply').1 = .ok publicKey) :
    S.verify publicKey message signature = true := by
  obtain ⟨signer, hsigner, rfl⟩ := h keyId clock reply' publicKey hkey
  simp only [SigningService.signWith, hsigner] at hsign
  cases reply with
  | error e => cases hsign
  | ok _ =>
    cases hsign
    exact signer.correct message

/-- A lookup answers from the cache, or passes on what the signer answers and
caches a key. -/
theorem getOrFetch_cases (cache : HashMap (CacheEntry S)) (ttl : Int64) (keyId : String)
    (clock : Clock) (fetch : Except NetworkError S.PublicKey) :
    (∃ entry, cache.lookup keyId = some entry ∧
      getOrFetch cache ttl keyId clock fetch = (.ok entry.publicKey, cache)) ∨
    (∃ e, fetch = .error e ∧ getOrFetch cache ttl keyId clock fetch = (.error e, cache)) ∨
    ∃ publicKey, fetch = .ok publicKey ∧ getOrFetch cache ttl keyId clock fetch =
      (.ok publicKey, cache.insert keyId (.new publicKey clock.storedAt ttl)) := by
  unfold getOrFetch
  cases hlive : (cache.lookup keyId).filter fun entry => !entry.isExpired clock.checkedAt with
  | some entry => exact Or.inl ⟨entry, (Option.filter_eq_some_iff.mp hlive).1, rfl⟩
  | none =>
    right
    cases fetch with
    | error e => exact Or.inl ⟨e, rfl, rfl⟩
    | ok publicKey => exact Or.inr ⟨publicKey, rfl, rfl⟩

theorem keysMatch_iff : KeysMatch s ↔ CacheMatches s := by
  refine ⟨?_, ?_⟩
  · -- an entry is handed out at the last moment of its time to live
    intro h keyId entry signer hentry hsigner
    have hlive : entry.isExpired (entry.cachedAt + entry.ttl) = false := by
      simp [CacheEntry.isExpired]
    have hsigner' := getSigner_eq_ok.mpr hsigner
    have hkey : (s.getPublicKey keyId ⟨entry.cachedAt + entry.ttl, 0⟩ (.ok ())).1 =
        .ok entry.publicKey := by
      simp only [SigningService.getPublicKey, hsigner', getOrFetch, hentry, Option.filter_some,
        hlive, Bool.not_false, if_true]
    obtain ⟨signer', hfound, heq⟩ := h keyId _ _ _ hkey
    cases hsigner'.symm.trans hfound
    exact heq
  · intro h keyId clock reply publicKey hkey
    cases hsigner : s.getSigner keyId with
    | error e =>
      simp only [SigningService.getPublicKey, hsigner] at hkey
      cases hkey
    | ok signer =>
      simp only [SigningService.getPublicKey, hsigner] at hkey
      refine ⟨signer, rfl, ?_⟩
      rcases getOrFetch_cases s.cache s.defaultTtlSeconds keyId clock
          (reply.map fun _ => signer.publicKey) with
        ⟨entry, hentry, heq⟩ | ⟨e, _, heq⟩ | ⟨fetched, hfetch, heq⟩
      · rw [heq] at hkey
        cases hkey
        exact h keyId entry signer hentry (getSigner_eq_ok.mp hsigner)
      · rw [heq] at hkey
        cases hkey
      · rw [heq] at hkey
        cases hkey
        cases reply with
        | error e => cases hfetch
        | ok _ => exact (Except.ok.inj hfetch).symm

/-- A signer that is added finds no other key than its own cached under its
identifier. -/
def Fresh (s : SigningService S) : Call S → Prop
  | .addSigner keyId signer (.ok true) =>
    ∀ entry ∈ s.cache.lookup keyId, entry.publicKey = signer.publicKey
  | _ => True

theorem cacheMatches_new (ttl : Int64) : CacheMatches (.new ttl : SigningService S) := by
  intro keyId entry signer hentry
  cases hentry

theorem cacheMatches_addSigner (h : CacheMatches s) (keyId : String) (signer : Signer S) :
    CacheMatches (s.addSigner keyId signer (.ok true)).2 ↔
      Fresh s (.addSigner keyId signer (.ok true)) := by
  refine ⟨?_, ?_⟩
  · intro hadded entry hentry
    exact hadded keyId entry signer hentry (AList.lookup_insert _)
  · intro hfresh k entry signer' hentry hsigner
    by_cases hk : k = keyId
    · subst hk
      cases (AList.lookup_insert s.signers).symm.trans hsigner
      exact hfresh entry hentry
    · exact h k entry signer' hentry ((AList.lookup_insert_ne hk).symm.trans hsigner)

theorem cacheMatches_getPublicKey (h : CacheMatches s) (keyId : String) (clock : Clock)
    (reply : Except NetworkError Unit) : CacheMatches (s.getPublicKey keyId clock reply).2 := by
  unfold SigningService.getPublicKey
  cases hsigner : s.getSigner keyId with
  | error e => exact h
  | ok signer =>
    rcases getOrFetch_cases s.cache s.defaultTtlSeconds keyId clock
        (reply.map fun _ => signer.publicKey) with
      ⟨entry, _, heq⟩ | ⟨e, _, heq⟩ | ⟨fetched, hfetch, heq⟩
    · simp only [heq]
      exact h
    · simp only [heq]
      exact h
    · simp only [heq]
      intro k entry signer' hentry hfound
      by_cases hk : k = keyId
      · subst hk
        cases (AList.lookup_insert s.cache).symm.trans hentry
        cases (getSigner_eq_ok.mp hsigner).symm.trans hfound
        cases reply with
        | error e => cases hfetch
        | ok _ => exact (Except.ok.inj hfetch).symm
      · exact h k entry signer' ((AList.lookup_insert_ne hk).symm.trans hentry) hfound

/-- One call keeps the cache in step with the signers exactly if it is fresh. -/
theorem cacheMatches_after (h : CacheMatches s) (call : Call S) :
    CacheMatches (after s call) ↔ Fresh s call := by
  cases call with
  | addSigner keyId signer health =>
    cases health with
    | error e => exact iff_of_true h trivial
    | ok healthy =>
      cases healthy with
      | false => exact iff_of_true h trivial
      | true => exact cacheMatches_addSigner h keyId signer
  | setDefaultSigner keyId =>
    refine iff_of_true ?_ trivial
    dsimp only [after, SigningService.setDefaultSigner]
    split
    · exact h
    · exact h
  | getPublicKey keyId clock reply =>
    exact iff_of_true (cacheMatches_getPublicKey h keyId clock reply) trivial
  | invalidateCache keyId =>
    refine iff_of_true ?_ trivial
    intro k entry signer hentry hsigner
    by_cases hk : k = keyId
    · subst hk
      rw [after, SigningService.invalidateCache, AList.lookup_erase] at hentry
      cases hentry
    · exact h k entry signer ((AList.lookup_erase_ne hk).symm.trans hentry) hsigner
  | signWith keyId message reply => exact iff_of_true h trivial

/-- **Signatures match the advertised keys** at every moment of a sequence of
calls exactly if no signer in it is registered while another key than its own is
cached under its identifier. -/
theorem keys_match_iff_fresh (ttl : Int64) (calls : List (Call S)) :
    (∀ earlier, earlier <:+ calls → KeysMatch (serviceAfter ttl earlier)) ↔
      ∀ call earlier, (call :: earlier) <:+ calls → Fresh (serviceAfter ttl earlier) call := by
  simp only [keysMatch_iff]
  exact foldr_invariant_iff (cacheMatches_new ttl) fun _ call h => cacheMatches_after h call

/-! ## A signer that is replaced -/

/-- Signatures that name their key. -/
def named : Scheme where
  PublicKey := String
  Message := String
  Signature := String
  verify publicKey _ signature := decide (signature = publicKey)

def namedSigner (name : String) : Signer named where
  publicKey := name
  sign _ := name
  correct _ := decide_eq_true rfl

/-- A signer is registered, its public key is looked up, and a second signer is
registered under the same identifier, all within a minute. -/
def replaced : SigningService named :=
  serviceAfter 60 [.addSigner "node" (namedSigner "new") (.ok true),
    .getPublicKey "node" ⟨1000000000, 1000000000⟩ (.ok ()),
    .addSigner "node" (namedSigner "old") (.ok true)]

/-- The service signs with the second and hands out the key of the first, so its
own signature is not accepted. -/
theorem replaced_signer_mismatch :
    replaced.signWith "node" "message" (.ok ()) = .ok "new" ∧
      (replaced.getPublicKey "node" ⟨2000000000, 2000000000⟩ (.ok ())).1 = .ok "old" ∧
      named.verify "old" "message" "new" = false :=
  ⟨rfl, rfl, rfl⟩

end Axionvera.Node.Signing

import Mathlib.Data.List.AList
import Axionvera.Lib.Transition

/-! # Batch signature verification

`crypto.rs`: `verify_batch` sends its requests into a channel and takes the next
batch result out of another. Between the two, the batch processor collects
requests and answers a batch when it is large enough or when its sleep ends, and
the workers take requests from the same channel and answer nobody. The service is
called through an exclusive reference, so its calls follow one another; every
await of the caller, of a worker and of the processor ends a step. -/
namespace Axionvera.Node.BatchVerification
open Axionvera.Lib.Transition

abbrev Bytes : Type := List UInt8

structure Request where
  id : String
  publicKey : Bytes
  message : Bytes
  signature : Bytes
  deriving DecidableEq

structure SignatureVerificationResult where
  requestId : String
  isValid : Bool
  error : Option String
  deriving DecidableEq

structure BatchVerificationResult where
  totalRequests : Nat
  validSignatures : Nat
  invalidSignatures : Nat
  failedVerifications : List String
  results : List SignatureVerificationResult
  deriving DecidableEq

/-! ## Verification -/

/-- The signature scheme, with the texts of its errors. -/
structure Ed25519 where
  PublicKey : Type
  Signature : Type
  publicKeyFromBytes : Bytes → Except String PublicKey
  signatureFromBytes : Bytes → Except String Signature
  verify : PublicKey → Bytes → Signature → Except String Unit

/-- `NetworkError::Crypto`, the one error of a verification. -/
structure CryptoError where
  text : String

def CryptoError.display (e : CryptoError) : String := s!"Cryptographic error: {e.text}"

def verifySignature (ed : Ed25519) (request : Request) : Except CryptoError Unit :=
  match ed.publicKeyFromBytes request.publicKey with
  | .error e => .error ⟨s!"Invalid public key: {e}"⟩
  | .ok publicKey =>
    match ed.signatureFromBytes request.signature with
    | .error e => .error ⟨s!"Invalid signature: {e}"⟩
    | .ok signature =>
      match ed.verify publicKey request.message signature with
      | .error e => .error ⟨s!"Signature verification failed: {e}"⟩
      | .ok _ => .ok ()

/-- The result for one request. -/
def resultOf (ed : Ed25519) (request : Request) : SignatureVerificationResult :=
  match verifySignature ed request with
  | .ok _ => ⟨request.id, true, none⟩
  | .error e => ⟨request.id, false, some e.display⟩

/-- One round of the loop of `process_batch`. -/
def processRequest (ed : Ed25519) (sofar : BatchVerificationResult) (request : Request) :
    BatchVerificationResult :=
  let result := resultOf ed request
  if result.isValid then
    { sofar with
      validSignatures := sofar.validSignatures + 1
      results := sofar.results ++ [result] }
  else
    { sofar with
      invalidSignatures := sofar.invalidSignatures + 1
      failedVerifications := sofar.failedVerifications ++ [request.id]
      results := sofar.results ++ [result] }

def processBatch (ed : Ed25519) (batch : List Request) : BatchVerificationResult :=
  batch.foldl (processRequest ed) ⟨batch.length, 0, 0, [], []⟩

def isValid (ed : Ed25519) (request : Request) : Bool := (resultOf ed request).isValid

theorem foldl_processRequest (ed : Ed25519) (batch : List Request)
    (sofar : BatchVerificationResult) :
    batch.foldl (processRequest ed) sofar =
      ⟨sofar.totalRequests, sofar.validSignatures + batch.countP (isValid ed),
        sofar.invalidSignatures + batch.countP (fun request => !isValid ed request),
        sofar.failedVerifications ++ (batch.filter fun request => !isValid ed request).map (·.id),
        sofar.results ++ batch.map (resultOf ed)⟩ := by
  induction batch generalizing sofar with
  | nil => simp
  | cons request batch ih =>
    rw [List.foldl_cons, ih]
    cases hvalid : isValid ed request with
    | true => simp [processRequest, show (resultOf ed request).isValid = true from hvalid, hvalid,
        Nat.add_assoc, Nat.add_comm]
    | false => simp [processRequest, show (resultOf ed request).isValid = false from hvalid, hvalid,
        Nat.add_assoc, Nat.add_comm]

/-- A batch result has one result for each request of its batch, in order. -/
theorem processBatch_results (ed : Ed25519) (batch : List Request) :
    (processBatch ed batch).results = batch.map (resultOf ed) := by
  rw [processBatch, foldl_processRequest]
  exact List.nil_append _

/-! ## The service -/

/-- The settings of the pool. -/
structure Pool where
  workerCount : Nat
  batchSize : Nat
  batchTimeoutMs : Nat
  ed : Ed25519

/-- Where the caller is in `verify_batch`. -/
inductive Caller where
  | idle
  /-- In the loop of `verify_signature_batch`, before the pending map. -/
  | storing (requests rest : List Request)
  | sending (requests : List Request) (request : Request) (rest : List Request)
  | waiting (requests : List Request)

/-- What is between the caller's sending and its receiving. -/
structure Traffic where
  work : List Request
  batch : List Request
  results : List BatchVerificationResult
  deriving DecidableEq

structure State where
  caller : Caller
  traffic : Traffic
  workers : List (Option Request)
  pendingRequests : AList fun _ : String => Request
  now : Nat
  lastBatchTime : Nat
  /-- When the processor began its sleep. -/
  sleepingSince : Nat
  /-- What the calls have returned, the latest first. -/
  returned : List (List Request × BatchVerificationResult)

def State.new (pool : Pool) : State where
  caller := .idle
  traffic := ⟨[], [], []⟩
  workers := List.replicate pool.workerCount none
  pendingRequests := ∅
  now := 0
  lastBatchTime := 0
  sleepingSince := 0
  returned := []

def callerStep (s : State) : Option State :=
  match s.caller with
  | .idle => none
  | .storing requests [] => some { s with caller := .waiting requests }
  | .storing requests (request :: rest) =>
    some { s with
      caller := .sending requests request rest
      pendingRequests := s.pendingRequests.insert request.id request }
  | .sending requests request rest =>
    some { s with
      caller := .storing requests rest
      traffic := { s.traffic with work := s.traffic.work ++ [request] } }
  | .waiting requests =>
    match s.traffic.results with
    | [] => none
    | result :: later =>
      some { s with
        caller := .idle
        traffic := { s.traffic with results := later }
        returned := (requests, result) :: s.returned }

/-- A worker takes a request or finishes the one it has. What it finds about the
signature it writes to the log only. -/
def workerStep (s : State) (i : Nat) : Option State :=
  match s.workers[i]? with
  | none => none
  | some none =>
    match s.traffic.work with
    | [] => none
    | request :: rest =>
      some { s with
        workers := s.workers.set i (some request)
        traffic := { s.traffic with work := rest } }
  | some (some request) =>
    some { s with
      workers := s.workers.set i none
      pendingRequests := s.pendingRequests.erase request.id }

def flush (pool : Pool) (s : State) : State :=
  { s with
    traffic := { s.traffic with
      batch := []
      results := s.traffic.results ++ [processBatch pool.ed s.traffic.batch] }
    lastBatchTime := s.now }

/-- The processor receives a request. Its next sleep begins afterwards. -/
def receiveStep (pool : Pool) (s : State) : Option State :=
  match s.traffic.work with
  | [] => none
  | request :: rest =>
    let pushed := { s with
      traffic := { s.traffic with work := rest, batch := s.traffic.batch ++ [request] } }
    let next := if pool.batchSize ≤ pushed.traffic.batch.length then flush pool pushed else pushed
    some { next with sleepingSince := s.now }

/-- The sleep of the processor ends. -/
def timeoutStep (pool : Pool) (s : State) : Option State :=
  if s.sleepingSince + pool.batchTimeoutMs ≤ s.now then
    let next :=
      if !s.traffic.batch.isEmpty ∧ s.lastBatchTime + pool.batchTimeoutMs ≤ s.now then flush pool s
      else s
    some { next with sleepingSince := s.now }
  else none

inductive Move where
  | call (requests : List Request)
  | caller
  | worker (i : Nat)
  | receive
  | timeout
  | tick (ms : Nat)

def step (pool : Pool) (s : State) : Move → Option State
  | .call requests =>
    match s.caller with
    | .idle => some { s with caller := .storing requests requests }
    | _ => none
  | .caller => callerStep s
  | .worker i => workerStep s i
  | .receive => receiveStep pool s
  | .timeout => timeoutStep pool s
  | .tick ms => some { s with now := s.now + ms }

def Step (pool : Pool) (s : State) (m : Move) (s' : State) : Prop := step pool s m = some s'

def Move.asCall : Move → Option (List Request)
  | .call requests => some requests
  | _ => none

/-- The calls among moves. -/
def callsOf (moves : List Move) : List (List Request) := moves.filterMap Move.asCall

/-- Every call has got one result for each of its requests, in order, and no other. -/
def AnswersMatch (pool : Pool) (s : State) : Prop :=
  ∀ answer ∈ s.returned, answer.2.results = answer.1.map (resultOf pool.ed)

variable {pool : Pool} {s s' : State} {m : Move} {moves : List Move} {t t' : Traffic}
  {request : Request} {requests rest : List Request} {calls : List (List Request)}

/-! ## What happens to a request on its way -/

/-- What the workers and the processor do to the traffic. -/
inductive Flow (pool : Pool) : Traffic → Traffic → Prop
  | still (t : Traffic) : Flow pool t t
  | dropped (request : Request) (work batch : List Request)
      (results : List BatchVerificationResult) :
      Flow pool ⟨request :: work, batch, results⟩ ⟨work, batch, results⟩
  | batched (request : Request) (work batch : List Request)
      (results : List BatchVerificationResult) :
      Flow pool ⟨request :: work, batch, results⟩ ⟨work, batch ++ [request], results⟩
  | filled (request : Request) (work batch : List Request)
      (results : List BatchVerificationResult) :
      Flow pool ⟨request :: work, batch, results⟩
        ⟨work, [], results ++ [processBatch pool.ed (batch ++ [request])]⟩
  | flushed (work batch : List Request) (results : List BatchVerificationResult)
      (h : batch ≠ []) :
      Flow pool ⟨work, batch, results⟩ ⟨work, [], results ++ [processBatch pool.ed batch]⟩

theorem workerStep_flow {i : Nat} (h : workerStep s i = some s') :
    s'.caller = s.caller ∧ s'.returned = s.returned ∧ Flow pool s.traffic s'.traffic := by
  obtain ⟨caller, ⟨work, batch, results⟩, workers, pending, now, last, sleeping, returned⟩ := s
  unfold workerStep at h
  split at h
  · cases h
  · cases work with
    | nil => cases h
    | cons request work =>
      cases h
      exact ⟨rfl, rfl, .dropped request work batch results⟩
  · cases h
    exact ⟨rfl, rfl, .still _⟩

theorem receiveStep_flow (h : receiveStep pool s = some s') :
    s'.caller = s.caller ∧ s'.returned = s.returned ∧ Flow pool s.traffic s'.traffic := by
  obtain ⟨caller, ⟨work, batch, results⟩, workers, pending, now, last, sleeping, returned⟩ := s
  cases work with
  | nil => cases h
  | cons request work =>
    cases h
    dsimp only
    split
    · exact ⟨rfl, rfl, .filled request work batch results⟩
    · exact ⟨rfl, rfl, .batched request work batch results⟩

theorem timeoutStep_flow (h : timeoutStep pool s = some s') :
    s'.caller = s.caller ∧ s'.returned = s.returned ∧ Flow pool s.traffic s'.traffic := by
  obtain ⟨caller, ⟨work, batch, results⟩, workers, pending, now, last, sleeping, returned⟩ := s
  unfold timeoutStep at h
  split at h
  · cases h
    dsimp only
    split
    case isTrue hbatch => exact ⟨rfl, rfl, .flushed work batch results (by simpa using hbatch.1)⟩
    case isFalse => exact ⟨rfl, rfl, .still _⟩
  · cases h

/-- Everything that goes on without the caller. -/
theorem background_flow (h : step pool s m = some s') (hcall : m.asCall = none)
    (hcaller : m ≠ .caller) :
    s'.caller = s.caller ∧ s'.returned = s.returned ∧ Flow pool s.traffic s'.traffic := by
  cases m with
  | call => cases hcall
  | caller => exact absurd rfl hcaller
  | worker i => exact workerStep_flow h
  | receive => exact receiveStep_flow h
  | timeout => exact timeoutStep_flow h
  | tick ms =>
    cases h
    exact ⟨rfl, rfl, .still _⟩

theorem Flow.eq_nil (h : Flow pool ⟨[], [], []⟩ t) : t = ⟨[], [], []⟩ := by
  cases h with
  | still => rfl
  | flushed _ _ _ hbatch => exact absurd rfl hbatch

/-- Where a request that is alone can be, and what its result then is. -/
inductive OnTheWay (pool : Pool) (request : Request) : Traffic → Prop
  | lost : OnTheWay pool request ⟨[], [], []⟩
  | queued : OnTheWay pool request ⟨[request], [], []⟩
  | batched : OnTheWay pool request ⟨[], [request], []⟩
  | answered : OnTheWay pool request ⟨[], [], [processBatch pool.ed [request]]⟩

theorem OnTheWay.flow (h : OnTheWay pool request t) (hflow : Flow pool t t') :
    OnTheWay pool request t' := by
  cases h with
  | lost =>
    rw [hflow.eq_nil]
    exact .lost
  | queued =>
    cases hflow with
    | still => exact .queued
    | dropped => exact .lost
    | batched => exact .batched
    | filled => exact .answered
    | flushed _ _ _ hbatch => exact absurd rfl hbatch
  | batched =>
    cases hflow with
    | still => exact .batched
    | flushed => exact .answered
  | answered =>
    cases hflow with
    | still => exact .answered
    | flushed _ _ _ hbatch => exact absurd rfl hbatch

/-! ## Calls with one request -/

/-- Calls with one request: between calls nothing is on its way, and during a
call its request alone. -/
inductive Orderly (pool : Pool) : Caller → Traffic → Prop
  | idle : Orderly pool .idle ⟨[], [], []⟩
  | storing (request : Request) : Orderly pool (.storing [request] [request]) ⟨[], [], []⟩
  | sending (request : Request) : Orderly pool (.sending [request] request []) ⟨[], [], []⟩
  | sent {request : Request} {t : Traffic} (h : OnTheWay pool request t) :
      Orderly pool (.storing [request] []) t
  | waiting {request : Request} {t : Traffic} (h : OnTheWay pool request t) :
      Orderly pool (.waiting [request]) t

theorem Orderly.flow {caller : Caller} (h : Orderly pool caller t) (hflow : Flow pool t t') :
    Orderly pool caller t' := by
  cases h with
  | idle =>
    rw [hflow.eq_nil]
    exact .idle
  | storing request =>
    rw [hflow.eq_nil]
    exact .storing request
  | sending request =>
    rw [hflow.eq_nil]
    exact .sending request
  | sent h => exact .sent (h.flow hflow)
  | waiting h => exact .waiting (h.flow hflow)

def Served (pool : Pool) (s : State) : Prop :=
  Orderly pool s.caller s.traffic ∧ AnswersMatch pool s

theorem Served.caller (h : Served pool s) (hs : callerStep s = some s') : Served pool s' := by
  obtain ⟨caller, traffic, workers, pending, now, last, sleeping, returned⟩ := s
  obtain ⟨horderly, hmatch⟩ := h
  dsimp only at horderly
  cases horderly with
  | idle => cases hs
  | storing request =>
    cases hs
    exact ⟨.sending request, hmatch⟩
  | sending request =>
    cases hs
    exact ⟨.sent .queued, hmatch⟩
  | sent h =>
    cases hs
    exact ⟨.waiting h, hmatch⟩
  | waiting h =>
    cases h with
    | answered =>
      cases hs
      refine ⟨.idle, ?_⟩
      intro answer hanswer
      rcases List.mem_cons.mp hanswer with rfl | hanswer
      · exact processBatch_results _ _
      · exact hmatch answer hanswer
    | _ => cases hs

theorem Served.step (h : Served pool s) (hs : Step pool s m s')
    (hcall : ∀ requests ∈ m.asCall, requests.length = 1) : Served pool s' := by
  by_cases hcaller : m = .caller
  · subst hcaller
    exact h.caller hs
  cases hm : m.asCall with
  | none =>
    obtain ⟨hsame, hreturned, hflow⟩ := background_flow hs hm hcaller
    refine ⟨?_, ?_⟩
    · rw [hsame]
      exact h.1.flow hflow
    · rw [AnswersMatch, hreturned]
      exact h.2
  | some requests =>
    obtain ⟨request, rfl⟩ := List.length_eq_one_iff.mp (hcall requests hm)
    cases m with
    | call requests =>
      cases hm
      obtain ⟨caller, traffic, workers, pending, now, last, sleeping, returned⟩ := s
      obtain ⟨horderly, hmatch⟩ := h
      dsimp only at horderly
      cases horderly with
      | idle =>
        cases hs
        exact ⟨.storing request, hmatch⟩
      | _ => cases hs
    | _ => cases hm

/-- What every step keeps whose call, if it is one, meets a condition holds after
a run whose calls all meet it. -/
theorem invariant_of_calls {I : State → Prop} {C : List Request → Prop} (h0 : I (State.new pool))
    (hstep : ∀ moves s m s', Run (Step pool) (State.new pool) moves s → I s → Step pool s m s' →
      (∀ requests ∈ m.asCall, C requests) → I s')
    (hrun : Run (Step pool) (State.new pool) moves s)
    (hcalls : ∀ requests ∈ callsOf moves, C requests) : I s := by
  induction hrun with
  | nil => exact h0
  | @snoc moves s s' m hrun hs ih =>
    have hearlier : ∀ requests ∈ callsOf moves, C requests := by
      intro requests hmem
      refine hcalls requests ?_
      obtain ⟨m', hm', heq⟩ := List.mem_filterMap.mp hmem
      exact List.mem_filterMap.mpr ⟨m', List.mem_cons_of_mem m hm', heq⟩
    refine hstep _ _ _ _ hrun (ih hearlier) hs ?_
    intro requests hrequests
    exact hcalls requests (List.mem_filterMap.mpr ⟨m, List.mem_cons_self, hrequests⟩)

theorem served_of_single (hrun : Run (Step pool) (State.new pool) moves s)
    (hcalls : ∀ requests ∈ callsOf moves, requests.length = 1) : Served pool s :=
  invariant_of_calls ⟨.idle, List.forall_mem_nil _⟩ (fun _ _ _ _ _ h hs hcall => h.step hs hcall)
    hrun hcalls

/-! ## A call whose first request is answered alone -/

/-- Some schedule with these calls leads from one state to the other. -/
def Reaches (pool : Pool) (s : State) (calls : List (List Request)) (s' : State) : Prop :=
  ∃ moves, Run (Step pool) s moves s' ∧ callsOf moves = calls

theorem Reaches.trans {s'' : State} {calls' : List (List Request)} (h : Reaches pool s calls s')
    (h' : Reaches pool s' calls' s'') : Reaches pool s (calls' ++ calls) s'' := by
  obtain ⟨moves, hrun, rfl⟩ := h
  obtain ⟨moves', hrun', rfl⟩ := h'
  exact ⟨moves' ++ moves, hrun.trans hrun', List.filterMap_append⟩

theorem Reaches.single (h : step pool s m = some s') : Reaches pool s (callsOf [m]) s' :=
  ⟨[m], .snoc .nil h, rfl⟩

/-- The caller has sent the first request of its list. -/
theorem reaches_sent (pool : Pool) (request : Request) (rest : List Request)
    (hcaller : s.caller = .idle) (htraffic : s.traffic = ⟨[], [], []⟩) :
    ∃ s', Reaches pool s [request :: rest] s' ∧ s'.caller = .storing (request :: rest) rest ∧
      s'.traffic = ⟨[request], [], []⟩ ∧ s'.returned = s.returned := by
  obtain ⟨caller, traffic, workers, pending, now, last, sleeping, returned⟩ := s
  dsimp only at hcaller htraffic
  subst hcaller
  subst htraffic
  have hcall : Reaches pool
      ⟨.idle, ⟨[], [], []⟩, workers, pending, now, last, sleeping, returned⟩ [request :: rest] _ :=
    .single (m := .call (request :: rest)) rfl
  have hstored := hcall.trans (.single (m := .caller) rfl)
  exact ⟨_, hstored.trans (.single (m := .caller) rfl), rfl, rfl, rfl⟩

theorem receive_alone (pool : Pool) (htraffic : s.traffic = ⟨[request], [], []⟩) :
    ∃ s', Reaches pool s [] s' ∧ s'.caller = s.caller ∧ s'.returned = s.returned ∧
      s'.traffic = if pool.batchSize ≤ 1 then ⟨[], [], [processBatch pool.ed [request]]⟩
        else ⟨[], [request], []⟩ := by
  obtain ⟨caller, traffic, workers, pending, now, last, sleeping, returned⟩ := s
  dsimp only at htraffic
  subst htraffic
  refine ⟨_, .single (m := .receive) rfl, ?_⟩
  by_cases hsize : pool.batchSize ≤ 1
  · simp [hsize, flush]
  · simp [hsize]

/-- The processor sleeps to the end and answers its batch. -/
theorem reaches_flush (pool : Pool) (hbatch : s.traffic.batch ≠ []) :
    ∃ s', Reaches pool s [] s' ∧ s'.caller = s.caller ∧ s'.returned = s.returned ∧
      s'.traffic = ⟨s.traffic.work, [],
        s.traffic.results ++ [processBatch pool.ed s.traffic.batch]⟩ := by
  have htick : Reaches pool s [] { s with
      now := s.now + (s.sleepingSince + s.lastBatchTime + pool.batchTimeoutMs) } :=
    .single (m := .tick _) rfl
  have hawake : s.sleepingSince + pool.batchTimeoutMs ≤
      s.now + (s.sleepingSince + s.lastBatchTime + pool.batchTimeoutMs) := by omega
  have helapsed : s.lastBatchTime + pool.batchTimeoutMs ≤
      s.now + (s.sleepingSince + s.lastBatchTime + pool.batchTimeoutMs) := by omega
  refine ⟨_, htick.trans (.single (m := .timeout) (if_pos hawake)), ?_⟩
  simp [hbatch, helapsed, flush]

/-- The processor answers the one request of the channel: at once, or when its
sleep ends. -/
theorem reaches_answered (pool : Pool) (htraffic : s.traffic = ⟨[request], [], []⟩) :
    ∃ s', Reaches pool s [] s' ∧ s'.caller = s.caller ∧ s'.returned = s.returned ∧
      s'.traffic = ⟨[], [], [processBatch pool.ed [request]]⟩ := by
  obtain ⟨s₁, hreceive, hcaller₁, hreturned₁, htraffic₁⟩ := receive_alone pool htraffic
  split at htraffic₁
  · exact ⟨s₁, hreceive, hcaller₁, hreturned₁, htraffic₁⟩
  · obtain ⟨s₂, htimeout, hcaller₂, hreturned₂, htraffic₂⟩ :=
      reaches_flush pool (s := s₁) (by simp [htraffic₁])
    rw [htraffic₁] at htraffic₂
    exact ⟨s₂, hreceive.trans htimeout, hcaller₂.trans hcaller₁, hreturned₂.trans hreturned₁,
      htraffic₂⟩

/-- The caller sends the rest of its requests. -/
theorem reaches_waiting (pool : Pool) (hcaller : s.caller = .storing requests rest) :
    ∃ s', Reaches pool s [] s' ∧ s'.caller = .waiting requests ∧ s'.returned = s.returned ∧
      s'.traffic = { s.traffic with work := s.traffic.work ++ rest } := by
  induction rest generalizing s with
  | nil =>
    refine ⟨{ s with caller := .waiting requests }, .single (m := .caller) ?_, rfl, rfl, ?_⟩
    · simp only [step, callerStep, hcaller]
    · rw [List.append_nil]
  | cons request rest ih =>
    have hstore : step pool s .caller = some { s with
        caller := .sending requests request rest
        pendingRequests := s.pendingRequests.insert request.id request } := by
      simp only [step, callerStep, hcaller]
    have hsent := (Reaches.single hstore).trans (.single (m := .caller) rfl)
    obtain ⟨s', hrest, hcaller', hreturned', htraffic'⟩ := ih (s := { s with
      caller := .storing requests rest
      traffic := { s.traffic with work := s.traffic.work ++ [request] }
      pendingRequests := s.pendingRequests.insert request.id request }) rfl
    refine ⟨s', hsent.trans hrest, hcaller', hreturned', ?_⟩
    rw [htraffic', List.append_assoc]
    rfl

/-- A call can be given the result of its first request alone. -/
theorem reaches_first_alone (pool : Pool) (request : Request) (rest : List Request)
    (hcaller : s.caller = .idle) (htraffic : s.traffic = ⟨[], [], []⟩) :
    ∃ s', Reaches pool s [request :: rest] s' ∧ s'.caller = .idle ∧ s'.traffic = ⟨rest, [], []⟩ ∧
      s'.returned = (request :: rest, processBatch pool.ed [request]) :: s.returned := by
  obtain ⟨s₁, hsent, hcaller₁, htraffic₁, hreturned₁⟩ :=
    reaches_sent pool request rest hcaller htraffic
  obtain ⟨s₂, hanswered, hcaller₂, hreturned₂, htraffic₂⟩ := reaches_answered pool htraffic₁
  obtain ⟨s₃, hwaiting, hcaller₃, hreturned₃, htraffic₃⟩ :=
    reaches_waiting pool (hcaller₂.trans hcaller₁)
  rw [htraffic₂] at htraffic₃
  have htaken : step pool s₃ .caller = some { s₃ with
      caller := .idle
      traffic := ⟨rest, [], []⟩
      returned := (request :: rest, processBatch pool.ed [request]) :: s.returned } := by
    simp only [step, callerStep, hcaller₃, htraffic₃, hreturned₃.trans (hreturned₂.trans hreturned₁),
      List.nil_append]
  exact ⟨_, ((hsent.trans hanswered).trans hwaiting).trans (.single htaken), rfl, rfl, rfl⟩

theorem reaches_of_single (pool : Pool) (hcalls : ∀ requests ∈ calls, requests.length = 1) :
    ∃ s, Reaches pool (State.new pool) calls s ∧ s.caller = .idle ∧ s.traffic = ⟨[], [], []⟩ := by
  induction calls with
  | nil => exact ⟨_, ⟨[], .nil, rfl⟩, rfl, rfl⟩
  | cons last calls ih =>
    obtain ⟨hlast, hearlier⟩ := List.forall_mem_cons.mp hcalls
    obtain ⟨request, rfl⟩ := List.length_eq_one_iff.mp hlast
    obtain ⟨s, hreaches, hcaller, htraffic⟩ := ih hearlier
    obtain ⟨s', hreaches', hcaller', htraffic', _⟩ :=
      reaches_first_alone pool request [] hcaller htraffic
    exact ⟨s', hreaches.trans hreaches', hcaller', htraffic'⟩

/-- The first call with more than one request can be given too few results. -/
theorem reaches_mismatch (pool : Pool) (hne : ∀ requests ∈ calls, requests ≠ [])
    (hcalls : ¬ ∀ requests ∈ calls, requests.length = 1) :
    ∃ calls' s, calls' <:+ calls ∧ Reaches pool (State.new pool) calls' s ∧
      ¬ AnswersMatch pool s := by
  induction calls with
  | nil => exact absurd (List.forall_mem_nil _) hcalls
  | cons last calls ih =>
    obtain ⟨hlast, hne⟩ := List.forall_mem_cons.mp hne
    by_cases hearlier : ∀ requests ∈ calls, requests.length = 1
    · obtain ⟨s, hreaches, hcaller, htraffic⟩ := reaches_of_single pool hearlier
      obtain ⟨request, rest, rfl⟩ := List.exists_cons_of_ne_nil hlast
      obtain ⟨s', hreaches', _, _, hreturned⟩ :=
        reaches_first_alone pool request rest hcaller htraffic
      refine ⟨_, s', List.suffix_rfl, hreaches.trans hreaches', ?_⟩
      intro hmatch
      have hfirst := hmatch _ (hreturned ▸ List.mem_cons_self)
      have hlength := congrArg List.length hfirst
      rw [processBatch_results, List.length_map, List.length_map] at hlength
      exact hcalls (List.forall_mem_cons.mpr ⟨hlength.symm, hearlier⟩)
    · obtain ⟨calls', s, hsuffix, hreaches, hwrong⟩ := ih hne hearlier
      exact ⟨calls', s, hsuffix.trans (List.suffix_cons last calls), hreaches, hwrong⟩

/-! ## A request that a worker takes -/

/-- A call whose request a worker has taken is never answered. -/
theorem waiting_forever (hcaller : s.caller = .waiting requests)
    (htraffic : s.traffic = ⟨[], [], []⟩) (hrun : Run (Step pool) s moves s') :
    s'.caller = .waiting requests := by
  have hkept : s'.caller = .waiting requests ∧ s'.traffic = ⟨[], [], []⟩ := by
    refine Run.invariant (I := fun s => s.caller = .waiting requests ∧ s.traffic = ⟨[], [], []⟩)
      ⟨hcaller, htraffic⟩ ?_ hrun
    intro s m t h hs
    by_cases hm : m = .caller
    · subst hm
      simp only [Step, step, callerStep, h.1, h.2] at hs
      cases hs
    cases hcall : m.asCall with
    | none =>
      obtain ⟨hsame, _, hflow⟩ := background_flow hs hcall hm
      rw [h.2] at hflow
      exact ⟨hsame.trans h.1, hflow.eq_nil⟩
    | some requests' =>
      cases m with
      | call =>
        simp only [Step, step, h.1] at hs
        cases hs
      | _ => cases hcall
  exact hkept.1

end Axionvera.Node.BatchVerification

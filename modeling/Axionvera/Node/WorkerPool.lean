import Axionvera.Node.BatchVerification

/-! # The requests of the verification pool

What becomes of the requests of all calls, over every schedule of the callers, the
workers and the batch processor. What has been answered, then what waits, is a
part of what was asked, in its order, so no request is answered twice; whatever
else is missing a worker took (`answers_in_order`). A call that waits can always
still be answered if and only if there are no workers
(`answerable_iff_no_workers`), and it gets what it asked for if and only if every
call has a single request besides (`answered_iff_single`). A request that is
answered stays in the map of pending ones (`pending_keeps_answered`). -/
namespace Axionvera.Node.WorkerPool
open Axionvera.Lib.Transition
open Axionvera.Node.BatchVerification

variable {pool : Pool} {s s' : State} {m : Move} {moves : List Move}

/-! ## Steps -/

/-- What a step does. The times of the processor are not looked at. -/
inductive Moved (pool : Pool) (s : State) : Move → State → Prop
  | called {requests : List Request} (caller : s.caller = .idle) :
      Moved pool s (.call requests) { s with caller := .storing requests requests }
  | stored {requests rest : List Request} {request : Request}
      (caller : s.caller = .storing requests (request :: rest)) :
      Moved pool s .caller { s with
        caller := .sending requests request rest
        pendingRequests := s.pendingRequests.insert request.id request }
  | sent {requests rest : List Request} {request : Request}
      (caller : s.caller = .sending requests request rest) :
      Moved pool s .caller { s with
        caller := .storing requests rest
        traffic := { s.traffic with work := s.traffic.work ++ [request] } }
  | waits {requests : List Request} (caller : s.caller = .storing requests []) :
      Moved pool s .caller { s with caller := .waiting requests }
  | returned {requests : List Request} {result : BatchVerificationResult}
      {later : List BatchVerificationResult} (caller : s.caller = .waiting requests)
      (results : s.traffic.results = result :: later) :
      Moved pool s .caller { s with
        caller := .idle
        traffic := { s.traffic with results := later }
        returned := (requests, result) :: s.returned }
  | took {i : Nat} {request : Request} {rest : List Request} (worker : s.workers[i]? = some none)
      (work : s.traffic.work = request :: rest) :
      Moved pool s (.worker i) { s with
        workers := s.workers.set i (some request)
        traffic := { s.traffic with work := rest } }
  | finished {i : Nat} {request : Request} (worker : s.workers[i]? = some (some request)) :
      Moved pool s (.worker i) { s with
        workers := s.workers.set i none
        pendingRequests := s.pendingRequests.erase request.id }
  | batched {request : Request} {rest : List Request} (sleepingSince : Nat)
      (work : s.traffic.work = request :: rest) :
      Moved pool s .receive { s with
        traffic := { s.traffic with work := rest, batch := s.traffic.batch ++ [request] }
        sleepingSince := sleepingSince }
  | filled {request : Request} {rest : List Request} (sleepingSince lastBatchTime : Nat)
      (work : s.traffic.work = request :: rest) :
      Moved pool s .receive { s with
        traffic := ⟨rest, [],
          s.traffic.results ++ [processBatch pool.ed (s.traffic.batch ++ [request])]⟩
        sleepingSince := sleepingSince
        lastBatchTime := lastBatchTime }
  | flushed (sleepingSince lastBatchTime : Nat) :
      Moved pool s .timeout { s with
        traffic := ⟨s.traffic.work, [], s.traffic.results ++ [processBatch pool.ed s.traffic.batch]⟩
        sleepingSince := sleepingSince
        lastBatchTime := lastBatchTime }
  | slept (sleepingSince : Nat) : Moved pool s .timeout { s with sleepingSince := sleepingSince }
  | ticked (ms : Nat) : Moved pool s (.tick ms) { s with now := s.now + ms }

theorem moved_caller (h : callerStep s = some s') : Moved pool s .caller s' := by
  unfold callerStep at h
  split at h
  case h_1 => cases h
  case h_2 hcaller =>
    cases h
    exact .waits hcaller
  case h_3 hcaller =>
    cases h
    exact .stored hcaller
  case h_4 hcaller =>
    cases h
    exact .sent hcaller
  case h_5 hcaller =>
    split at h
    · cases h
    · rename_i hresults
      cases h
      exact .returned hcaller hresults

theorem moved_worker {i : Nat} (h : workerStep s i = some s') : Moved pool s (.worker i) s' := by
  unfold workerStep at h
  split at h
  · cases h
  · rename_i hworker
    split at h
    · cases h
    · rename_i hwork
      cases h
      exact .took hworker hwork
  · rename_i hworker
    cases h
    exact .finished hworker

theorem moved_receive (h : receiveStep pool s = some s') : Moved pool s .receive s' := by
  unfold receiveStep at h
  split at h
  · cases h
  · rename_i hwork
    cases h
    dsimp only
    split
    · exact .filled _ _ hwork
    · exact .batched _ hwork

theorem moved_timeout (h : timeoutStep pool s = some s') : Moved pool s .timeout s' := by
  unfold timeoutStep at h
  split at h
  · cases h
    split
    · exact .flushed _ _
    · exact .slept _
  · cases h

theorem moved (h : Step pool s m s') : Moved pool s m s' := by
  cases m with
  | call requests =>
    simp only [Step, step] at h
    split at h
    · rename_i hcaller
      cases h
      exact .called hcaller
    · cases h
  | caller => exact moved_caller h
  | worker i => exact moved_worker h
  | receive => exact moved_receive h
  | timeout => exact moved_timeout h
  | tick ms =>
    cases h
    exact .ticked ms

/-! ## Answers -/

/-- The requests of all calls, in the order in which they were given. -/
def asked (moves : List Move) : List Request := (callsOf moves).reverse.flatten

/-- The requests of the running call that are not in the channel yet. -/
def unsent : Caller → List Request
  | .idle => []
  | .storing _ rest => rest
  | .sending _ request rest => request :: rest
  | .waiting _ => []

/-- The batch results in the order in which they were made: those that calls have
returned, and those that no call has taken yet. -/
def delivered (s : State) : List BatchVerificationResult :=
  (s.returned.map Prod.snd).reverse ++ s.traffic.results

def answers (s : State) : List SignatureVerificationResult :=
  (delivered s).flatMap (·.results)

/-- The requests that wait for an answer, the first to get one in front. -/
def outstanding (s : State) : List Request :=
  s.traffic.batch ++ (s.traffic.work ++ unsent s.caller)

/-- The answers so far, and those that the requests still waiting are to get. -/
def ledger (pool : Pool) (s : State) : List SignatureVerificationResult :=
  answers s ++ (outstanding s).map (resultOf pool.ed)

theorem asked_cons (m : Move) (moves : List Move) :
    asked (m :: moves) = asked moves ++ m.asCall.getD [] := by
  unfold asked callsOf
  cases hm : m.asCall with
  | none => simp [hm]
  | some requests => simp [hm]

theorem ledger_step (h : Moved pool s m s') :
    (ledger pool s').Sublist (ledger pool s ++ (m.asCall.getD []).map (resultOf pool.ed)) ∧
    (s.workers = [] →
      ledger pool s' = ledger pool s ++ (m.asCall.getD []).map (resultOf pool.ed)) := by
  suffices hsuff : ledger pool s' = ledger pool s ++ (m.asCall.getD []).map (resultOf pool.ed) ∨
      (ledger pool s').Sublist (ledger pool s) ∧ m.asCall = none ∧ s.workers ≠ [] by
    rcases hsuff with heq | ⟨hsub, hcall, hworkers⟩
    · exact ⟨heq ▸ List.Sublist.refl _, fun _ => heq⟩
    · rw [hcall]
      exact ⟨by simpa using hsub, fun hnone => absurd hnone hworkers⟩
  cases h with
  | took worker work =>
    -- a request that a worker takes is missing from then on
    refine Or.inr ⟨?_, rfl, ?_⟩
    · simp only [ledger, answers, delivered, outstanding, work]
      refine (List.Sublist.refl _).append (List.Sublist.map _ ((List.Sublist.refl _).append ?_))
      exact List.sublist_cons_self _ _
    · intro hnone
      rw [hnone] at worker
      cases worker
  | called caller =>
    left
    simp [ledger, answers, delivered, outstanding, caller, unsent, Move.asCall]
  | stored caller | sent caller | waits caller =>
    left
    simp [ledger, answers, delivered, outstanding, caller, unsent, Move.asCall]
  | returned caller results =>
    left
    simp [ledger, answers, delivered, outstanding, caller, results, unsent, Move.asCall]
  | batched _ work =>
    left
    simp [ledger, answers, delivered, outstanding, work, Move.asCall]
  | filled _ _ work =>
    left
    simp [ledger, answers, delivered, outstanding, work, processBatch_results, Move.asCall]
  | flushed =>
    left
    simp [ledger, answers, delivered, outstanding, processBatch_results, Move.asCall]
  | finished | slept | ticked => exact Or.inl (List.append_nil _).symm

theorem workers_length (h : Run (Step pool) (State.new pool) moves s) :
    s.workers.length = pool.workerCount := by
  refine h.invariant (I := fun s => s.workers.length = pool.workerCount) List.length_replicate ?_
  intro s m s' hlength hs
  cases moved hs with
  | took | finished => rw [List.length_set]; exact hlength
  | _ => exact hlength

/-- **No request is answered twice.** The answers that the calls have been given,
those that no call has taken yet, and the requests that wait for theirs are
together a part of what was asked, in its order; each answer is the right one for
its request. Without workers it is all that was asked. -/
theorem answers_in_order (h : Run (Step pool) (State.new pool) moves s) :
    (answers s ++ (outstanding s).map (resultOf pool.ed)).Sublist
        ((asked moves).map (resultOf pool.ed)) ∧
    (pool.workerCount = 0 →
      answers s ++ (outstanding s).map (resultOf pool.ed) =
        (asked moves).map (resultOf pool.ed)) := by
  induction h with
  | nil => exact ⟨List.Sublist.refl _, fun _ => rfl⟩
  | snoc hr hs ih =>
    obtain ⟨hsub, heq⟩ := ledger_step (moved hs)
    rw [asked_cons, List.map_append]
    refine ⟨hsub.trans (ih.1.append (List.Sublist.refl _)), fun hnone => ?_⟩
    have hworkers := workers_length hr
    rw [hnone] at hworkers
    exact (heq (List.eq_nil_of_length_eq_zero hworkers)).trans
      (congrArg (· ++ _) (ih.2 hnone))

/-- A scheme that accepts every signature. -/
def accepting : Ed25519 where
  PublicKey := Bytes
  Signature := Bytes
  publicKeyFromBytes := .ok
  signatureFromBytes := .ok
  verify _ _ _ := .ok ()

def pairs : Pool := ⟨1, 2, 100, accepting⟩

def first : Request := ⟨"first", [1], [1], [1]⟩

def second : Request := ⟨"second", [2], [2], [2]⟩

/-- Two calls, of which the first has two requests: a worker takes the second one,
and the other two are answered one by one. -/
def overtaken : List Move :=
  [.caller, .timeout, .tick 100, .receive, .caller, .caller, .caller, .call [first],
    .caller, .timeout, .tick 100, .worker 0, .caller, .caller, .caller, .receive, .caller, .caller,
    .call [first, second]]

theorem answers_in_order_overtaken :
    ∃ s, Run (Step pairs) (State.new pairs) overtaken s ∧ answers s = [⟨"first", true, none⟩,
      ⟨"first", true, none⟩] ∧
      (answers s ++ (outstanding s).map (resultOf accepting)).Sublist
        ([first, second, first].map (resultOf accepting)) := by
  have hplay : (play (step pairs) (fun _ _ => true) (State.new pairs) overtaken).map answers =
      some [⟨"first", true, none⟩, ⟨"first", true, none⟩] := rfl
  obtain ⟨s, hs, hanswers⟩ := Option.map_eq_some_iff.mp hplay
  have hrun := run_of_play_true hs
  exact ⟨s, hrun, hanswers, (answers_in_order hrun).1⟩

/-! ## Progress -/

/-- Something is between the sending of a call and its receiving. -/
def Busy (s : State) : Prop := s.traffic ≠ ⟨[], [], []⟩

/-- A call that has sent something finds something under way. -/
def Pressing (s : State) : Prop :=
  match s.caller with
  | .idle => True
  | .storing requests rest => requests ≠ [] ∧ (rest = requests ∨ Busy s)
  | .sending requests _ _ => requests ≠ []
  | .waiting _ => Busy s

theorem busy_of_results {t : State} {result : BatchVerificationResult}
    (h : result ∈ t.traffic.results) : Busy t := by
  intro hempty
  rw [hempty] at h
  cases h

theorem Pressing.transfer (h : Pressing s) (hcaller : s'.caller = s.caller)
    (hbusy : Busy s → Busy s') : Pressing s' := by
  unfold Pressing at h ⊢
  rw [hcaller]
  split at h
  · trivial
  · exact ⟨h.1, h.2.imp_right hbusy⟩
  · exact h
  · exact hbusy h

theorem Pressing.step (hnone : s.workers = []) (h : Pressing s) (hs : Moved pool s m s')
    (hcall : ∀ requests ∈ m.asCall, requests ≠ []) : Pressing s' := by
  cases hs with
  | called => exact ⟨hcall _ rfl, Or.inl rfl⟩
  | stored caller =>
    rw [Pressing, caller] at h
    exact h.1
  | sent caller =>
    rw [Pressing, caller] at h
    refine ⟨h, Or.inr fun hempty => ?_⟩
    have hwork := congrArg Traffic.work hempty
    simp at hwork
  | waits caller =>
    rw [Pressing, caller] at h
    exact h.2.resolve_left (Ne.symm h.1)
  | returned => trivial
  | took worker => rw [hnone] at worker; cases worker
  | finished worker => rw [hnone] at worker; cases worker
  | batched =>
    refine h.transfer rfl fun _ hempty => ?_
    have hbatch := congrArg Traffic.batch hempty
    simp at hbatch
  | filled | flushed =>
    exact h.transfer rfl fun _ => busy_of_results (List.mem_append_right _ List.mem_cons_self)
  | slept | ticked => exact h

theorem workers_nil (h : Run (Step pool) (State.new pool) moves s) (hnone : pool.workerCount = 0) :
    s.workers = [] :=
  List.eq_nil_of_length_eq_zero ((workers_length h).trans hnone)

theorem pressing_of_run (hnone : pool.workerCount = 0)
    (h : Run (Step pool) (State.new pool) moves s)
    (hcalls : ∀ requests ∈ callsOf moves, requests ≠ []) : Pressing s :=
  invariant_of_calls trivial
    (fun _ _ _ _ hr hp hs hcall => hp.step (workers_nil hr hnone) (moved hs) hcall) h hcalls

/-- What is under way becomes a result. -/
theorem reaches_result (pool : Pool) (hbusy : Busy s) :
    ∃ s', Reaches pool s [] s' ∧ s'.caller = s.caller ∧ s'.returned = s.returned ∧
      s'.traffic.results ≠ [] := by
  by_cases hresults : s.traffic.results = []
  case neg => exact ⟨s, ⟨[], .nil, rfl⟩, rfl, rfl, hresults⟩
  by_cases hbatch : s.traffic.batch = []
  case neg =>
    obtain ⟨s₁, hflush, hcaller, hreturned, htraffic⟩ := reaches_flush pool hbatch
    exact ⟨s₁, hflush, hcaller, hreturned, by simp [htraffic]⟩
  cases hwork : s.traffic.work with
  | nil =>
    have hempty : s.traffic = ⟨s.traffic.work, s.traffic.batch, s.traffic.results⟩ := rfl
    rw [hwork, hbatch, hresults] at hempty
    exact absurd hempty hbusy
  | cons request rest =>
    have hreceive : ∃ s₁, receiveStep pool s = some s₁ := by
      simp only [receiveStep, hwork]
      exact ⟨_, rfl⟩
    obtain ⟨s₁, hreceive⟩ := hreceive
    have hone : Reaches pool s [] s₁ := .single (m := .receive) hreceive
    cases moved_receive hreceive with
    | batched =>
      obtain ⟨s₂, htwo, hcaller, hreturned, htraffic⟩ := reaches_flush pool
        (s := { s with
          traffic := { s.traffic with work := _, batch := s.traffic.batch ++ [_] }
          sleepingSince := _ }) (by simp)
      exact ⟨s₂, hone.trans htwo, hcaller, hreturned, by simp [htraffic]⟩
    | filled => exact ⟨_, hone, rfl, rfl, by simp⟩

theorem reaches_return (pool : Pool) {requests : List Request}
    (hcaller : s.caller = .waiting requests)
    (hbusy : Busy s) : ∃ s' result, Reaches pool s [] s' ∧ s'.caller = .idle ∧
      s'.returned = (requests, result) :: s.returned := by
  obtain ⟨s₁, hreaches, hcaller₁, hreturned, hresults⟩ := reaches_result pool hbusy
  obtain ⟨result, later, hresult⟩ := List.exists_cons_of_ne_nil hresults
  have hstep : step pool s₁ .caller = some { s₁ with
      caller := .idle
      traffic := { s₁.traffic with results := later }
      returned := (requests, result) :: s₁.returned } := by
    simp only [step, callerStep, hcaller₁.trans hcaller, hresult]
  exact ⟨_, result, hreaches.trans (.single hstep), rfl, congrArg (_ :: ·) hreturned⟩

/-- With a worker, a call whose only request that worker takes waits for ever. -/
theorem exists_starved (hworkers : pool.workerCount ≠ 0) (request : Request) :
    ∃ moves s, Run (Step pool) (State.new pool) moves s ∧ callsOf moves = [[request]] ∧
      s.caller = .waiting [request] ∧ s.traffic = ⟨[], [], []⟩ := by
  obtain ⟨workerCount, batchSize, batchTimeoutMs, ed⟩ := pool
  obtain ⟨n, rfl⟩ := Nat.exists_eq_succ_of_ne_zero hworkers
  have hplay : ((play (step ⟨n + 1, batchSize, batchTimeoutMs, ed⟩) (fun _ _ => true)
      (State.new ⟨n + 1, batchSize, batchTimeoutMs, ed⟩)
      [.caller, .worker 0, .caller, .caller, .call [request]]).map fun s => (s.caller, s.traffic)) =
        some (.waiting [request], ⟨[], [], []⟩) := rfl
  obtain ⟨s, hs, hfound⟩ := Option.map_eq_some_iff.mp hplay
  exact ⟨_, s, run_of_play_true hs, rfl, congrArg Prod.fst hfound, congrArg Prod.snd hfound⟩

/-- **A call can always still be answered** if and only if the pool has no
workers. -/
theorem answerable_iff_no_workers (pool : Pool) :
    (∀ moves s, Run (Step pool) (State.new pool) moves s →
      (∀ requests ∈ callsOf moves, requests ≠ []) → ∀ requests, s.caller = .waiting requests →
      ∃ later s' result, Run (Step pool) s later s' ∧ s'.caller = .idle ∧
        s'.returned = (requests, result) :: s.returned) ↔ pool.workerCount = 0 := by
  refine ⟨?_, ?_⟩
  · intro h
    by_contra hworkers
    obtain ⟨moves, s, hrun, hcalls, hcaller, htraffic⟩ := exists_starved hworkers ⟨"", [], [], []⟩
    obtain ⟨later, s', result, hlater, hidle, -⟩ := h moves s hrun (by simp [hcalls]) _ hcaller
    cases (waiting_forever hcaller htraffic hlater).symm.trans hidle
  · intro hnone moves s hrun hcalls requests hcaller
    have hpressing := pressing_of_run hnone hrun hcalls
    rw [Pressing, hcaller] at hpressing
    obtain ⟨s', result, ⟨later, hlater, -⟩, hidle, hreturned⟩ :=
      reaches_return pool hcaller hpressing
    exact ⟨later, s', result, hlater, hidle, hreturned⟩

/-! ## Every schedule -/

/-- The calls that have returned have got one result for each of their requests,
in order, and no other, and the call that is running can return. -/
structure Answered (pool : Pool) (s : State) : Prop where
  matching : AnswersMatch pool s
  returns : s.caller ≠ .idle → ∃ s', Reaches pool s [] s' ∧ s'.caller = .idle

/-- A call that is still sending comes to wait. -/
theorem reaches_waits (pool : Pool) (hcaller : s.caller ≠ .idle) :
    ∃ s' requests, Reaches pool s [] s' ∧ s'.caller = .waiting requests := by
  cases hc : s.caller with
  | idle => exact absurd hc hcaller
  | waiting requests => exact ⟨s, requests, ⟨[], .nil, rfl⟩, hc⟩
  | storing requests rest =>
    obtain ⟨s', hreaches, hwaiting, _⟩ := reaches_waiting pool hc
    exact ⟨s', requests, hreaches, hwaiting⟩
  | sending requests request rest =>
    have hsend : step pool s .caller = some { s with
        caller := .storing requests rest
        traffic := { s.traffic with work := s.traffic.work ++ [request] } } := by
      simp only [step, callerStep, hc]
    obtain ⟨s', hreaches, hwaiting, _⟩ := reaches_waiting pool (s := { s with
      caller := .storing requests rest
      traffic := { s.traffic with work := s.traffic.work ++ [request] } }) rfl
    exact ⟨s', requests, (Reaches.single hsend).trans hreaches, hwaiting⟩

/-- Without workers a running call can return. -/
theorem reaches_idle (hnone : pool.workerCount = 0)
    (hrun : Run (Step pool) (State.new pool) moves s)
    (hcalls : ∀ requests ∈ callsOf moves, requests ≠ []) (hcaller : s.caller ≠ .idle) :
    ∃ s', Reaches pool s [] s' ∧ s'.caller = .idle := by
  obtain ⟨s₁, requests, hreaches, hwaiting⟩ := reaches_waits pool hcaller
  obtain ⟨later, hlater, hquiet⟩ := id hreaches
  have hpressing : Pressing s₁ := by
    refine pressing_of_run hnone (hrun.trans hlater) ?_
    rw [callsOf, List.filterMap_append]
    intro requests hmem
    rcases List.mem_append.mp hmem with hnew | hold
    · rw [show later.filterMap Move.asCall = [] from hquiet] at hnew
      cases hnew
    · exact hcalls requests hold
  rw [Pressing, hwaiting] at hpressing
  obtain ⟨s₂, _, hreturn, hidle, _⟩ := reaches_return pool hwaiting hpressing
  exact ⟨s₂, hreaches.trans hreturn, hidle⟩

theorem idle_step (h : s.caller = .idle) (hs : Moved pool s m s') (hcall : m.asCall = none) :
    s'.caller = .idle := by
  cases hs with
  | called => cases hcall
  | stored caller | sent caller | waits caller => cases h.symm.trans caller
  | returned caller _ => cases h.symm.trans caller
  | _ => exact h

/-- A pool with workers can leave the first call of a sequence without an answer. -/
theorem exists_unanswered {calls : List (List Request)} {requests : List Request}
    (hworkers : pool.workerCount ≠ 0) (hsingle : ∀ requests ∈ calls, requests.length = 1)
    (hmem : requests ∈ calls) :
    ∃ moves s, Run (Step pool) (State.new pool) moves s ∧ callsOf moves <:+ calls ∧
      ¬ Answered pool s := by
  obtain ⟨request, hfirst⟩ := List.length_eq_one_iff.mp
    (hsingle _ (List.getLast_mem (List.ne_nil_of_mem hmem)))
  obtain ⟨moves, s, hrun, hcalls, hcaller, htraffic⟩ := exists_starved hworkers request
  refine ⟨moves, s, hrun, ?_, ?_⟩
  · rw [hcalls, ← hfirst]
    exact ⟨_, List.dropLast_append_getLast _⟩
  · intro hanswered
    obtain ⟨s', ⟨later, hlater, -⟩, hidle⟩ := hanswered.returns (by simp [hcaller])
    cases (waiting_forever hcaller htraffic hlater).symm.trans hidle

/-- **Batch verification answers the question asked**, and answers it, under every
schedule of a sequence of calls (the latest first) exactly if each call has a
single request and there are no workers. -/
theorem answered_iff_single (pool : Pool) (calls : List (List Request))
    (hne : ∀ requests ∈ calls, requests ≠ []) :
    (∀ moves s, Run (Step pool) (State.new pool) moves s → callsOf moves <:+ calls →
      Answered pool s) ↔
    ∀ requests ∈ calls, requests.length = 1 ∧ pool.workerCount = 0 := by
  refine ⟨?_, ?_⟩
  · intro h
    have hsingle : ∀ requests ∈ calls, requests.length = 1 := by
      by_contra hcalls
      obtain ⟨calls', s, hsuffix, ⟨moves, hrun, rfl⟩, hwrong⟩ := reaches_mismatch pool hne hcalls
      exact hwrong (h moves s hrun hsuffix).matching
    intro requests hmem
    refine ⟨hsingle requests hmem, ?_⟩
    by_contra hworkers
    obtain ⟨moves, s, hrun, hsuffix, hwrong⟩ := exists_unanswered hworkers hsingle hmem
    exact hwrong (h moves s hrun hsuffix)
  · intro hcalls moves s hrun hsuffix
    have hmade : ∀ requests ∈ callsOf moves, requests.length = 1 ∧ pool.workerCount = 0 :=
      fun requests hmem => hcalls requests (hsuffix.subset hmem)
    have hserved := served_of_single hrun fun requests hmem => (hmade requests hmem).1
    refine ⟨hserved.2, fun hcaller => ?_⟩
    by_cases hnone : pool.workerCount = 0
    · have hasked : ∀ requests ∈ callsOf moves, requests ≠ [] :=
        fun requests hmem => hne requests (hsuffix.subset hmem)
      exact reaches_idle hnone hrun hasked hcaller
    · -- no call has been made
      have hidle : s.caller = .idle :=
        invariant_of_calls (I := fun s => s.caller = .idle) (C := fun _ => False) rfl
          (fun _ _ _ _ _ h hs hcall =>
            idle_step h (moved hs) (Option.eq_none_iff_forall_not_mem.mpr hcall))
          hrun fun requests hmem => hnone (hmade requests hmem).2
      exact absurd hidle hcaller

/-- Two calls of a pool without workers. -/
theorem answered_iff_single_two :
    ∃ s, Run (Step ⟨0, 2, 100, accepting⟩) (State.new ⟨0, 2, 100, accepting⟩)
        [.caller, .timeout, .tick 100, .caller, .receive, .caller, .caller, .call [second],
          .caller, .caller, .timeout, .tick 100, .receive, .caller, .caller, .call [first]] s ∧
      s.returned = [([second], ⟨1, 1, 0, [], [⟨"second", true, none⟩]⟩),
        ([first], ⟨1, 1, 0, [], [⟨"first", true, none⟩]⟩)] ∧
      Answered ⟨0, 2, 100, accepting⟩ s := by
  have hplay : (play (step ⟨0, 2, 100, accepting⟩) (fun _ _ => true)
      (State.new ⟨0, 2, 100, accepting⟩)
      [.caller, .timeout, .tick 100, .caller, .receive, .caller, .caller, .call [second],
        .caller, .caller, .timeout, .tick 100, .receive, .caller, .caller, .call [first]]).map
      (·.returned) = some [([second], ⟨1, 1, 0, [], [⟨"second", true, none⟩]⟩),
        ([first], ⟨1, 1, 0, [], [⟨"first", true, none⟩]⟩)] := rfl
  obtain ⟨s, hs, hreturned⟩ := Option.map_eq_some_iff.mp hplay
  have hrun := run_of_play_true hs
  exact ⟨s, hrun, hreturned, (answered_iff_single _ [[second], [first]] (by simp)).mpr (by simp) _ s
    hrun List.suffix_rfl⟩

/-- The sleep of the processor ends between the two requests of a call, although
the batch size is two: the call returns one result. -/
theorem batch_split_by_timeout :
    ∃ s, Run (Step pairs) (State.new pairs)
        [.caller, .caller, .caller, .caller, .timeout, .tick 100, .receive, .caller, .caller,
          .call [first, second]] s ∧
      s.returned = [([first, second], ⟨1, 1, 0, [], [⟨"first", true, none⟩]⟩)] ∧
      ¬ AnswersMatch pairs s := by
  have hplay : (play (step pairs) (fun _ _ => true) (State.new pairs)
      [.caller, .caller, .caller, .caller, .timeout, .tick 100, .receive, .caller, .caller,
        .call [first, second]]).map (·.returned) =
      some [([first, second], ⟨1, 1, 0, [], [⟨"first", true, none⟩]⟩)] := rfl
  obtain ⟨s, hs, hreturned⟩ := Option.map_eq_some_iff.mp hplay
  refine ⟨s, run_of_play_true hs, hreturned, ?_⟩
  intro hmatch
  have hlength := congrArg List.length (hmatch _ (hreturned ▸ List.mem_cons_self))
  cases hlength

/-! ## Pending requests -/

structure CryptoWorkerPoolStats where
  workerCount : Nat
  pendingRequests : Nat
  availableWorkers : Nat
  batchSize : Nat
  batchTimeoutMs : Nat
  deriving DecidableEq

/-- The handle of the batch processor is among the workers' too, and a worker has
a permit of the semaphore from one request to the next. -/
def getStats (pool : Pool) (s : State) : CryptoWorkerPoolStats where
  workerCount := s.workers.length + 1
  pendingRequests := s.pendingRequests.keys.length
  availableWorkers := s.workers.count none
  batchSize := pool.batchSize
  batchTimeoutMs := pool.batchTimeoutMs

/-- The request that is in the map of pending ones and not yet in the channel. -/
def onHand : Caller → List String
  | .sending _ request _ => [request.id]
  | _ => []

def heldId : Option Request → List String
  | some request => [request.id]
  | none => []

/-- The requests that the workers have in hand. -/
def held (s : State) : List String := s.workers.flatMap heldId

/-- The ids of the requests that are between a call and their answer. -/
def underway (s : State) : List String :=
  onHand s.caller ++ held s ++ (s.traffic.work ++ s.traffic.batch).map Request.id

/-- The requests of the running call that are not in the map yet. -/
def unstored : Caller → List Request
  | .storing _ rest => rest
  | .sending _ _ rest => rest
  | _ => []

def answeredIds (s : State) : List String := (answers s).map (·.requestId)

theorem requestId_resultOf (ed : Ed25519) (request : Request) :
    (resultOf ed request).requestId = request.id := by
  unfold resultOf
  split <;> rfl

theorem processBatch_ids (ed : Ed25519) (batch : List Request) :
    (processBatch ed batch).results.map (·.requestId) = batch.map Request.id := by
  rw [processBatch_results, List.map_map]
  exact List.map_congr_left fun request _ => requestId_resultOf ed request

/-- What an element contributes is exchanged with the element. -/
theorem count_flatMap_set {α β : Type} [DecidableEq β] (f : α → List β) {l : List α} {i : Nat}
    {a : α} (h : l[i]? = some a) (b : α) (x : β) :
    ((l.set i b).flatMap f).count x + (f a).count x = (l.flatMap f).count x + (f b).count x := by
  induction l generalizing i with
  | nil => cases h
  | cons y l ih =>
    cases i with
    | zero =>
      cases h
      simp only [List.set_cons_zero, List.flatMap_cons, List.count_append]
      omega
    | succ i =>
      have hrest := ih (i := i) h
      simp only [List.set_cons_succ, List.flatMap_cons, List.count_append]
      omega

/-- The map of pending requests holds what is under way and what is answered, each
id as often; and what it holds, and is yet to hold, was asked. -/
structure Tracked (asked : List Request) (s : State) : Prop where
  keys : ∀ x, s.pendingRequests.keys.count x = (underway s ++ answeredIds s).count x
  room : ∀ x, ((unstored s.caller).map Request.id).count x + s.pendingRequests.keys.count x ≤
    (asked.map Request.id).count x

theorem Tracked.congr {asked : List Request} (h : Tracked asked s)
    (hpending : s'.pendingRequests = s.pendingRequests)
    (hunstored : unstored s'.caller = unstored s.caller)
    (hcount : ∀ x, (underway s' ++ answeredIds s').count x =
      (underway s ++ answeredIds s).count x) :
    Tracked asked s' where
  keys x := by rw [hpending, h.keys, hcount]
  room x := by
    rw [hpending, hunstored]
    exact h.room x

theorem Tracked.call {earlier requests : List Request} (h : Tracked earlier s)
    (hidle : s.caller = .idle) :
    Tracked (earlier ++ requests) { s with caller := .storing requests requests } := by
  refine ⟨?_, ?_⟩
  · intro x
    have hkeys := h.keys x
    simp only [underway, held, onHand, hidle] at hkeys ⊢
    exact hkeys
  · intro x
    have hroom := h.room x
    simp only [unstored, hidle, List.map_append, List.map_nil, List.count_nil,
      List.count_append] at hroom ⊢
    omega

/-- A request that is put into the map was not there. -/
theorem Tracked.store {earlier requests rest : List Request} {request : Request}
    (h : Tracked earlier s) (hdistinct : (earlier.map Request.id).Nodup)
    (hcaller : s.caller = .storing requests (request :: rest)) :
    Tracked earlier { s with
      caller := .sending requests request rest
      pendingRequests := s.pendingRequests.insert request.id request } := by
  have hfresh : request.id ∉ s.pendingRequests.keys := by
    have hroom := h.room request.id
    have honce := List.nodup_iff_count_le_one.mp hdistinct request.id
    simp only [unstored, hcaller, List.map_cons, List.count_cons_self] at hroom
    exact List.count_eq_zero.mp (by omega)
  have hkeys : (s.pendingRequests.insert request.id request).keys =
      request.id :: s.pendingRequests.keys := by
    rw [AList.keys_insert, List.erase_of_not_mem hfresh]
  refine ⟨?_, ?_⟩
  · intro x
    have hbefore := h.keys x
    dsimp only
    rw [hkeys, List.count_cons, hbefore]
    simp only [underway, held, onHand, hcaller, answeredIds, answers, delivered, List.count_append,
      List.count_nil, List.count_cons]
    omega
  · intro x
    have hroom := h.room x
    dsimp only
    rw [hkeys, List.count_cons]
    simp only [unstored, hcaller, List.map_cons, List.count_cons] at hroom ⊢
    omega

/-- A worker that finishes a request takes its id out of the map. -/
theorem Tracked.finish {earlier : List Request} {request : Request} {i : Nat}
    (h : Tracked earlier s) (hworker : s.workers[i]? = some (some request)) :
    Tracked earlier { s with
      workers := s.workers.set i none
      pendingRequests := s.pendingRequests.erase request.id } := by
  refine ⟨?_, ?_⟩
  · intro x
    have hbefore := h.keys x
    have hset := count_flatMap_set heldId hworker none x
    dsimp only
    rw [AList.keys_erase, List.count_erase, hbefore]
    simp only [underway, held, answeredIds, answers, delivered, heldId, List.count_append,
      List.count_cons, List.count_nil] at hset ⊢
    omega
  · intro x
    have hroom := h.room x
    dsimp only
    rw [AList.keys_erase, List.count_erase]
    omega

theorem Tracked.step {earlier : List Request} (h : Tracked earlier s) (hs : Moved pool s m s')
    (hcall : m.asCall = none) (hdistinct : (earlier.map Request.id).Nodup) :
    Tracked earlier s' := by
  cases hs with
  | called => cases hcall
  | stored caller => exact h.store hdistinct caller
  | finished worker => exact h.finish worker
  | sent caller =>
    refine h.congr rfl (by simp only [unstored, caller]) fun x => ?_
    simp only [underway, held, onHand, caller, answeredIds, answers, delivered, List.map_append,
      List.count_append, List.map_cons, List.map_nil, List.count_nil]
    omega
  | waits caller =>
    refine h.congr rfl (by simp only [unstored, caller]) fun x => ?_
    simp only [underway, held, onHand, caller, answeredIds, answers, delivered]
  | returned caller results =>
    refine h.congr rfl (by simp only [unstored, caller]) fun x => ?_
    simp only [underway, held, onHand, caller, answeredIds, answers, delivered, results,
      List.map_cons, List.reverse_cons, List.append_assoc, List.singleton_append]
  | @took _ request _ worker work =>
    refine h.congr rfl rfl fun x => ?_
    have hset := count_flatMap_set heldId worker (some request) x
    simp only [underway, held, answeredIds, answers, delivered, work, heldId, List.map_append,
      List.map_cons, List.count_append, List.count_cons, List.count_nil] at hset ⊢
    omega
  | batched _ work =>
    refine h.congr rfl rfl fun x => ?_
    simp only [underway, held, answeredIds, answers, delivered, work, List.map_append,
      List.map_cons, List.map_nil, List.count_append, List.count_cons, List.count_nil]
    omega
  | filled _ _ work =>
    refine h.congr rfl rfl fun x => ?_
    simp only [underway, held, answeredIds, answers, delivered, work, List.map_append,
      List.map_cons, List.map_nil, List.flatMap_append, List.flatMap_cons, List.flatMap_nil,
      processBatch_ids, List.append_nil, List.count_append, List.count_cons, List.count_nil]
    omega
  | flushed =>
    refine h.congr rfl rfl fun x => ?_
    simp only [underway, held, answeredIds, answers, delivered, List.map_append,
      List.flatMap_append, List.flatMap_cons, List.flatMap_nil, processBatch_ids, List.append_nil,
      List.count_append]
    omega
  | slept | ticked => exact ⟨h.keys, h.room⟩

theorem tracked_new (pool : Pool) : Tracked [] (State.new pool) := by
  have hheld : held (State.new pool) = [] :=
    List.flatMap_eq_nil_iff.mpr fun x hx => by rw [List.eq_of_mem_replicate hx, heldId]
  refine ⟨?_, fun _ => Nat.le_refl 0⟩
  intro x
  rw [underway, hheld]
  rfl

theorem tracked_of_run (h : Run (Step pool) (State.new pool) moves s)
    (hdistinct : ((asked moves).map Request.id).Nodup) : Tracked (asked moves) s := by
  induction h with
  | nil => exact tracked_new pool
  | @snoc moves s s' m hr hs ih =>
    rw [asked_cons] at hdistinct ⊢
    have hearlier : ((asked moves).map Request.id).Nodup := by
      rw [List.map_append] at hdistinct
      exact (List.nodup_append.mp hdistinct).1
    cases hcall : m.asCall with
    | none =>
      rw [Option.getD_none, List.append_nil]
      exact (ih hearlier).step (moved hs) hcall hearlier
    | some requests =>
      cases moved hs with
      | called caller =>
        cases hcall
        exact (ih hearlier).call caller
      | _ => cases hcall

/-- **What is answered stays pending.** While no two requests have the same id,
the map of pending requests holds the requests that are under way and, besides
them, all that were ever answered; only a worker takes one out of it. The
statistics count them all. -/
theorem pending_keeps_answered (h : Run (Step pool) (State.new pool) moves s)
    (hdistinct : ((asked moves).map Request.id).Nodup) :
    s.pendingRequests.keys.Perm (underway s ++ answeredIds s) ∧
      (getStats pool s).pendingRequests = (underway s).length + (answers s).length := by
  have hperm : s.pendingRequests.keys.Perm (underway s ++ answeredIds s) :=
    List.perm_iff_count.mpr (tracked_of_run h hdistinct).keys
  refine ⟨hperm, ?_⟩
  have hlength := hperm.length_eq
  rw [List.length_append, answeredIds, List.length_map] at hlength
  exact hlength

/-- Two requests, one of them taken by a worker that has finished with it: the
other is answered and pending. -/
def halved : List Move :=
  [.caller, .timeout, .tick 100, .worker 0, .worker 0, .caller, .caller, .caller, .receive,
    .caller, .caller, .call [first, second]]

theorem pending_keeps_answered_halved :
    ∃ s, Run (Step pairs) (State.new pairs) halved s ∧ underway s = [] ∧
      answeredIds s = ["first"] ∧ s.pendingRequests.keys.Perm ["first"] := by
  have hplay : (play (step pairs) (fun _ _ => true) (State.new pairs) halved).map
      (fun s => (underway s, answeredIds s)) = some ([], ["first"]) := rfl
  obtain ⟨s, hs, hfound⟩ := Option.map_eq_some_iff.mp hplay
  have hrun := run_of_play_true hs
  have hunderway := congrArg Prod.fst hfound
  have hanswered := congrArg Prod.snd hfound
  dsimp only at hunderway hanswered
  have hperm := (pending_keeps_answered hrun (by decide)).1
  rw [hunderway, hanswered] at hperm
  exact ⟨s, hrun, hunderway, hanswered, hperm⟩

end Axionvera.Node.WorkerPool

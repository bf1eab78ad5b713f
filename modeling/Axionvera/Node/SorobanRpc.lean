import Mathlib.Data.List.Basic

/-! # The Soroban RPC client

`soroban_rpc_client.rs`: a call goes through the configured endpoints in order.
An endpoint that cannot be reached or answers with status 503 is passed over if
another one follows; any other answer, an error included, is final. -/
namespace Axionvera.Node.SorobanRpc

/-- The variants that a call returns. -/
inductive NetworkError where
  | connection (text : String)
  | sorobanRpc (text : String)
  | serialization (text : String)
  deriving DecidableEq

structure StatusCode where
  code : Nat
  reason : String

namespace StatusCode

def display (status : StatusCode) : String := s!"{status.code} {status.reason}"

def isSuccess (status : StatusCode) : Bool := decide (200 ≤ status.code ∧ status.code < 300)

def isServiceUnavailable (status : StatusCode) : Bool := decide (status.code = 503)

theorem not_isSuccess_of_unavailable {status : StatusCode}
    (h : status.isServiceUnavailable = true) : status.isSuccess = false := by
  have hcode : status.code = 503 := of_decide_eq_true h
  simp [isSuccess, hcode]

end StatusCode

structure JsonRpcError where
  code : Int
  message : String

structure JsonRpcResponse (R : Type) where
  result : Option R
  error : Option JsonRpcError

/-- What becomes of a request: the error of the transport, or a response with its
body as text and as JSON. -/
inductive Response (R : Type) where
  | failed (error : String)
  | http (status : StatusCode) (text : String) (json : Except String (JsonRpcResponse R))

variable {R R' : Type}

/-- The part of `call` after the failovers. -/
def readJson : Except String (JsonRpcResponse R) → Except NetworkError R
  | .error e => .error (.serialization e)
  | .ok ⟨_, some error⟩ => .error (.sorobanRpc s!"RPC error {error.code}: {error.message}")
  | .ok ⟨some result, none⟩ => .ok result
  | .ok ⟨none, none⟩ => .error (.sorobanRpc "Empty result in Soroban RPC response")

/-- The loop of `call` from an index on. -/
def callFrom (respond : Nat → Response R) :
    Nat → List String → Option NetworkError → Except NetworkError R
  | _, [], lastError => .error (lastError.getD (.sorobanRpc "No Soroban RPC endpoints available"))
  | index, rpcUrl :: rest, _ =>
    match respond index with
    | .failed e =>
      let err := .connection s!"Failed to send Soroban RPC request to {rpcUrl}: {e}"
      if rest.isEmpty then .error err else callFrom respond (index + 1) rest (some err)
    | .http status text json =>
      if status.isServiceUnavailable && !rest.isEmpty then
        callFrom respond (index + 1) rest
          (some (.sorobanRpc s!"HTTP error {status.display} from {rpcUrl}: {text}"))
      else if !status.isSuccess then
        .error (.sorobanRpc s!"HTTP error {status.display}: {text}")
      else readJson json

def call (rpcUrls : List String) (respond : Nat → Response R) : Except NetworkError R :=
  callFrom respond 0 rpcUrls none

/-! ## Which endpoint answers -/

/-- An endpoint that is passed over when another one follows. -/
def PassedOver : Response R → Prop
  | .failed _ => True
  | .http status _ _ => status.isServiceUnavailable = true

/-- A response that carries a result. -/
def Carries (r : Response R) (result : R) : Prop :=
  ∃ status text, r = .http status text (.ok ⟨some result, none⟩) ∧ status.isSuccess = true

variable {respond : Nat → Response R} {result : R} {index : Nat}

theorem readJson_eq_ok {json : Except String (JsonRpcResponse R)} :
    readJson json = .ok result ↔ json = .ok ⟨some result, none⟩ := by
  unfold readJson
  split <;> simp

theorem Carries.not_passedOver {r : Response R} (h : Carries r result) : ¬ PassedOver r := by
  obtain ⟨status, text, rfl, hsuccess⟩ := h
  intro hpassed
  rw [StatusCode.not_isSuccess_of_unavailable hpassed] at hsuccess
  cases hsuccess

/-- The last error shows only in the error of a call. -/
theorem callFrom_eq_ok_none {rpcUrls : List String} (lastError : Option NetworkError) :
    callFrom respond index rpcUrls lastError = .ok result ↔
      callFrom respond index rpcUrls none = .ok result := by
  cases rpcUrls with
  | nil => simp [callFrom]
  | cons rpcUrl rest => exact Iff.rfl

/-- One round of the loop. The last endpoint is not passed over: its failure is
the call's. -/
theorem callFrom_cons_eq_ok {rpcUrl : String} {rest : List String} {lastError : Option NetworkError} :
    callFrom respond index (rpcUrl :: rest) lastError = .ok result ↔
      Carries (respond index) result ∨
      (PassedOver (respond index) ∧ callFrom respond (index + 1) rest none = .ok result) := by
  rw [callFrom]
  cases hrespond : respond index with
  | failed e =>
    have hcarries : ¬ Carries (.failed e : Response R) result := by
      intro h
      obtain ⟨_, _, h, _⟩ := h
      cases h
    dsimp only
    cases rest with
    | nil => simp [callFrom, hcarries]
    | cons rpcUrl' rest =>
      rw [if_neg (by simp), callFrom_eq_ok_none]
      simp [hcarries, PassedOver]
  | http status text json =>
    dsimp only
    by_cases hunavailable : status.isServiceUnavailable = true
    · have hfailed := StatusCode.not_isSuccess_of_unavailable hunavailable
      have hcarries : ¬ Carries (.http status text json) result :=
        fun h => h.not_passedOver hunavailable
      cases rest with
      | nil => simp [callFrom, hfailed, hcarries]
      | cons rpcUrl' rest =>
        rw [if_pos (by simp [hunavailable]), callFrom_eq_ok_none]
        simp [hcarries, PassedOver, hunavailable]
    · have hpassed : ¬ PassedOver (.http status text json) := hunavailable
      rw [if_neg (by simp [hunavailable])]
      simp only [hpassed, false_and, or_false]
      cases hsuccess : status.isSuccess with
      | false => simp [Carries, hsuccess]
      | true => simp [Carries, hsuccess, readJson_eq_ok]

/-- A call returns what the first endpoint that is not passed over carries. -/
theorem callFrom_eq_ok {rpcUrls : List String} {lastError : Option NetworkError} :
    callFrom respond index rpcUrls lastError = .ok result ↔
      ∃ n < rpcUrls.length, (∀ i < n, PassedOver (respond (index + i))) ∧
        Carries (respond (index + n)) result := by
  induction rpcUrls generalizing index lastError with
  | nil => simp [callFrom]
  | cons rpcUrl rest ih =>
    rw [callFrom_cons_eq_ok]
    refine ⟨?_, ?_⟩
    · intro h
      rcases h with hcarries | ⟨hpassed, hrest⟩
      · exact ⟨0, Nat.zero_lt_succ _, fun i hi => absurd hi (Nat.not_lt_zero i), hcarries⟩
      · obtain ⟨n, hn, hearlier, hcarries⟩ := ih.mp hrest
        refine ⟨n + 1, Nat.succ_lt_succ hn, ?_, ?_⟩
        · intro i hi
          cases i with
          | zero => exact hpassed
          | succ i =>
            rw [← Nat.add_assoc, Nat.add_right_comm]
            exact hearlier i (Nat.lt_of_succ_lt_succ hi)
        · rw [← Nat.add_assoc, Nat.add_right_comm]
          exact hcarries
    · intro h
      obtain ⟨n, hn, hearlier, hcarries⟩ := h
      cases n with
      | zero => exact Or.inl hcarries
      | succ n =>
        refine Or.inr ⟨hearlier 0 (Nat.zero_lt_succ n), ih.mpr ⟨n, ?_, ?_, ?_⟩⟩
        · exact Nat.lt_of_succ_lt_succ hn
        · intro i hi
          rw [Nat.add_right_comm, Nat.add_assoc]
          exact hearlier (i + 1) (Nat.succ_lt_succ hi)
        · rw [Nat.add_right_comm, Nat.add_assoc]
          exact hcarries

/-! ## Results that are computed by the endpoints -/

def JsonRpcResponse.map (f : R → R') (r : JsonRpcResponse R) : JsonRpcResponse R' :=
  ⟨r.result.map f, r.error⟩

def Response.map (f : R → R') : Response R → Response R'
  | .failed error => .failed error
  | .http status text json => .http status text (json.map fun r => r.map f)

theorem readJson_map (f : R → R') (json : Except String (JsonRpcResponse R)) :
    readJson (json.map fun r => r.map f) = (readJson json).map f := by
  cases json with
  | error e => rfl
  | ok r =>
    obtain ⟨result, error⟩ := r
    cases error with
    | some error => rfl
    | none =>
      cases result with
      | none => rfl
      | some result => rfl

/-- The failovers do not depend on the results. -/
theorem callFrom_map (f : R → R') (respond : Nat → Response R) (index : Nat)
    (rpcUrls : List String) (lastError : Option NetworkError) :
    callFrom (fun i => (respond i).map f) index rpcUrls lastError =
      (callFrom respond index rpcUrls lastError).map f := by
  induction rpcUrls generalizing index lastError with
  | nil => rfl
  | cons rpcUrl rest ih =>
    unfold callFrom
    cases respond index with
    | failed e =>
      dsimp only [Response.map]
      split
      · rfl
      · exact ih _ _
    | http status text json =>
      dsimp only [Response.map]
      split
      · exact ih _ _
      · split
        · rfl
        · exact readJson_map f json

end Axionvera.Node.SorobanRpc

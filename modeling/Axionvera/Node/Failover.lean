import Axionvera.Node.ChainParams
import Axionvera.Node.SorobanRpc

/-! # Failover between the RPC endpoints

The endpoints that a configuration names, and the requests that a call makes to
them. The HTTP client of `soroban_rpc_client.rs` sends a request that fails for a
moment again, up to three times. How often it does is an input of the model, and
what the call sees of an endpoint is the last response. -/
namespace Axionvera.Node.Failover
open Axionvera.Node.ChainParams (isWhitespace)
open Axionvera.Node.SorobanRpc

/-! ## Endpoints -/

structure SorobanConfig where
  rpcUrl : String
  rpcUrls : List String

def defaultSorobanRpcUrl : String := "https://soroban-testnet.stellar.org:443"

/-- `s.trim().is_empty()`. -/
def isBlank (s : String) : Bool := s.toList.all isWhitespace

/-- A further endpoint, unless it is blank or there already. -/
def pushNew (endpoints : List String) (rpcUrl : String) : List String :=
  if !isBlank rpcUrl && !endpoints.any fun url => url = rpcUrl then endpoints ++ [rpcUrl]
  else endpoints

/-- The endpoints that the configuration names. -/
def SorobanConfig.named (config : SorobanConfig) : List String :=
  config.rpcUrls.foldl pushNew (if !isBlank config.rpcUrl then [config.rpcUrl] else [])

def SorobanConfig.rpcEndpoints (config : SorobanConfig) : List String :=
  if config.named.isEmpty then [defaultSorobanRpcUrl] else config.named

theorem nodup_pushNew {endpoints : List String} (h : endpoints.Nodup) (rpcUrl : String) :
    (pushNew endpoints rpcUrl).Nodup := by
  unfold pushNew
  split
  · rename_i hnew
    have hmissing : rpcUrl ∉ endpoints := by
      simp only [Bool.and_eq_true, Bool.not_eq_true', List.any_eq_false, decide_eq_true_eq] at hnew
      intro hmem
      exact hnew.2 rpcUrl hmem rfl
    refine List.nodup_append.mpr ⟨h, List.nodup_singleton _, ?_⟩
    intro a ha b hb heq
    rw [List.mem_singleton.mp hb] at heq
    exact hmissing (heq ▸ ha)
  · exact h

theorem nodup_foldl_pushNew (rpcUrls : List String) {endpoints : List String}
    (h : endpoints.Nodup) : (rpcUrls.foldl pushNew endpoints).Nodup := by
  induction rpcUrls generalizing endpoints with
  | nil => exact h
  | cons rpcUrl rest ih => exact ih (nodup_pushNew h rpcUrl)

theorem rpcEndpoints_nodup (config : SorobanConfig) : config.rpcEndpoints.Nodup := by
  unfold SorobanConfig.rpcEndpoints
  split
  · exact List.nodup_singleton _
  · refine nodup_foldl_pushNew _ ?_
    split
    · exact List.nodup_singleton _
    · exact List.nodup_nil

theorem rpcEndpoints_ne_nil (config : SorobanConfig) : config.rpcEndpoints ≠ [] := by
  unfold SorobanConfig.rpcEndpoints
  split
  · exact List.cons_ne_nil _ _
  · rename_i hsome
    intro hnil
    exact hsome (List.isEmpty_iff.mpr hnil)

/-! ## Requests of a call -/

/-- `ExponentialBackoff::builder().build_with_max_retries(3)`. -/
def maxRetries : Nat := 3

/-- What the HTTP client makes of one `post_json`: how many requests it sends,
and the response that it gives back. -/
structure Post (R : Type) where
  requests : Nat
  response : Response R

variable {R : Type} {post : Nat → Post R}

/-- The client sends a request again at most as often as its retry policy allows. -/
def WithinPolicy (post : Nat → Post R) : Prop :=
  ∀ index, (post index).requests ≤ 1 + maxRetries

/-- What a call did: its requests, and what the loop returned, if it did. -/
structure Contacts (R : Type) where
  requests : List String
  result : Option (Except NetworkError R)

/-- The loop of `call`, with its requests. -/
def contactFrom (post : Nat → Post R) : Nat → List String → Contacts R
  | _, [] => ⟨[], none⟩
  | index, rpcUrl :: rest =>
    let requests := List.replicate (post index).requests rpcUrl
    let later := contactFrom post (index + 1) rest
    match (post index).response with
    | .failed e =>
      let err := .connection s!"Failed to send Soroban RPC request to {rpcUrl}: {e}"
      if rest.isEmpty then ⟨requests, some (.error err)⟩
      else ⟨requests ++ later.requests, later.result⟩
    | .http status text json =>
      if status.isServiceUnavailable && !rest.isEmpty then
        ⟨requests ++ later.requests, later.result⟩
      else if !status.isSuccess then
        ⟨requests, some (.error (.sorobanRpc s!"HTTP error {status.display}: {text}"))⟩
      else ⟨requests, some (readJson json)⟩

/-- What the response of an endpoint that is not passed over makes of the call. -/
def verdict (rpcUrl : String) : Response R → Except NetworkError R
  | .failed e => .error (.connection s!"Failed to send Soroban RPC request to {rpcUrl}: {e}")
  | .http status text json =>
    if status.isSuccess then readJson json
    else .error (.sorobanRpc s!"HTTP error {status.display}: {text}")

theorem verdict_of_passedOver {rpcUrl : String} {response : Response R}
    (h : PassedOver response) : ∃ e, verdict rpcUrl response = .error e := by
  cases response with
  | failed e => exact ⟨_, rfl⟩
  | http status text json =>
    have hfailed := StatusCode.not_isSuccess_of_unavailable h
    exact ⟨_, if_neg (by simp [hfailed])⟩

section Calls
variable {index : Nat} {rpcUrl : String} {rest : List String}

theorem contactFrom_onward (hpassed : PassedOver (post index).response)
    (hrest : rest ≠ []) :
    contactFrom post index (rpcUrl :: rest) =
      ⟨List.replicate (post index).requests rpcUrl ++
        (contactFrom post (index + 1) rest).requests,
        (contactFrom post (index + 1) rest).result⟩ := by
  have hmore : rest.isEmpty = false := by simpa using hrest
  rw [contactFrom]
  cases hresponse : (post index).response with
  | failed e => simp [hmore]
  | http status text json =>
    rw [hresponse] at hpassed
    have hunavailable : status.isServiceUnavailable = true := hpassed
    simp [hunavailable, hmore]

/-- An endpoint that is the last one if it is passed over does not lead to another. -/
theorem not_onward_of_final {status : StatusCode} {text : String}
    {json : Except String (JsonRpcResponse R)}
    (hfinal : PassedOver (.http status text json) → rest = []) :
    (status.isServiceUnavailable && !rest.isEmpty) = false := by
  by_cases hunavailable : status.isServiceUnavailable = true
  · simp [hfinal hunavailable]
  · simp [hunavailable]

theorem contactFrom_final (hfinal : PassedOver (post index).response → rest = []) :
    contactFrom post index (rpcUrl :: rest) =
      ⟨List.replicate (post index).requests rpcUrl,
        some (verdict rpcUrl (post index).response)⟩ := by
  rw [contactFrom]
  cases hresponse : (post index).response with
  | failed e =>
    rw [hresponse] at hfinal
    simp [hfinal trivial, verdict]
  | http status text json =>
    rw [hresponse] at hfinal
    have hstop := not_onward_of_final hfinal
    cases hsuccess : status.isSuccess <;> simp [hstop, hsuccess, verdict]

variable {respond : Nat → Response R} {lastError : Option NetworkError}

theorem callFrom_onward (hpassed : PassedOver (respond index)) (hrest : rest ≠ []) :
    ∃ err, callFrom respond index (rpcUrl :: rest) lastError =
      callFrom respond (index + 1) rest (some err) := by
  have hmore : rest.isEmpty = false := by simpa using hrest
  rw [callFrom]
  cases hresponse : respond index with
  | failed e =>
    simp only [hmore, Bool.false_eq_true, if_false]
    exact ⟨_, rfl⟩
  | http status text json =>
    rw [hresponse] at hpassed
    have hunavailable : status.isServiceUnavailable = true := hpassed
    simp only [hunavailable, hmore, Bool.not_false, Bool.and_self, if_true]
    exact ⟨_, rfl⟩

theorem callFrom_final (hfinal : PassedOver (respond index) → rest = []) :
    callFrom respond index (rpcUrl :: rest) lastError = verdict rpcUrl (respond index) := by
  rw [callFrom]
  cases hresponse : respond index with
  | failed e =>
    rw [hresponse] at hfinal
    simp [hfinal trivial, verdict]
  | http status text json =>
    rw [hresponse] at hfinal
    have hstop := not_onward_of_final hfinal
    cases hsuccess : status.isSuccess <;> simp [hstop, hsuccess, verdict]

/-- The requests to some endpoints, from an index on. -/
def requestsTo (post : Nat → Post R) (index : Nat) (rpcUrls : List String) : List String :=
  (rpcUrls.zipIdx index).flatMap fun x => List.replicate (post x.2).requests x.1

theorem requestsTo_cons (rpcUrl : String) (rest : List String) :
    requestsTo post index (rpcUrl :: rest) =
      List.replicate (post index).requests rpcUrl ++ requestsTo post (index + 1) rest := by
  rw [requestsTo, List.zipIdx_cons, List.flatMap_cons]
  rfl

theorem mem_of_mem_requestsTo {rpcUrls : List String} {url : String}
    (h : url ∈ requestsTo post index rpcUrls) : url ∈ rpcUrls := by
  obtain ⟨x, hx, hurl⟩ := List.mem_flatMap.mp h
  rw [List.eq_of_mem_replicate hurl]
  exact List.fst_mem_of_mem_zipIdx hx

/-- One post to each endpoint is no more requests to it than the policy allows. -/
theorem count_requestsTo_le (hpolicy : WithinPolicy post) {rpcUrls : List String}
    (hnodup : rpcUrls.Nodup) (url : String) :
    (requestsTo post index rpcUrls).count url ≤ 1 + maxRetries := by
  induction rpcUrls generalizing index with
  | nil => exact Nat.zero_le _
  | cons rpcUrl rest ih =>
    obtain ⟨hnew, hrest⟩ := List.nodup_cons.mp hnodup
    rw [requestsTo_cons, List.count_append, List.count_replicate]
    split
    · rename_i heq
      rw [beq_iff_eq] at heq
      rw [← heq, List.count_eq_zero_of_not_mem fun hmem => hnew (mem_of_mem_requestsTo hmem)]
      exact hpolicy index
    · rw [Nat.zero_add]
      exact ih hrest

/-- The loop goes as far as the first endpoint that is not passed over, or to
the last one, and returns what that one makes of the call. -/
theorem contactFrom_spec {rpcUrls : List String} (hne : rpcUrls ≠ []) :
    let final := fun i => (post i).response
    ∃ n rpcUrl, rpcUrls[n]? = some rpcUrl ∧ (∀ i < n, PassedOver (final (index + i))) ∧
      (PassedOver (final (index + n)) → n + 1 = rpcUrls.length) ∧
      contactFrom post index rpcUrls =
        ⟨requestsTo post index (rpcUrls.take (n + 1)),
          some (verdict rpcUrl (final (index + n)))⟩ ∧
      callFrom final index rpcUrls lastError = verdict rpcUrl (final (index + n)) := by
  intro final
  induction rpcUrls generalizing index lastError with
  | nil => exact absurd rfl hne
  | cons rpcUrl rest ih =>
    by_cases hstop : PassedOver (final index) → rest = []
    · refine ⟨0, rpcUrl, rfl, fun i hi => absurd hi (Nat.not_lt_zero i), ?_, ?_, ?_⟩
      · intro hpassed
        rw [hstop hpassed]
        rfl
      · rw [contactFrom_final hstop]
        simp [requestsTo, final]
      · exact callFrom_final hstop
    · simp only [Classical.not_imp] at hstop
      obtain ⟨hpassed, hrest⟩ := hstop
      obtain ⟨err, honward⟩ := @callFrom_onward R index rpcUrl rest final lastError hpassed hrest
      obtain ⟨n, url, hurl, hearlier, hlast, hcontacts, hcall⟩ := @ih (index + 1) (some err) hrest
      have hplace : ∀ i, index + 1 + i = index + (i + 1) := by
        intro i
        omega
      rw [hplace] at hlast hcontacts hcall
      refine ⟨n + 1, url, hurl, ?_, ?_, ?_, ?_⟩
      · intro i hi
        cases i with
        | zero => exact hpassed
        | succ i =>
          rw [← hplace]
          exact hearlier i (Nat.lt_of_succ_lt_succ hi)
      · intro hpassed'
        exact congrArg (· + 1) (hlast hpassed')
      · rw [contactFrom_onward hpassed hrest, hcontacts]
        rw [List.take_succ_cons, requestsTo_cons]
      · rw [honward, hcall]

end Calls

/-- **Failover.** The endpoints of a configuration are some, and no two of them
are the same. A call goes through them in order and posts to each at most once,
with up to three retries by the HTTP client. It ends with the first endpoint that
answers with anything but status 503, or with the last one, and returns what that
endpoint makes of it; it never comes behind its loop. -/
theorem call_first_definitive (config : SorobanConfig) (post : Nat → Post R)
    (hpolicy : WithinPolicy post) :
    let urls := config.rpcEndpoints
    let final := fun i => (post i).response
    (urls ≠ [] ∧ urls.Nodup) ∧
    ∃ n url, urls[n]? = some url ∧ (∀ i < n, PassedOver (final i)) ∧
      (PassedOver (final n) → n + 1 = urls.length ∧ ∃ e, verdict url (final n) = .error e) ∧
      contactFrom post 0 urls =
        ⟨requestsTo post 0 (urls.take (n + 1)), some (verdict url (final n))⟩ ∧
      (∀ rpcUrl, (contactFrom post 0 urls).requests.count rpcUrl ≤ 1 + maxRetries) ∧
      call urls final = verdict url (final n) := by
  intro urls final
  refine ⟨⟨rpcEndpoints_ne_nil config, rpcEndpoints_nodup config⟩, ?_⟩
  have hspec := @contactFrom_spec R post 0 none urls (rpcEndpoints_ne_nil config)
  simp only [Nat.zero_add] at hspec
  obtain ⟨n, url, hurl, hearlier, hlast, hcontacts, hcall⟩ := hspec
  refine ⟨n, url, hurl, hearlier, ?_, hcontacts, ?_, hcall⟩
  · intro hpassed
    exact ⟨hlast hpassed, verdict_of_passedOver hpassed⟩
  · intro rpcUrl
    rw [hcontacts]
    have hnodup := (rpcEndpoints_nodup config).sublist (List.take_sublist (n + 1) urls)
    exact count_requestsTo_le hpolicy hnodup rpcUrl

/-- Two endpoints. -/
def primaryAndSecondary : SorobanConfig := ⟨"http://primary", ["http://secondary"]⟩

/-- The first one answers every request with status 503 and is asked again as
often as the policy allows; the second one is healthy. -/
def primaryDown (index : Nat) : Post String :=
  if index = 0 then ⟨4, .http ⟨503, "Service Unavailable"⟩ "service unavailable" (.error "")⟩
  else ⟨1, .http ⟨200, "OK"⟩ "" (.ok ⟨some "healthy", none⟩)⟩

theorem primaryDown_withinPolicy : WithinPolicy primaryDown := by
  intro index
  unfold primaryDown
  split <;> decide

theorem call_first_definitive_primaryDown : ∃ n url,
    primaryAndSecondary.rpcEndpoints[n]? = some url ∧
      call primaryAndSecondary.rpcEndpoints (fun i => (primaryDown i).response) =
        verdict url (primaryDown n).response := by
  obtain ⟨n, url, hurl, -, -, -, -, hcall⟩ :=
    (call_first_definitive primaryAndSecondary primaryDown primaryDown_withinPolicy).2
  exact ⟨n, url, hurl, hcall⟩

/-- The call falls back to the second endpoint, after four requests to the first. -/
theorem primary_contacted_four_times :
    WithinPolicy primaryDown ∧
      contactFrom primaryDown 0 primaryAndSecondary.rpcEndpoints =
        ⟨["http://primary", "http://primary", "http://primary", "http://primary",
          "http://secondary"], some (.ok "healthy")⟩ :=
  ⟨primaryDown_withinPolicy, rfl⟩

end Axionvera.Node.Failover

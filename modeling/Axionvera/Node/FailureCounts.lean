import Axionvera.Node.Fallback
import Axionvera.Node.HorizonLocks

/-! # Failure counts of concurrent requests

`record_failure` adds one to a `u8`. A circuit that opens keeps new requests away
from its provider, but not those that selected it before; they record their
failures all the same. So a count is bounded by the threshold together with the
number of requests that are under way at a time (`inFlight`), as long as every
address has one status. -/
namespace Axionvera.Node.FailureCounts
open Axionvera.Lib.Guards Axionvera.Lib.Interleaving Axionvera.Lib.Transition
open Axionvera.Node.Horizon Axionvera.Node.HorizonLocks
open Axionvera.Node.CircuitBreaker (update_get)
open Axionvera.Node.Fallback (position_spec position_isSome map_provider_update of_choose_ok
  of_choose_error)

variable {config : HorizonConfig} {c c' : HorizonClient} {s s' : Locked} {move : Move} {m i : Nat}
  {x y : Point} {url : String} {providers : List ProviderStatus} {st st' : ProviderStatus}
  {threshold : UInt8}

/-- A request that has begun and has not ended. -/
def inFlight : Point → Bool
  | .getting (.round attempts) => decide (attempts ≠ 1)
  | .ended _ => false
  | _ => true

/-- A step after which at most `m` requests are under way. -/
def Within (m : Nat) (s : Locked) (move : Move) (s' : Locked) : Prop :=
  Step s move s' ∧ s'.count inFlight ≤ m

/-- The next step of a request adds one to a count of 255. -/
def AboutToWrap (s : Locked) : Prop :=
  ∃ attempts provider text, .writingFailure attempts provider text ∈ s.tasks ∧
    ∃ st, (s.shared.providers.find? fun st => st.provider.url = provider.url) = some st ∧
      st.failureCount = UInt8.ofNat 255

/-- That step is never held up, and the failure it records leaves the count at zero. -/
theorem AboutToWrap.wraps (h : AboutToWrap s) (r : Surroundings) :
    ∃ i s' st, Step s ⟨i, r⟩ s' ∧ st ∈ s'.shared.providers ∧
      st.failureCount = UInt8.ofNat 0 ∧ st.lastFailureTime = some r.now := by
  obtain ⟨attempts, provider, text, hmem, st, hfind, hfull⟩ := h
  obtain ⟨i, hi⟩ := List.getElem?_of_mem hmem
  have hurl : st.provider.url = provider.url := by simpa using List.find?_some hfind
  obtain ⟨j, hj⟩ := position_isSome (List.mem_of_find?_eq_some hfind)
  rw [hurl] at hj
  obtain ⟨st', hst', _, hfind'⟩ := position_spec hj
  cases hfind.symm.trans hfind'
  have hgranted : Granted locking s.tasks (.writingFailure attempts provider text) := by
    intro g hg
    cases hg
  refine ⟨i, _, st.recordFailure r.now s.shared.config.circuitBreakerFailureThreshold,
    step_of_granted hi hgranted, List.mem_of_getElem? (i := j) ?_, ?_, rfl⟩
  · show (update s.shared.providers provider.url _)[j]? = _
    rw [update_get, hst', Option.map_some, if_pos hj]
  · show st.failureCount + 1 = _
    rw [hfull]
    rfl

/-! ## What a step does to the counts -/

/-- A request that has selected the address and has not recorded its outcome. -/
def carries (url : String) : Point → Bool
  | .operating _ provider => decide (provider.url = url)
  | .succeeding provider => decide (provider.url = url)
  | .writingSuccess provider => decide (provider.url = url)
  | .failing _ provider _ => decide (provider.url = url)
  | .writingFailure _ provider _ => decide (provider.url = url)
  | _ => false

theorem inFlight_of_carries (h : carries url x = true) : inFlight x = true := by
  cases x with
  | getting k => cases h
  | ended answer => cases h
  | _ => rfl

theorem carries_afterFailure (n attempts : Nat) (text : String) (b : Bool) :
    carries url (afterFailure n attempts text b) = false := by
  unfold afterFailure
  split
  · rfl
  · rfl

theorem carries_resume_switcher (k : Switcher) (a : Except NetworkError HorizonProvider) :
    carries url (k.resume a) = false := by
  unfold Switcher.resume
  split <;> rfl

/-- The steps of calls that are no health checks: one that writes no status and
selects none, a selection, and the two records. -/
inductive Effect (r : Surroundings) (x : Point) (c : HorizonClient) : Prop where
  | quiet : (step r x c).2.config = c.config → (step r x c).2.providers = c.providers →
    (∀ url, carries url (step r x c).1 = true → carries url x = true) → Effect r x c
  | selects (st : ProviderStatus) : st ∈ c.providers → st.canExecuteRequest = true →
    (step r x c).2 = c → (∀ url, carries url (step r x c).1 = true → st.provider.url = url) →
    Effect r x c
  | succeeds (provider : HorizonProvider) : x = .writingSuccess provider →
    (step r x c).2 = c.recordProviderSuccess provider r.now →
    (∀ url, carries url (step r x c).1 = false) → Effect r x c
  | fails (attempts : Nat) (provider : HorizonProvider) (text : String) :
    x = .writingFailure attempts provider text →
    (step r x c).2 = (c.recordProviderFailure provider r.now).2 →
    (∀ url, carries url (step r x c).1 = false) → Effect r x c

theorem effect_choosing (r : Surroundings) (k : Getter) (index : Nat) (c : HorizonClient) :
    Effect r (.choosing k index) c := by
  cases hchosen : choose c.providers index with
  | ok provider =>
    obtain ⟨⟨st, hst, hserves, rfl⟩, _⟩ := of_choose_ok hchosen
    refine .selects st hst hserves rfl ?_
    intro url hcarries
    rw [step, hchosen] at hcarries
    cases k with
    | caller => cases hcarries
    | round attempts => exact of_decide_eq_true hcarries
  | error e =>
    refine .quiet rfl rfl ?_
    intro url hcarries
    rw [step, hchosen] at hcarries
    cases k with
    | caller => cases hcarries
    | round attempts =>
      dsimp only [Getter.resume] at hcarries
      split at hcarries
      · cases hcarries
      · cases hcarries

theorem effect (r : Surroundings) (c : HorizonClient) (hx : inHealthCheck x = false) :
    Effect r x c := by
  cases x with
  | choosing k index => exact effect_choosing r k index c
  | movingIndex k =>
    refine .quiet (switchProvider_config c) (switchProvider_providers c) ?_
    intro url hcarries
    rw [step, carries_resume_switcher] at hcarries
    cases hcarries
  | operating attempts provider =>
    refine .quiet ?_ ?_ ?_
    · dsimp only [step]
      split <;> rfl
    · dsimp only [step]
      split <;> rfl
    · intro url hcarries
      dsimp only [step] at hcarries
      split at hcarries
      · exact hcarries
      · exact hcarries
  | writingSuccess provider => exact .succeeds provider rfl rfl fun _ => rfl
  | writingFailure attempts provider text =>
    exact .fails attempts provider text rfl rfl fun _ => carries_afterFailure _ _ _ _
  | checking => cases hx
  | probing => cases hx
  | updating results => cases hx
  | writingChecks results => cases hx
  | _ => exact .quiet rfl rfl fun _ hcarries => hcarries

/-! ## Addresses that occur once -/

theorem position_of_nodup (hnodup : (providers.map (·.provider.url)).Nodup)
    (hst : providers[i]? = some st) : position providers st.provider.url = some i := by
  obtain ⟨j, hj⟩ := position_isSome (List.mem_of_getElem? hst)
  obtain ⟨st', hst', hurl, _⟩ := position_spec hj
  have hsame : (providers.map (·.provider.url))[j]? = (providers.map (·.provider.url))[i]? := by
    rw [List.getElem?_map, List.getElem?_map, hst, hst', Option.map_some, Option.map_some, hurl]
  have hlt : j < (providers.map (·.provider.url)).length := by
    rw [List.length_map]
    exact (List.getElem?_eq_some_iff.mp hst').1
  rw [hj, (List.getElem?_inj hlt hnodup).mp hsame]

/-- An update changes the status with the address and no other. -/
theorem mem_update {f : ProviderStatus → ProviderStatus}
    (hnodup : (providers.map (·.provider.url)).Nodup) (h : st' ∈ update providers url f) :
    (st' ∈ providers ∧ st'.provider.url ≠ url) ∨
      ∃ st ∈ providers, st.provider.url = url ∧ st' = f st := by
  obtain ⟨i, hi⟩ := List.getElem?_of_mem h
  rw [update_get] at hi
  obtain ⟨st, hst, rfl⟩ := Option.map_eq_some_iff.mp hi
  have hposition := position_of_nodup hnodup hst
  split
  · rename_i hfound
    obtain ⟨st'', hst'', hurl, _⟩ := position_spec hfound
    cases hst.symm.trans hst''
    exact .inr ⟨st, List.mem_of_getElem? hst, hurl, rfl⟩
  · rename_i hother
    refine .inl ⟨List.mem_of_getElem? hst, ?_⟩
    rintro rfl
    exact hother hposition

theorem map_url_update {f : ProviderStatus → ProviderStatus}
    (hf : ∀ st, (f st).provider = st.provider) :
    (update providers url f).map (·.provider.url) = providers.map (·.provider.url) := by
  have hurls (l : List ProviderStatus) :
      l.map (·.provider.url) = (l.map ProviderStatus.provider).map HorizonProvider.url := by
    rw [List.map_map]
    rfl
  rw [hurls, hurls, map_provider_update hf]

/-! ## The bound -/

/-- A closed circuit has not reached the threshold. A circuit is never half open. -/
def Sound (threshold : UInt8) (st : ProviderStatus) : Prop :=
  st.circuitState ≠ .halfOpen ∧
    (st.circuitState = .closed → st.failureCount.toNat < max threshold.toNat 1)

theorem Sound.lt_of_serves (h : Sound threshold st) (hserves : st.canExecuteRequest = true) :
    st.failureCount.toNat < max threshold.toNat 1 := by
  refine h.2 ?_
  cases hstate : st.circuitState with
  | closed => rfl
  | opened => simp [ProviderStatus.canExecuteRequest, hstate] at hserves
  | halfOpen => exact absurd hstate h.1

theorem Sound.recordSuccess (h : Sound threshold st) (now : Instant) :
    Sound threshold (st.recordSuccess now) := by
  have hstate : (st.recordSuccess now).circuitState = st.circuitState := if_neg h.1
  refine ⟨by rw [hstate]; exact h.1, ?_⟩
  intro _
  show 0 < max threshold.toNat 1
  omega

theorem toNat_recordFailure (now : Instant) (threshold : UInt8)
    (hroom : st.failureCount.toNat < 255) :
    (st.recordFailure now threshold).failureCount.toNat = st.failureCount.toNat + 1 := by
  show (st.failureCount + 1).toNat = _
  rw [UInt8.toNat_add]
  exact Nat.mod_eq_of_lt (by show st.failureCount.toNat + 1 < 256; omega)

theorem Sound.recordFailure (h : Sound threshold st) (now : Instant)
    (hroom : st.failureCount.toNat < 255) : Sound threshold (st.recordFailure now threshold) := by
  have hcount := toNat_recordFailure now threshold hroom
  by_cases hopens : threshold ≤ st.failureCount + 1
  · have hstate : (st.recordFailure now threshold).circuitState = .opened := if_pos hopens
    rw [Sound, hstate]
    exact ⟨by decide, fun hclosed => by cases hclosed⟩
  · have hstate : (st.recordFailure now threshold).circuitState = st.circuitState := if_neg hopens
    refine ⟨by rw [hstate]; exact h.1, ?_⟩
    intro _
    have hbelow : (st.recordFailure now threshold).failureCount.toNat < threshold.toNat :=
      UInt8.lt_iff_toNat_lt.mp (UInt8.not_le.mp hopens)
    omega

/-- What is counted at an address and what is on the way to it fit into the count. -/
structure Bounded (config : HorizonConfig) (s : Locked) : Prop where
  same : s.shared.config = config
  plain : ∀ x ∈ s.tasks, inHealthCheck x = false
  nodup : (s.shared.providers.map (·.provider.url)).Nodup
  sound : ∀ st ∈ s.shared.providers, Sound config.circuitBreakerFailureThreshold st
  room : ∀ st ∈ s.shared.providers,
    st.failureCount.toNat + s.count (carries st.provider.url) ≤ 255

theorem Bounded.not_aboutToWrap (h : Bounded config s) : ¬ AboutToWrap s := by
  rintro ⟨attempts, provider, text, hmem, st, hfind, hfull⟩
  have hurl : st.provider.url = provider.url := by simpa using List.find?_some hfind
  have hcarried : 0 < s.count (carries st.provider.url) :=
    List.countP_pos_iff.mpr ⟨_, hmem, decide_eq_true hurl.symm⟩
  have hroom := h.room st (List.mem_of_find?_eq_some hfind)
  rw [hfull] at hroom
  have hvalue : (UInt8.ofNat 255).toNat = 255 := rfl
  omega

/-- A step by which no request selects the address brings no more on the way to it. -/
theorem count_carries_le (url : String) (hx : s.tasks[i]? = some x) {p : Point × HorizonClient}
    (h : carries url p.1 = true → carries url x = true) :
    (s.put i p).count (carries url) ≤ s.count (carries url) := by
  have hcount := count_put (f := carries url) (x := p) hx
  have hle : (carries url p.1).toNat ≤ (carries url x).toNat :=
    Bool.toNat_le_toNat (Bool.le_iff_imp.mpr h)
  omega

theorem count_carries_le_of_not (url : String) (hx : s.tasks[i]? = some x)
    {p : Point × HorizonClient} (h : carries url p.1 = false) :
    (s.put i p).count (carries url) ≤ s.count (carries url) := by
  refine count_carries_le url hx ?_
  rw [h]
  intro htrue
  cases htrue

theorem count_carries_le_inFlight (s : Locked) (url : String) :
    s.count (carries url) ≤ s.count inFlight :=
  List.countP_mono_left fun _ _ => inFlight_of_carries

/-- A step that writes no status. -/
theorem Bounded.keep {p : Point × HorizonClient} (h : Bounded config s)
    (hplain : ∀ y ∈ (s.put i p).tasks, inHealthCheck y = false)
    (hconfig : p.2.config = s.shared.config)
    (hproviders : p.2.providers = s.shared.providers)
    (hroom : ∀ st ∈ s.shared.providers,
      st.failureCount.toNat + (s.put i p).count (carries st.provider.url) ≤ 255) :
    Bounded config (s.put i p) where
  same := hconfig.trans h.same
  plain := hplain
  nodup := by
    rw [put_shared, hproviders]
    exact h.nodup
  sound := by
    rw [put_shared, hproviders]
    exact h.sound
  room := by
    rw [put_shared, hproviders]
    exact hroom

/-- A step that writes the status with the address `url`. -/
theorem Bounded.record {p : Point × HorizonClient} {f : ProviderStatus → ProviderStatus}
    (h : Bounded config s) (hx : s.tasks[i]? = some x)
    (hplain : ∀ y ∈ (s.put i p).tasks, inHealthCheck y = false)
    (hclient : p.2 = { s.shared with providers := update s.shared.providers url f })
    (hf : ∀ st, (f st).provider = st.provider)
    (hcarries : ∀ url, carries url p.1 = false)
    (hsound : ∀ st ∈ s.shared.providers, st.provider.url = url →
      Sound config.circuitBreakerFailureThreshold (f st))
    (hroom : ∀ st ∈ s.shared.providers, st.provider.url = url →
      (f st).failureCount.toNat + (s.put i p).count (carries st.provider.url) ≤ 255) :
    Bounded config (s.put i p) where
  same := by
    rw [put_shared, hclient]
    exact h.same
  plain := hplain
  nodup := by
    rw [put_shared, hclient, map_url_update hf]
    exact h.nodup
  sound := by
    rw [put_shared, hclient]
    intro st' hst'
    rcases mem_update h.nodup hst' with ⟨hst, _⟩ | ⟨st, hst, hurl, rfl⟩
    · exact h.sound st' hst
    · exact hsound st hst hurl
  room := by
    rw [put_shared, hclient]
    intro st' hst'
    rcases mem_update h.nodup hst' with ⟨hst, _⟩ | ⟨st, hst, hurl, rfl⟩
    · have hle := count_carries_le_of_not st'.provider.url hx (hcarries _)
      exact (Nat.add_le_add_left hle _).trans (h.room st' hst)
    · rw [hf]
      exact hroom st hst hurl

theorem Bounded.step (h : Bounded config s)
    (hfits : max config.circuitBreakerFailureThreshold.toNat 1 + m ≤ 256)
    (hstep : Within m s move s') : Bounded config s' := by
  obtain ⟨hmove, hflight⟩ := hstep
  have hplain := hmove.not_check h.plain
  obtain ⟨x, hx, hgranted, rfl⟩ := hmove.cases
  cases effect move.around s.shared (h.plain x (List.mem_of_getElem? hx)) with
  | quiet hconfig hproviders hcarries =>
    refine h.keep hplain hconfig hproviders ?_
    intro st hst
    exact (Nat.add_le_add_left (count_carries_le _ hx (hcarries _)) _).trans (h.room st hst)
  | selects chosen hchosen hserves hclient hcarries =>
    refine h.keep hplain (congrArg _ hclient) (congrArg _ hclient) ?_
    intro st hst
    cases hnew : carries st.provider.url (HorizonLocks.step move.around x s.shared).1 with
    | true =>
      -- the selected status: whoever carries its address is under way
      cases List.inj_on_of_nodup_map h.nodup hchosen hst (hcarries _ hnew)
      have hbelow := (h.sound chosen hst).lt_of_serves hserves
      have hcarried := (count_carries_le_inFlight _ chosen.provider.url).trans hflight
      omega
    | false =>
      have hle := count_carries_le_of_not _ hx hnew
      exact (Nat.add_le_add_left hle _).trans (h.room st hst)
  | succeeds provider hpoint hclient hcarries =>
    refine h.record hx hplain hclient (fun _ => rfl) hcarries ?_ ?_
    · intro st hst _
      exact (h.sound st hst).recordSuccess _
    · intro st hst _
      have hroom := h.room st hst
      have hle := count_carries_le_of_not st.provider.url hx (hcarries _)
      show 0 + System.count (carries st.provider.url) _ ≤ 255
      omega
  | fails attempts provider text hpoint hclient hcarries =>
    -- one less is on the way, and one more is counted
    have hcounted (st : ProviderStatus) (hst : st ∈ s.shared.providers)
        (hurl : st.provider.url = provider.url) : st.failureCount.toNat + 1 +
          (s.put move.place (HorizonLocks.step move.around x s.shared)).count
            (carries st.provider.url) ≤ 255 := by
      have hroom := h.room st hst
      have hcount := count_put (f := carries st.provider.url)
        (x := HorizonLocks.step move.around x s.shared) hx
      have hmoved : carries st.provider.url x = true := by
        rw [hpoint]
        exact decide_eq_true hurl.symm
      rw [hmoved, hcarries, Bool.toNat_true, Bool.toNat_false] at hcount
      omega
    refine h.record hx hplain hclient (fun _ => rfl) hcarries ?_ ?_
    · intro st hst hurl
      have hroom := hcounted st hst hurl
      rw [h.same]
      exact (h.sound st hst).recordFailure _ (by omega)
    · intro st hst hurl
      have hroom := hcounted st hst hurl
      rw [toNat_recordFailure _ _ (by omega)]
      exact hroom

/-! ## Runs within the bound -/

/-- A new client and requests that are about to begin. -/
def requests (config : HorizonConfig) (calls : Nat) : Locked :=
  begun (.new config) (List.replicate calls .executeRequest)

theorem mem_requests {calls : Nat} (h : x ∈ (requests config calls).tasks) :
    x = .getting (.round 1) := by
  obtain ⟨call, hcall, rfl⟩ := List.mem_map.mp h
  rw [List.eq_of_mem_replicate hcall]
  rfl

theorem new_providers_perm (config : HorizonConfig) :
    (HorizonClient.new config).providers.Perm (config.providers.map ProviderStatus.new) :=
  List.perm_insertionSort _ _

theorem mem_new_providers (h : st ∈ (HorizonClient.new config).providers) :
    ∃ provider, st = .new provider := by
  obtain ⟨provider, _, rfl⟩ := List.mem_map.mp ((new_providers_perm config).mem_iff.mp h)
  exact ⟨provider, rfl⟩

theorem new_urls_nodup_iff : ((HorizonClient.new config).providers.map (·.provider.url)).Nodup ↔
    (config.providers.map HorizonProvider.url).Nodup := by
  rw [((new_providers_perm config).map _).nodup_iff, List.map_map]
  rfl

theorem count_requests_carries (config : HorizonConfig) (calls : Nat) (url : String) :
    (requests config calls).count (carries url) = 0 := by
  refine count_eq_zero.mpr ?_
  intro x hx
  rw [mem_requests hx]
  exact Bool.false_ne_true

theorem bounded_requests (hurls : (config.providers.map HorizonProvider.url).Nodup) (calls : Nat) :
    Bounded config (requests config calls) where
  same := rfl
  plain := by
    intro x hx
    rw [mem_requests hx]
    rfl
  nodup := new_urls_nodup_iff.mpr hurls
  sound := by
    intro st hst
    obtain ⟨provider, rfl⟩ := mem_new_providers hst
    refine ⟨CircuitBreakerState.noConfusion, ?_⟩
    intro _
    show 0 < max config.circuitBreakerFailureThreshold.toNat 1
    omega
  room := by
    intro st hst
    obtain ⟨provider, rfl⟩ := mem_new_providers hst
    rw [count_requests_carries]
    exact Nat.zero_le _

/-- No count wraps in a run in which the threshold and the requests under way fit. -/
theorem not_aboutToWrap_of_fits (hurls : (config.providers.map HorizonProvider.url).Nodup)
    (hfits : max config.circuitBreakerFailureThreshold.toNat 1 + m ≤ 256) {calls : Nat}
    {moves : List Move} (hrun : Run (Within m) (requests config calls) moves s) :
    ¬ AboutToWrap s :=
  (hrun.invariant (bounded_requests hurls calls) fun _ _ _ hbounded hstep =>
    hbounded.step hfits hstep).not_aboutToWrap

/-- Nothing is written where there are no statuses. -/
theorem not_aboutToWrap_of_none (hnone : config.providers = []) {calls : Nat} {moves : List Move}
    (hrun : Run (Within m) (requests config calls) moves s) : ¬ AboutToWrap s := by
  have hempty : (∀ x ∈ s.tasks, inHealthCheck x = false) ∧ s.shared.providers = [] := by
    refine hrun.invariant (I := fun s => (∀ x ∈ s.tasks, inHealthCheck x = false) ∧
      s.shared.providers = []) ⟨?_, ?_⟩ ?_
    · intro x hx
      rw [mem_requests hx]
      rfl
    · refine List.Perm.eq_nil ((new_providers_perm config).trans ?_)
      rw [hnone]
      rfl
    · rintro s move s' ⟨hplain, hproviders⟩ ⟨hstep, -⟩
      refine ⟨hstep.not_check hplain, ?_⟩
      obtain ⟨x, hx, _, rfl⟩ := hstep.cases
      cases effect move.around s.shared (hplain x (List.mem_of_getElem? hx)) with
      | quiet _ hsame _ => exact hsame.trans hproviders
      | selects st hst => rw [hproviders] at hst; cases hst
      | succeeds provider _ hclient _ =>
        rw [put_shared, hclient, HorizonClient.recordProviderSuccess, hproviders]
        rfl
      | fails attempts provider text _ hclient _ =>
        rw [put_shared, hclient, HorizonClient.recordProviderFailure, hproviders]
        rfl
  rintro ⟨attempts, provider, text, -, st, hfind, -⟩
  rw [hempty.2] at hfind
  cases hfind

/-- No request can begin. -/
theorem not_aboutToWrap_of_idle {calls : Nat} {moves : List Move}
    (hrun : Run (Within 0) (requests config calls) moves s) : ¬ AboutToWrap s := by
  have hnone : s.count inFlight ≤ 0 := by
    refine hrun.invariant (I := fun s => s.count inFlight ≤ 0) ?_ fun _ _ _ _ hstep => hstep.2
    refine Nat.le_of_eq (count_eq_zero.mpr ?_)
    intro x hx
    rw [mem_requests hx]
    exact Bool.false_ne_true
  rintro ⟨attempts, provider, text, hmem, -⟩
  exact count_eq_zero.mp (Nat.le_zero.mp hnone) _ hmem rfl

end Axionvera.Node.FailureCounts

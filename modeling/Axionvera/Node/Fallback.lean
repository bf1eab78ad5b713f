import Axionvera.Lib.Circle
import Axionvera.Node.CircuitBreaker

/-! # Fallback between the providers

A request goes on to the next provider only when the failure has opened the
circuit of the last one. As long as every failure does so, the request comes
around to all providers that could serve when it began. -/
namespace Axionvera.Node.Fallback
open Axionvera.Lib.Circle Axionvera.Lib.Transition
open Axionvera.Node.Horizon Axionvera.Node.CircuitBreaker

variable {α : Type} {b c c₁ c₂ : HorizonClient} {st st' : ProviderStatus} {p q : HorizonProvider}
  {providers : List ProviderStatus} {i j cur : Nat} {url : String} {done : List String}

/-! ## Clients -/

/-- What holds of every client: it has as many statuses as configured providers,
and the current one is one of them. -/
structure Valid (c : HorizonClient) : Prop where
  sized : c.providers.length = c.config.providers.length
  current : 0 < c.providers.length → c.currentProviderIndex < c.providers.length

theorem length_update (f : ProviderStatus → ProviderStatus) :
    (update providers url f).length = providers.length := by
  unfold update
  split
  · exact List.length_modify _ _ _
  · rfl

theorem Valid.write (h : Valid c) (hlength : providers.length = c.providers.length) :
    Valid { c with providers := providers } where
  sized := hlength.trans h.sized
  current := by
    simpa only [hlength] using h.current

/-- The provider at a place, if it can serve. -/
def serving (providers : List ProviderStatus) (i : Nat) : Option (Nat × HorizonProvider) :=
  ((providers[i]?).filter ProviderStatus.canExecuteRequest).map fun st => (i, st.provider)

theorem serving_eq_some {found : Nat × HorizonProvider} (h : serving providers i = some found) :
    found.1 = i ∧ ∃ st, providers[i]? = some st ∧ st.canExecuteRequest = true := by
  obtain ⟨st, hst, rfl⟩ := Option.map_eq_some_iff.mp h
  obtain ⟨hget, hserves⟩ := Option.filter_eq_some_iff.mp hst
  exact ⟨rfl, st, hget, hserves⟩

theorem serving_isSome (hst : providers[i]? = some st) (hserves : st.canExecuteRequest = true) :
    (serving providers i).isSome := by
  simp [serving, hst, Option.filter, hserves]

theorem chooseNext_eq : chooseNext providers cur = (List.range providers.length).findSome? fun k =>
    serving providers ((cur + k + 1) % providers.length) := rfl

theorem switchProvider_ok (h : c.switchProvider = (.ok q, c₂)) :
    ∃ k, chooseNext c.providers c.currentProviderIndex = some (k, q) ∧
      c₂ = { c with currentProviderIndex := k } := by
  unfold HorizonClient.switchProvider at h
  cases hnext : chooseNext c.providers c.currentProviderIndex with
  | none =>
    rw [hnext] at h
    cases h
  | some found =>
    rw [hnext] at h
    cases h
    exact ⟨found.1, rfl, rfl⟩

theorem chooseNext_lt (h : chooseNext providers cur = some (i, q)) : i < providers.length := by
  rw [chooseNext_eq] at h
  obtain ⟨k, _, hfound⟩ := List.exists_of_findSome?_eq_some h
  obtain ⟨hplace, st, hst, _⟩ := serving_eq_some hfound
  dsimp only at hplace
  rw [hplace]
  exact (List.getElem?_eq_some_iff.mp hst).1

theorem Valid.switch (h : Valid c) (hnext : chooseNext c.providers c.currentProviderIndex =
    some (i, q)) : Valid { c with currentProviderIndex := i } where
  sized := h.sized
  current := fun _ => chooseNext_lt hnext

theorem valid_after (h : Valid c) (e : Event) : Valid (after c e) := by
  cases e with
  | succeeded p now => exact h.write (length_update _)
  | failed p now => exact h.write (length_update _)
  | checked p isHealthy now => exact h.write (length_update _)
  | switched =>
    unfold after HorizonClient.switchProvider
    cases hnext : chooseNext c.providers c.currentProviderIndex with
    | none => exact h
    | some found => exact h.switch hnext

theorem valid_of_run {config : HorizonConfig} {events : List Event}
    (h : Run Step (HorizonClient.new config) events c) : Valid c := by
  refine h.invariant (I := Valid) ⟨?_, id⟩ ?_
  · simp [HorizonClient.new, List.length_insertionSort]
  · intro c e c' hc hstep
    subst hstep
    exact valid_after hc e

/-! ## Selection -/

theorem of_choose_ok (h : choose providers cur = .ok p) :
    (∃ st ∈ providers, st.canExecuteRequest = true ∧ st.provider = p) ∧
      ∀ st, providers[cur]? = some st → st.canExecuteRequest = true → st.provider = p := by
  unfold choose at h
  cases hcurrent : (providers[cur]?).filter ProviderStatus.canExecuteRequest with
  | some st =>
    rw [hcurrent] at h
    cases h
    obtain ⟨hget, hserves⟩ := Option.filter_eq_some_iff.mp hcurrent
    refine ⟨⟨st, List.mem_of_getElem? hget, hserves, rfl⟩, ?_⟩
    intro st' hst' _
    cases hget.symm.trans hst'
    rfl
  | none =>
    rw [hcurrent] at h
    dsimp only at h
    refine ⟨?_, ?_⟩
    · split at h
      · rename_i x hfind
        cases h
        have hserves := List.find?_some hfind
        simp only [Bool.and_eq_true] at hserves
        exact ⟨x.1, List.fst_mem_of_mem_zipIdx (List.mem_of_find?_eq_some hfind), hserves.2, rfl⟩
      · cases h
    · intro st hst hserves
      rw [hst] at hcurrent
      simp [Option.filter, hserves] at hcurrent

theorem of_choose_error {e : NetworkError} (h : choose providers cur = .error e) :
    ∀ st ∈ providers, st.canExecuteRequest = false := by
  intro st hst
  by_contra hserves
  have hserves := Bool.eq_true_of_not_eq_false hserves
  obtain ⟨i, hi⟩ := List.getElem?_of_mem hst
  unfold choose at h
  split at h
  · cases h
  · rename_i hcurrent
    split at h
    · cases h
    · rename_i hfind
      have hne : i ≠ cur := by
        intro heq
        subst heq
        rw [hi] at hcurrent
        simp [Option.filter, hserves] at hcurrent
      have hmissed := List.find?_eq_none.mp hfind (st, i) (List.mk_mem_zipIdx_iff_getElem?.mpr hi)
      simp [hserves, hne] at hmissed

theorem of_chooseNext_none (hcur : cur < providers.length) (h : chooseNext providers cur = none) :
    ∀ st ∈ providers, st.canExecuteRequest = false := by
  intro st hst
  by_contra hserves
  obtain ⟨i, hi⟩ := List.getElem?_of_mem hst
  obtain ⟨d, hd, hplace⟩ := exists_add hcur (List.getElem?_eq_some_iff.mp hi).1
  rw [chooseNext_eq] at h
  have hnone := List.findSome?_eq_none_iff.mp h d (List.mem_range.mpr hd)
  rw [hplace] at hnone
  have hsome := serving_isSome hi (Bool.eq_true_of_not_eq_false hserves)
  simp [hnone] at hsome

theorem switchProvider_error {e : NetworkError} (h : c.switchProvider = (.error e, c₂)) :
    chooseNext c.providers c.currentProviderIndex = none := by
  unfold HorizonClient.switchProvider at h
  cases hnext : chooseNext c.providers c.currentProviderIndex with
  | none => rfl
  | some found =>
    rw [hnext] at h
    cases h

/-! ## Statuses by address -/

/-- A failure of this address leaves its circuit open. -/
def Opens (c : HorizonClient) (url : String) : Prop :=
  ∀ st, (c.providers.find? fun st => st.provider.url = url) = some st →
    st.circuitState = .opened ∨ c.config.circuitBreakerFailureThreshold ≤ st.failureCount + 1

theorem position_spec (h : position providers url = some i) :
    ∃ st, providers[i]? = some st ∧ st.provider.url = url ∧
      (providers.find? fun st => st.provider.url = url) = some st := by
  obtain ⟨hlt, hurl, hbefore⟩ := List.findIdx?_eq_some_iff_getElem.mp h
  refine ⟨providers[i], List.getElem?_eq_getElem hlt, of_decide_eq_true hurl, ?_⟩
  refine List.find?_eq_some_iff_getElem.mpr ⟨hurl, i, hlt, rfl, ?_⟩
  intro j hj
  simpa using hbefore j hj

theorem position_isSome (hst : st ∈ providers) : ∃ i, position providers st.provider.url = some i := by
  refine Option.isSome_iff_exists.mp ?_
  rw [position, List.findIdx?_isSome, List.any_eq_true]
  exact ⟨st, hst, decide_eq_true rfl⟩

/-- The places of the addresses are a matter of the providers alone. -/
theorem position_congr {providers' : List ProviderStatus}
    (h : providers'.map ProviderStatus.provider = providers.map ProviderStatus.provider) :
    position providers' url = position providers url := by
  have hmap : ∀ l : List ProviderStatus, position l url =
      (l.map ProviderStatus.provider).findIdx? fun p => p.url = url := by
    intro l
    rw [List.findIdx?_map]
    rfl
  rw [hmap, hmap, h]

theorem map_provider_update {f : ProviderStatus → ProviderStatus}
    (hf : ∀ st, (f st).provider = st.provider) :
    (update providers url f).map ProviderStatus.provider =
      providers.map ProviderStatus.provider := by
  refine List.ext_getElem? ?_
  intro i
  rw [List.getElem?_map, List.getElem?_map, update_get, Option.map_map]
  congr 1
  funext st
  dsimp only [Function.comp]
  split
  · exact hf st
  · rfl

/-! ## The course of a request -/

/-- The client `c` in the course of a request that began with `b`, after failures
at the addresses `done` that all left the circuits open. -/
structure Tracks (b : HorizonClient) (done : List String) (c : HorizonClient) : Prop where
  config : c.config = b.config
  current : 0 < c.providers.length → c.currentProviderIndex < c.providers.length
  same : c.providers.map ProviderStatus.provider = b.providers.map ProviderStatus.provider
  kept : ∀ (i : Nat) (st : ProviderStatus), c.providers[i]? = some st →
    b.providers[i]? = some st ∨ st.provider.url ∈ done ∧ st.circuitState = .opened

theorem Tracks.length (h : Tracks b done c) : c.providers.length = b.providers.length := by
  simpa using congrArg List.length h.same

theorem Tracks.begin (h : Valid b) : Tracks b [] b where
  config := rfl
  current := h.current
  same := rfl
  kept := fun _ _ hst => Or.inl hst

/-- A status is what it was, as long as its address has not failed. -/
theorem Tracks.get (h : Tracks b done c) (hst : b.providers[i]? = some st)
    (hurl : st.provider.url ∉ done) : c.providers[i]? = some st := by
  have hget := congrArg (fun l => l[i]?) h.same
  simp only [List.getElem?_map, hst, Option.map_some] at hget
  obtain ⟨st', hst', hprovider⟩ := Option.map_eq_some_iff.mp hget
  rcases h.kept i st' hst' with hsame | ⟨hdone, _⟩
  · rw [hst', ← hsame, hst]
  · rw [hprovider] at hdone
    exact False.elim (hurl hdone)

/-- Who serves now could serve at the start. -/
theorem Tracks.serves (h : Tracks b done c) (hst : st ∈ c.providers)
    (hserves : st.canExecuteRequest = true) : st ∈ b.providers := by
  obtain ⟨i, hi⟩ := List.getElem?_of_mem hst
  rcases h.kept i st hi with hsame | ⟨_, hopened⟩
  · exact List.mem_of_getElem? hsame
  · simp [ProviderStatus.canExecuteRequest, hopened] at hserves

/-- The providers after a failure. -/
theorem map_provider_failure (c : HorizonClient) (url : String) (now : Instant) :
    (update c.providers url (·.recordFailure now c.config.circuitBreakerFailureThreshold)).map
      ProviderStatus.provider = c.providers.map ProviderStatus.provider :=
  map_provider_update fun _ => rfl

theorem recordFailure_opened {now : Instant} {threshold : UInt8} (h : st.circuitState = .opened) :
    (st.recordFailure now threshold).circuitState = .opened := by
  simp [ProviderStatus.recordFailure, h]

theorem Tracks.fail {now : Instant} (h : Tracks b done c)
    (hfail : c.recordProviderFailure p now = (true, c₁)) : Tracks b (p.url :: done) c₁ := by
  obtain ⟨hopened, rfl⟩ := Prod.mk.inj hfail
  have hmap := map_provider_failure c p.url now
  refine ⟨h.config, ?_, hmap.trans h.same, ?_⟩
  · simpa only [length_update] using h.current
  · intro i st hst
    by_cases hposition : position c.providers p.url = some i
    · right
      obtain ⟨st', hst', hurl, hfind⟩ := position_spec ((position_congr hmap).trans hposition)
      cases hst.symm.trans hst'
      rw [hfind] at hopened
      exact ⟨hurl ▸ List.mem_cons_self, of_decide_eq_true hopened⟩
    · dsimp only at hst
      rw [update_get] at hst
      obtain ⟨st', hst', heq⟩ := Option.map_eq_some_iff.mp hst
      rw [if_neg hposition] at heq
      subst heq
      exact (h.kept i st' hst').imp_right fun hdone => ⟨List.mem_cons_of_mem _ hdone.1, hdone.2⟩

/-- A failure that leaves the circuit closed is the first of its address, and
would have left it closed at the start. -/
theorem Tracks.not_opens {now : Instant} (h : Tracks b done c) (hst : st ∈ c.providers)
    (hfail : c.recordProviderFailure st.provider now = (false, c₁)) :
    ¬ Opens b st.provider.url := by
  intro hopens
  obtain ⟨hclosed, rfl⟩ := Prod.mk.inj hfail
  obtain ⟨i, hposition⟩ := position_isSome hst
  obtain ⟨st', hst', hurl, hfind⟩ := position_spec hposition
  have hmap := map_provider_failure c st.provider.url now
  obtain ⟨st₁, hst₁, -, hfind₁⟩ := position_spec ((position_congr hmap).trans hposition)
  rw [update_get, hst', Option.map_some, if_pos hposition] at hst₁
  cases hst₁
  have hnot : ¬ (st'.recordFailure now c.config.circuitBreakerFailureThreshold).circuitState =
      .opened := by
    rw [hfind₁] at hclosed
    exact of_decide_eq_false hclosed
  rcases h.kept i st' hst' with hsame | ⟨hdone, hopened⟩
  · have hposition' : position b.providers st.provider.url = some i :=
      (position_congr h.same).symm.trans hposition
    obtain ⟨st₀, hst₀, -, hfind₀⟩ := position_spec hposition'
    cases hsame.symm.trans hst₀
    rcases hopens _ hfind₀ with hopened | hreached
    · exact hnot (recordFailure_opened hopened)
    · rw [← h.config] at hreached
      exact hnot (if_pos hreached)
  · exact hnot (recordFailure_opened hopened)

theorem Tracks.switch (h : Tracks b done c) (hswitch : c.switchProvider = (.ok q, c₂)) :
    Tracks b done c₂ := by
  obtain ⟨k, hnext, rfl⟩ := switchProvider_ok hswitch
  exact ⟨h.config, fun _ => chooseNext_lt hnext, h.same, h.kept⟩

/-! ## Around the circle -/

/-- The provider at `j` could serve at the start, and its address has not failed. -/
def Pending (b : HorizonClient) (done : List String) (j : Nat) : Prop :=
  ∃ st, b.providers[j]? = some st ∧ st.canExecuteRequest = true ∧ st.provider.url ∉ done

/-- How far the request has come around the circle. -/
def distance (b : HorizonClient) (j : Nat) : Nat := ahead b.providers.length b.currentProviderIndex j

/-- No pending provider has been passed over, and there are rounds enough left. -/
def Ahead (b : HorizonClient) (done : List String) (remaining : Nat) (c : HorizonClient) : Prop :=
  ∀ j, Pending b done j → distance b c.currentProviderIndex ≤ distance b j ∧
    b.providers.length ≤ remaining + 1 + distance b c.currentProviderIndex

/-- The same after the round: the current provider is not pending any more. -/
def Beyond (b : HorizonClient) (done : List String) (remaining : Nat) (c : HorizonClient) : Prop :=
  ∀ j, Pending b done j → distance b c.currentProviderIndex < distance b j ∧
    b.providers.length ≤ remaining + 1 + distance b c.currentProviderIndex

variable {remaining : Nat}

theorem Pending.lt (h : Pending b done j) : j < b.providers.length := by
  obtain ⟨st, hst, _⟩ := h
  exact (List.getElem?_eq_some_iff.mp hst).1

theorem Pending.weaken (h : Pending b (url :: done) j) : Pending b done j := by
  obtain ⟨st, hst, hserves, hurl⟩ := h
  exact ⟨st, hst, hserves, fun hdone => hurl (List.mem_cons_of_mem _ hdone)⟩

theorem Tracks.current_lt (h : Tracks b done c) (hj : j < b.providers.length) :
    c.currentProviderIndex < b.providers.length := by
  have hlength := h.length
  have hcurrent := h.current
  omega

theorem Tracks.beyond {now : Instant} {shouldSwitch : Bool} (hb : Valid b) (h : Tracks b done c)
    (hahead : Ahead b done remaining c) (hget : c.getCurrentProvider = .ok p)
    (hfail : c.recordProviderFailure p now = (shouldSwitch, c₁)) :
    Beyond b (p.url :: done) remaining c₁ := by
  obtain ⟨-, rfl⟩ := Prod.mk.inj hfail
  intro j hj
  obtain ⟨hle, hrounds⟩ := hahead j hj.weaken
  refine ⟨Nat.lt_of_le_of_ne hle ?_, hrounds⟩
  intro heq
  have hlt := hj.lt
  have hplace := add_ahead (hb.current (by omega)) (h.current_lt hlt) hlt hle
  rw [show ahead _ _ j - ahead _ _ c.currentProviderIndex = 0 from Nat.sub_eq_zero_of_le heq.ge,
    Nat.add_zero, Nat.mod_eq_of_lt (h.current_lt hlt)] at hplace
  obtain ⟨st, hst, hserves, hurl⟩ := hj
  have hcurrent : c.providers[c.currentProviderIndex]? = some st := by
    rw [hplace]
    exact h.get hst fun hdone => hurl (List.mem_cons_of_mem _ hdone)
  rw [(of_choose_ok hget).2 st hcurrent hserves] at hurl
  exact hurl List.mem_cons_self

theorem Tracks.ahead (hb : Valid b) (h : Tracks b done c) (hbeyond : Beyond b done (remaining + 1) c)
    (hswitch : c.switchProvider = (.ok q, c₂)) : Ahead b done remaining c₂ := by
  intro j hj
  obtain ⟨hlt, hrounds⟩ := hbeyond j hj
  obtain ⟨k, hnext, rfl⟩ := switchProvider_ok hswitch
  have hjlt := hj.lt
  have hcurrent := h.current_lt hjlt
  have hstart := hb.current (by omega)
  obtain ⟨st, hst, hserves, hurl⟩ := hj
  rw [chooseNext_eq, h.length] at hnext
  obtain ⟨d, -, hfound, hnearest⟩ := findSome?_circle (s := b.currentProviderIndex) hnext
  have hclose := hnearest hstart hcurrent j hjlt (serving_isSome (h.get hst hurl) hserves) hlt
  have hplace := (serving_eq_some hfound).1
  have hdistance : distance b k = distance b c.currentProviderIndex + d + 1 := by
    have hbound := ahead_lt hstart hjlt
    have hadd := ahead_add (d := d + 1) hstart hcurrent (by omega)
    dsimp only at hplace
    rw [distance, hplace, Nat.add_assoc, hadd]
    rfl
  simp only [distance] at hrounds hdistance hclose ⊢
  omega

/-! ## Requests -/

/-- An operation whose outcome is a matter of the provider. -/
def answering (outcome : HorizonProvider → Except String α) (times : Nat → Instant) :
    Nat → HorizonProvider → Response α :=
  fun k p => ⟨outcome p, times k⟩

variable {outcome : HorizonProvider → Except String α} {times : Nat → Instant}
  {attempted : List HorizonProvider}

/-- Every address that could serve at the start is done, or was attempted in vain. -/
def Covered (b : HorizonClient) (outcome : HorizonProvider → Except String α) (done : List String)
    (attempted : List HorizonProvider) : Prop :=
  ∀ st ∈ b.providers, st.canExecuteRequest = true → st.provider.url ∈ done ∨
    ∃ p ∈ attempted, p.url = st.provider.url ∧ ∃ text, outcome p = .error text

/-- The last attempt failed below the threshold. -/
def Halted (b : HorizonClient) (outcome : HorizonProvider → Except String α)
    (attempted : List HorizonProvider) : Prop :=
  ∃ p, attempted.getLast? = some p ∧ (∃ text, outcome p = .error text) ∧ ¬ Opens b p.url

theorem Covered.cons {text : String} (h : Covered b outcome (p.url :: done) attempted)
    (hfails : outcome p = .error text) : Covered b outcome done (p :: attempted) := by
  intro st hst hserves
  rcases h st hst hserves with hdone | ⟨q, hq, hurl, hq'⟩
  · rcases List.mem_cons.mp hdone with hurl | hdone
    · exact Or.inr ⟨p, List.mem_cons_self, hurl.symm, text, hfails⟩
    · exact Or.inl hdone
  · exact Or.inr ⟨q, List.mem_cons_of_mem _ hq, hurl, hq'⟩

theorem Halted.cons (h : Halted b outcome attempted) : Halted b outcome (p :: attempted) := by
  obtain ⟨q, hlast, hq⟩ := h
  refine ⟨q, ?_, hq⟩
  rw [List.getLast?_cons, hlast]
  rfl

theorem covered_of_no_pending (h : ∀ j, ¬ Pending b done j) : Covered b outcome done attempted := by
  intro st hst hserves
  obtain ⟨j, hj⟩ := List.getElem?_of_mem hst
  by_contra hopen
  exact h j ⟨st, hj, hserves, fun hdone => hopen (Or.inl hdone)⟩

/-- When nobody can serve any more, nobody is pending. -/
theorem Tracks.covered (h : Tracks b done c) (hnone : ∀ st ∈ c.providers,
    st.canExecuteRequest = false) : Covered b outcome done attempted := by
  refine covered_of_no_pending ?_
  intro j hj
  obtain ⟨st, hst, hserves, hurl⟩ := hj
  rw [hnone st (List.mem_of_getElem? (h.get hst hurl))] at hserves
  cases hserves

theorem Tracks.switch_failed {e : NetworkError} (h : Tracks b done c)
    (hswitch : c.switchProvider = (.error e, c₂)) : Covered b outcome done attempted := by
  refine h.covered ?_
  intro st hst
  have hcurrent := h.current (List.length_pos_of_mem hst)
  exact of_chooseNext_none hcurrent (switchProvider_error hswitch) st hst

/-- A request that fails has been around, or was halted. -/
theorem executeFrom_error (hb : Valid b) (remaining : Nat) (c : HorizonClient) :
    ∀ done, Tracks b done c → Ahead b done remaining c →
      ∀ why, (executeFrom (answering outcome times) remaining c).result = .error why →
        Covered b outcome done (executeFrom (answering outcome times) remaining c).attempted ∨
          Halted b outcome (executeFrom (answering outcome times) remaining c).attempted := by
  fun_induction executeFrom (answering outcome times) remaining c with
  | case1 c e hget =>
    intro done h _ why _
    exact Or.inl (h.covered (of_choose_error hget))
  | case2 c e hget =>
    intro done h _ why _
    exact Or.inl (h.covered (of_choose_error hget))
  | case3 c e hget rest q c₂ hswitch ih =>
    intro done h _ why _
    -- Somebody to switch to would have been found before.
    obtain ⟨k, hnext, -⟩ := switchProvider_ok hswitch
    rw [chooseNext_eq] at hnext
    obtain ⟨_, -, hfound⟩ := List.exists_of_findSome?_eq_some hnext
    obtain ⟨-, st, hst, hserves⟩ := serving_eq_some hfound
    rw [of_choose_error hget st (List.mem_of_getElem? hst)] at hserves
    cases hserves
  | case4 =>
    intro done _ _ why herror
    cases herror
  | case5 c p hget text c₁ rest why c₂ hswitch response hresponse hfail =>
    intro done h _ why _
    have hcovered : Covered b outcome (p.url :: done) [] := (h.fail hfail).switch_failed hswitch
    exact Or.inl (hcovered.cons hresponse)
  | case6 c p hget text c₁ rest q c₂ hswitch later response hresponse hfail ih =>
    intro done h hahead why herror
    have htracks := h.fail hfail
    have hbeyond := h.beyond hb hahead hget hfail
    have hlater := ih _ (htracks.switch hswitch) (htracks.ahead hb hbeyond hswitch) why herror
    rcases hlater with hcovered | hhalted
    · exact Or.inl (hcovered.cons hresponse)
    · exact Or.inr hhalted.cons
  | case7 remaining c p hget response text hresponse shouldSwitch c₁ hfail hlast =>
    intro done h hahead why _
    cases shouldSwitch with
    | false =>
      obtain ⟨⟨st, hst, -, rfl⟩, -⟩ := of_choose_ok hget
      exact Or.inr ⟨st.provider, rfl, ⟨text, hresponse⟩, h.not_opens hst hfail⟩
    | true =>
      -- It was the last round, and the circle has been closed.
      left
      have hcovered : Covered b outcome (p.url :: done) [] := by
        refine covered_of_no_pending ?_
        intro j hj
        obtain ⟨hlt, hrounds⟩ := h.beyond hb hahead hget hfail j hj
        cases remaining with
        | zero =>
          have hbound : distance b j < b.providers.length :=
            ahead_lt (hb.current (Nat.zero_lt_of_lt hj.lt)) hj.lt
          omega
        | succ rest => exact hlast rest rfl rfl
      exact hcovered.cons hresponse

/-- The operation is attempted on providers that could serve at the start. -/
theorem attempted_serves (remaining : Nat) (c : HorizonClient) : ∀ done, Tracks b done c →
    ∀ p ∈ (executeFrom (answering outcome times) remaining c).attempted,
      ∃ st ∈ b.providers, st.canExecuteRequest = true ∧ st.provider = p := by
  have hchosen : ∀ {c done p}, Tracks b done c → c.getCurrentProvider = .ok p →
      ∃ st ∈ b.providers, st.canExecuteRequest = true ∧ st.provider = p := by
    intro c done p h hget
    obtain ⟨⟨st, hst, hserves, hprovider⟩, -⟩ := of_choose_ok hget
    exact ⟨st, h.serves hst hserves, hserves, hprovider⟩
  fun_induction executeFrom (answering outcome times) remaining c with
  | case1 => simp
  | case2 => simp
  | case3 c e hget rest q c₂ hswitch ih =>
    intro done h
    exact ih done (h.switch hswitch)
  | case4 remaining c p hget =>
    intro done h
    simpa using hchosen h hget
  | case5 c p hget =>
    intro done h
    simpa using hchosen h hget
  | case6 c p hget text c₁ rest q c₂ hswitch later response hresponse hfail ih =>
    intro done h p' hp'
    rcases List.mem_cons.mp hp' with rfl | hp'
    · exact hchosen h hget
    · exact ih _ ((h.fail hfail).switch hswitch) p' hp'
  | case7 remaining c p hget =>
    intro done h
    simpa using hchosen h hget

/-- **Fallback.** A request fails only after the operation failed at the address
of every provider that could serve at the start, or after a failure that did not
open the circuit of its provider. If some provider that can serve would succeed
and every one that would fail has its circuit opened by one more failure, the
request succeeds. -/
theorem fallback_exhaustive (c : HorizonClient) (hc : Valid c)
    (outcome : HorizonProvider → Except String α) (times : Nat → Instant) :
    let run := c.executeRequest (answering outcome times)
    (∀ why, run.result = .error why →
      (∀ st ∈ c.providers, st.canExecuteRequest = true →
        ∃ p ∈ run.attempted, p.url = st.provider.url ∧ ∃ text, outcome p = .error text) ∨
      ∃ p, run.attempted.getLast? = some p ∧ (∃ text, outcome p = .error text) ∧ ¬ Opens c p.url) ∧
    ((∃ st ∈ c.providers, st.canExecuteRequest = true ∧
        ∀ st' ∈ c.providers, st'.provider.url = st.provider.url →
          ∃ value, outcome st'.provider = .ok value) →
      (∀ st ∈ c.providers, st.canExecuteRequest = true →
        (∃ value, outcome st.provider = .ok value) ∨ Opens c st.provider.url) →
      ∃ value, run.result = .ok value) := by
  intro run
  have htracks := Tracks.begin hc
  have hahead : Ahead c [] (c.config.providers.length - 1) c := by
    intro j hj
    have hsized := hc.sized
    have hpos := hj.lt
    rw [distance, ahead_self]
    omega
  have hfails : ∀ why, run.result = .error why →
      Covered c outcome [] run.attempted ∨ Halted c outcome run.attempted :=
    fun why herror => executeFrom_error hc _ c [] htracks hahead why herror
  refine ⟨?_, ?_⟩
  · intro why herror
    refine (hfails why herror).imp ?_ id
    intro hcovered st hst hserves
    exact (hcovered st hst hserves).resolve_left List.not_mem_nil
  · intro hgood hopens
    obtain ⟨st, hst, hserves, hall⟩ := hgood
    cases hresult : run.result with
    | ok value => exact ⟨value, rfl⟩
    | error why =>
      rcases hfails why hresult with hcovered | ⟨p, hlast, ⟨text, hfailed⟩, hclosed⟩
      · obtain ⟨p, hp, hurl, text, hfailed⟩ :=
          (hcovered st hst hserves).resolve_left List.not_mem_nil
        obtain ⟨st', hst', -, rfl⟩ := attempted_serves _ c [] htracks p hp
        obtain ⟨value, hvalue⟩ := hall st' hst' hurl
        cases hfailed.symm.trans hvalue
      · obtain ⟨st', hst', hserves', rfl⟩ :=
          attempted_serves _ c [] htracks p (List.mem_of_getLast? hlast)
        rcases hopens st' hst' hserves' with ⟨value, hvalue⟩ | hopen
        · cases hfailed.symm.trans hvalue
        · exact False.elim (hclosed hopen)

/-- A failure that leaves the circuit closed ends the request. -/
theorem executeFrom_halted {text : String} (hget : c.getCurrentProvider = .ok p)
    (hresult : outcome p = .error text)
    (hfail : c.recordProviderFailure p (times remaining) = (false, c₁)) :
    executeFrom (answering outcome times) remaining c =
      ⟨[p], .error (.horizonClient s!"All Horizon providers failed: {text}"), c₁⟩ := by
  rw [executeFrom, hget]
  simp only [answering, hresult, hfail]

def blockdaemon : HorizonProvider := ⟨"https://horizon-blockdaemon.stellar.ovh", "Blockdaemon", 2⟩

def pair (threshold : UInt8) : HorizonConfig := ⟨[horizon, blockdaemon], threshold, 300⟩

/-- The first provider is down. -/
def outage (p : HorizonProvider) : Except String Nat :=
  if p = horizon then .error "timeout" else .ok 7

theorem pair_providers (threshold : UInt8) : (HorizonClient.new (pair threshold)).providers =
    [ProviderStatus.new horizon, ProviderStatus.new blockdaemon] := rfl

/-- With a threshold of one, the second provider answers. -/
theorem fallback_exhaustive_pair : ∃ value,
    ((HorizonClient.new (pair 1)).executeRequest (answering outage fun _ => 0)).result =
      .ok value := by
  refine (fallback_exhaustive _ (valid_of_run .nil) outage fun _ => 0).2 ?_ ?_
  · refine ⟨ProviderStatus.new blockdaemon, by simp [pair_providers], rfl, ?_⟩
    intro st hst hurl
    rw [pair_providers, List.mem_pair] at hst
    rcases hst with rfl | rfl
    · exact absurd hurl (by decide)
    · exact ⟨7, rfl⟩
  · intro st hst _
    rw [pair_providers, List.mem_pair] at hst
    rcases hst with rfl | rfl
    · right
      intro st hfind
      cases hfind
      exact Or.inr (by decide)
    · exact Or.inl ⟨7, rfl⟩

/-- With the default threshold of three, the first failure ends the request. The
second provider could serve and would have answered. -/
theorem first_failure_ends_request :
    let c := HorizonClient.new (pair 3)
    let run := c.executeRequest (answering outage fun _ => 0)
    (∃ st ∈ c.providers, st.provider = blockdaemon ∧ st.canExecuteRequest = true) ∧
      outage blockdaemon = .ok 7 ∧ run.attempted = [horizon] ∧
      run.result = .error (.horizonClient "All Horizon providers failed: timeout") := by
  intro c run
  have hget : c.getCurrentProvider = .ok horizon := rfl
  have hresult : outage horizon = .error "timeout" := rfl
  have hfail : c.recordProviderFailure horizon 0 = (false, (c.recordProviderFailure horizon 0).2) :=
    rfl
  have hrun : run = ⟨[horizon], _, _⟩ := executeFrom_halted hget hresult hfail
  exact ⟨⟨ProviderStatus.new blockdaemon, by simp [c, pair_providers], rfl, rfl⟩, rfl,
    congrArg Execution.attempted hrun, congrArg Execution.result hrun⟩

end Axionvera.Node.Fallback

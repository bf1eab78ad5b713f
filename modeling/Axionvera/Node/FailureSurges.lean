import Axionvera.Node.FailureCounts

/-! # Requests that wrap a failure count

The two ways to a count beyond 255. Requests that are under way together select a
provider just before its circuit opens, and all of them fail. Or two statuses have
one address: the failures of the second are recorded on the first, so the second
serves for ever, and requests that come one after the other are enough. -/
namespace Axionvera.Node.FailureSurges
open Axionvera.Lib.Guards Axionvera.Lib.Interleaving Axionvera.Lib.Transition
open Axionvera.Node.Horizon Axionvera.Node.HorizonLocks Axionvera.Node.FailureCounts
open Axionvera.Node.CircuitBreaker (update_get single)
open Axionvera.Node.Fallback (position_spec position_isSome position_congr map_provider_update
  length_update of_choose_ok of_choose_error)

variable {config : HorizonConfig} {c c' : HorizonClient} {s s' t : Locked} {m i : Nat} {x y : Point}
  {moves : List Move}

/-! ## A request that moves alone -/

def Reaches (m : Nat) (s s' : Locked) : Prop := ∃ moves, Run (Within m) s moves s'

theorem Reaches.refl (s : Locked) : Reaches m s s := ⟨[], .nil⟩

theorem Reaches.trans (h : Reaches m s s') (h' : Reaches m s' t) : Reaches m s t := by
  obtain ⟨moves, hrun⟩ := h
  obtain ⟨moves', hrun'⟩ := h'
  exact ⟨_, hrun.trans hrun'⟩

/-- No request holds a guard. -/
def Idle (s : Locked) : Prop := ∀ x ∈ s.tasks, locking.holds x = []

theorem Idle.put (h : Idle s) (hy : locking.holds y = []) : Idle (s.put i (y, c)) := by
  intro x hx
  rcases mem_or_eq_of_mem_put hx with hx | rfl
  · exact h x hx
  · exact hy

/-- Whatever the request at this place does alone, no more than `m` are under way. -/
def Room (m : Nat) (s : Locked) (i : Nat) : Prop := ∀ p, (s.put i p).count inFlight ≤ m

theorem Room.put (h : Room m s i) (p : Point × HorizonClient) : Room m (s.put i p) i := by
  intro q
  rw [put_put]
  exact h q

theorem Room.of_lt (hx : s.tasks[i]? = some x) (hlt : s.count inFlight < m) : Room m s i := by
  intro p
  have hcount := count_put (f := inFlight) (x := p) hx
  have hle := Bool.toNat_le (inFlight p.1)
  omega

theorem Room.of_inFlight (hx : s.tasks[i]? = some x) (hflight : inFlight x = true)
    (hle : s.count inFlight ≤ m) : Room m s i := by
  intro p
  have hcount := count_put (f := inFlight) (x := p) hx
  have hone := Bool.toNat_le (inFlight p.1)
  rw [hflight, Bool.toNat_true] at hcount
  omega

/-- What a request does when it is the only one, it does among idle ones as well. -/
theorem Reaches.of_alone (hx : s.tasks[i]? = some x) (hidle : Idle s) (hroom : Room m s i)
    (hrun : Run Step ⟨s.shared, [x]⟩ moves t) :
    ∃ y c, t = ⟨c, [y]⟩ ∧ Reaches m s (s.put i (y, c)) := by
  induction hrun with
  | nil => exact ⟨x, s.shared, rfl, by rw [put_self hx]; exact .refl s⟩
  | snoc _ hstep ih =>
    rename_i move _
    obtain ⟨y, c, rfl, hreaches⟩ := ih
    obtain ⟨z, hz, hgranted, rfl⟩ := hstep.cases
    -- the only place there is
    have hplace : move.place = 0 := by
      have hlt := (List.getElem?_eq_some_iff.mp hz).1
      rw [List.length_singleton] at hlt
      omega
    rw [hplace] at hz ⊢
    cases hz
    have hget : (s.put i (y, c)).tasks[i]? = some y := get_put_self hx
    have hgranted' : Granted locking (s.put i (y, c)).tasks y := by
      intro g hg u hu k hk
      rcases mem_or_eq_of_mem_put hu with hu | rfl
      · rw [hidle u hu] at hk
        cases hk
      · exact hgranted g hg _ (List.mem_singleton.mpr rfl) k hk
    have hnext := step_of_granted (r := move.around) hget hgranted'
    rw [put_put] at hnext
    refine ⟨_, _, rfl, hreaches.trans ⟨_, .snoc .nil ⟨hnext, hroom _⟩⟩⟩

/-- A selection. -/
theorem reaches_selected {attempts : Nat} {provider : HorizonProvider}
    (hx : s.tasks[i]? = some (.getting (.round attempts))) (hidle : Idle s) (hroom : Room m s i)
    (hget : s.shared.getCurrentProvider = .ok provider) :
    Reaches m s (s.put i (.operating attempts provider, s.shared)) := by
  obtain ⟨moves, hrun⟩ := get_alone (.round attempts) s.shared
  obtain ⟨y, c, heq, hreaches⟩ := Reaches.of_alone hx hidle hroom hrun
  rw [hget] at heq
  cases heq
  exact hreaches

/-- An operation that fails, up to the record. -/
theorem reaches_writing {attempts : Nat} {provider : HorizonProvider}
    (hx : s.tasks[i]? = some (.operating attempts provider)) (hidle : Idle s) (hroom : Room m s i) :
    Reaches m s (s.put i (.writingFailure attempts provider "", s.shared)) := by
  have hfailing := step_alone (x := .operating attempts provider) rfl
    { calm with outcome := .error "" } s.shared
  have hwriting := step_alone (x := .failing attempts provider "") rfl calm s.shared
  obtain ⟨y, c, heq, hreaches⟩ :=
    Reaches.of_alone hx hidle hroom (.snoc (.snoc .nil hfailing) hwriting)
  cases heq
  exact hreaches

/-- An operation that fails, and its record. -/
theorem reaches_failed {attempts : Nat} {provider : HorizonProvider}
    (hx : s.tasks[i]? = some (.operating attempts provider)) (hidle : Idle s) (hroom : Room m s i) :
    Reaches m s (s.put i (afterFailure s.shared.config.providers.length attempts ""
      (s.shared.recordProviderFailure provider 0).1,
      (s.shared.recordProviderFailure provider 0).2)) := by
  obtain ⟨moves, hrun⟩ := failure_alone attempts provider "" 0 s.shared
  obtain ⟨y, c, heq, hreaches⟩ := Reaches.of_alone hx hidle hroom hrun
  cases heq
  exact hreaches

theorem reaches_switched {k : Switcher} (hx : s.tasks[i]? = some (.switching k)) (hidle : Idle s)
    (hroom : Room m s i) : Reaches m s (s.put i (k.resume s.shared.switchProvider.1,
      s.shared.switchProvider.2)) := by
  obtain ⟨moves, hrun⟩ := switch_alone k s.shared
  obtain ⟨y, c, heq, hreaches⟩ := Reaches.of_alone hx hidle hroom hrun
  cases heq
  exact hreaches

/-! ## A surge on the first provider -/

variable {provider : HorizonProvider} {n : Nat} {st : ProviderStatus}

/-- The first provider is the current one, with `n` failures counted. -/
structure First (config : HorizonConfig) (provider : HorizonProvider) (n : Nat)
    (c : HorizonClient) (st : ProviderStatus) : Prop where
  same : c.config = config
  current : c.currentProviderIndex = 0
  first : c.providers[0]? = some st
  named : st.provider = provider
  counted : st.failureCount.toNat = n

theorem First.position (h : First config provider n c st) :
    position c.providers provider.url = some 0 := by
  obtain ⟨hlt, hst⟩ := List.getElem?_eq_some_iff.mp h.first
  refine List.findIdx?_eq_some_iff_getElem.mpr ⟨hlt, ?_, fun j hj => absurd hj (Nat.not_lt_zero j)⟩
  rw [hst, h.named]
  exact decide_eq_true rfl

theorem First.getCurrentProvider (h : First config provider n c st)
    (hserves : st.canExecuteRequest = true) : c.getCurrentProvider = .ok provider := by
  have hcurrent : (c.providers[c.currentProviderIndex]?).filter ProviderStatus.canExecuteRequest =
      some st := by
    rw [h.current, h.first]
    exact Option.filter_eq_some_iff.mpr ⟨rfl, hserves⟩
  rw [HorizonClient.getCurrentProvider, choose, hcurrent, ← h.named]

/-- After one more failure. -/
theorem First.fail (h : First config provider n c st) (hroom : n < 255) :
    First config provider (n + 1) (c.recordProviderFailure provider 0).2
      (st.recordFailure 0 config.circuitBreakerFailureThreshold) where
  same := h.same
  current := h.current
  first := by
    show (update c.providers provider.url _)[0]? = _
    rw [update_get, h.first, Option.map_some, if_pos h.position, h.same]
  named := h.named
  counted := by
    rw [toNat_recordFailure 0 _ (by rw [h.counted]; exact hroom), h.counted]

/-- As long as the first provider serves, its failures end requests. -/
theorem First.not_switch (h : First config provider n c st) (hroom : n < 255)
    (hserves :
      (st.recordFailure 0 config.circuitBreakerFailureThreshold).canExecuteRequest = true) :
    (c.recordProviderFailure provider 0).1 = false := by
  have hfailed := h.fail hroom
  obtain ⟨st', hst', _, hfind⟩ := position_spec hfailed.position
  cases hfailed.first.symm.trans hst'
  show Option.any _ (List.find? _ (c.recordProviderFailure provider 0).2.providers) = false
  rw [hfind]
  refine decide_eq_false ?_
  intro hopened
  rw [ProviderStatus.canExecuteRequest, hopened] at hserves
  cases hserves

/-- A request that is about to begin. -/
def fresh : Point → Bool
  | .getting (.round attempts) => decide (attempts = 1)
  | _ => false

/-- A request whose first operation runs on the provider. -/
def sentTo (provider : HorizonProvider) : Point → Bool
  | .operating attempts chosen => decide (attempts = 1 ∧ chosen = provider)
  | _ => false

theorem eq_of_fresh (h : fresh x = true) : x = .getting (.round 1) := by
  cases x with
  | getting k =>
    cases k with
    | caller => cases h
    | round attempts => rw [of_decide_eq_true h]
  | _ => cases h

theorem eq_of_sentTo (h : sentTo provider x = true) : x = .operating 1 provider := by
  cases x with
  | operating attempts chosen =>
    obtain ⟨rfl, rfl⟩ := of_decide_eq_true h
    rfl
  | _ => cases h

theorem fresh_afterFailure (length attempts : Nat) (text : String) (shouldSwitch : Bool) :
    fresh (afterFailure length attempts text shouldSwitch) = false := by
  unfold afterFailure
  split
  · rfl
  · rfl

theorem sentTo_afterFailure (length attempts : Nat) (text : String) (shouldSwitch : Bool) :
    sentTo provider (afterFailure length attempts text shouldSwitch) = false := by
  unfold afterFailure
  split
  · rfl
  · rfl

/-- How far a surge is: how many requests have not begun, how many are on the first
provider, and at most how many are under way. -/
structure Stage (config : HorizonConfig) (provider : HorizonProvider) (waiting sent flying n : Nat)
    (s : Locked) (st : ProviderStatus) : Prop where
  idle : Idle s
  waiting : s.count fresh = waiting
  sent : s.count (sentTo provider) = sent
  flying : s.count inFlight ≤ flying
  first : First config provider n s.shared st

variable {waiting sent flying : Nat}

theorem Stage.put {waiting' sent' flying' n' : Nat} {st' : ProviderStatus}
    (h : Stage config provider waiting sent flying n s st) (hx : s.tasks[i]? = some x)
    (hfirst : First config provider n' c st') (hy : locking.holds y = [])
    (hwaiting : waiting' + (fresh x).toNat = waiting + (fresh y).toNat)
    (hsent : sent' + (sentTo provider x).toNat = sent + (sentTo provider y).toNat)
    (hflying : flying + (inFlight y).toNat ≤ flying' + (inFlight x).toNat) :
    Stage config provider waiting' sent' flying' n' (s.put i (y, c)) st' where
  idle := h.idle.put hy
  waiting := by
    have hcount := count_put (f := fresh) (x := (y, c)) hx
    rw [h.waiting] at hcount
    exact Nat.add_right_cancel (hcount.trans hwaiting.symm)
  sent := by
    have hcount := count_put (f := sentTo provider) (x := (y, c)) hx
    rw [h.sent] at hcount
    exact Nat.add_right_cancel (hcount.trans hsent.symm)
  flying := by
    have hcount := count_put (f := inFlight) (x := (y, c)) hx
    have hle := h.flying
    dsimp only at hcount
    omega
  first := hfirst

theorem Stage.exists_sent (h : Stage config provider waiting (sent + 1) flying n s st) :
    ∃ i : Nat, s.tasks[i]? = some (.operating 1 provider) := by
  have hpos : 0 < s.count (sentTo provider) := by
    rw [h.sent]
    omega
  obtain ⟨i, x, hx, hsent⟩ := exists_of_count_pos hpos
  cases eq_of_sentTo hsent
  exact ⟨i, hx⟩

theorem sentTo_self (provider : HorizonProvider) : sentTo provider (.operating 1 provider) = true :=
  decide_eq_true ⟨rfl, rfl⟩

/-- One more request selects the first provider. -/
theorem Stage.select (h : Stage config provider (waiting + 1) sent flying n s st)
    (hserves : st.canExecuteRequest = true) (hroom : flying < m) :
    ∃ s', Reaches m s s' ∧ Stage config provider waiting (sent + 1) (flying + 1) n s' st := by
  have hpos : 0 < s.count fresh := by
    rw [h.waiting]
    omega
  obtain ⟨i, x, hx, hfresh⟩ := exists_of_count_pos hpos
  cases eq_of_fresh hfresh
  have hreaches := reaches_selected hx h.idle (.of_lt hx (h.flying.trans_lt hroom))
    (h.first.getCurrentProvider hserves)
  refine ⟨_, hreaches, h.put hx h.first rfl rfl ?_ (Nat.le_refl _)⟩
  rw [sentTo_self]
  rfl

/-- One more request records its failure. -/
theorem Stage.fail (h : Stage config provider waiting (sent + 1) flying n s st) (hle : flying ≤ m)
    (hroom : n < 255) : ∃ s', Reaches m s s' ∧
      Stage config provider waiting sent flying (n + 1) s'
        (st.recordFailure 0 config.circuitBreakerFailureThreshold) := by
  obtain ⟨i, hx⟩ := h.exists_sent
  have hreaches := reaches_failed hx h.idle (.of_inFlight hx rfl (h.flying.trans hle))
  refine ⟨_, hreaches, h.put hx (h.first.fail hroom) (holds_afterFailure _ _ _ _) ?_ ?_ ?_⟩
  · rw [fresh_afterFailure]
    rfl
  · rw [sentTo_afterFailure, sentTo_self]
    rfl
  · exact Nat.add_le_add_left (Bool.toNat_le _) _

/-- A request fails and ends while the first provider still serves. -/
theorem Stage.fail_serving (h : Stage config provider waiting (sent + 1) (flying + 1) n s st)
    (hle : flying < m) (hroom : n < 255)
    (hserves :
      (st.recordFailure 0 config.circuitBreakerFailureThreshold).canExecuteRequest = true) :
    ∃ s', Reaches m s s' ∧ Stage config provider waiting sent flying (n + 1) s'
      (st.recordFailure 0 config.circuitBreakerFailureThreshold) := by
  obtain ⟨i, hx⟩ := h.exists_sent
  have hreaches := reaches_failed hx h.idle (.of_inFlight hx rfl (h.flying.trans hle))
  rw [h.first.not_switch hroom hserves] at hreaches
  refine ⟨_, hreaches, h.put hx (h.first.fail hroom) rfl rfl ?_ (Nat.le_refl _)⟩
  rw [sentTo_self]
  rfl

/-- Below the threshold a failure leaves the circuit as it is. -/
theorem serves_recordFailure (threshold : UInt8) (hserves : st.canExecuteRequest = true)
    (hbelow : st.failureCount.toNat + 1 < threshold.toNat) :
    (st.recordFailure 0 threshold).canExecuteRequest = true := by
  have hroom : st.failureCount.toNat < 255 := by
    have := threshold.toNat_lt
    omega
  have hnot : ¬ threshold ≤ st.failureCount + 1 := by
    intro hreached
    have hle : threshold.toNat ≤ (st.recordFailure 0 threshold).failureCount.toNat :=
      UInt8.le_iff_toNat_le.mp hreached
    rw [toNat_recordFailure 0 _ hroom] at hle
    omega
  have hstate : (st.recordFailure 0 threshold).circuitState = st.circuitState := if_neg hnot
  unfold ProviderStatus.canExecuteRequest
  rw [hstate]
  exact hserves

/-- Requests one after the other, up to just below the threshold. -/
theorem Stage.approach (hm : 0 < m) (k : Nat)
    (hbelow : k < max config.circuitBreakerFailureThreshold.toNat 1)
    (h : Stage config provider (waiting + k) 0 0 0 s st) (hserves : st.canExecuteRequest = true) :
    ∃ s' st', Reaches m s s' ∧ Stage config provider waiting 0 0 k s' st' ∧
      st'.canExecuteRequest = true := by
  induction k generalizing waiting with
  | zero => exact ⟨s, st, .refl s, h, hserves⟩
  | succ k ih =>
    have hstart : Stage config provider (waiting + 1 + k) 0 0 0 s st := by
      rw [Nat.add_assoc, Nat.add_comm 1 k]
      exact h
    obtain ⟨s₁, st₁, hreach₁, hstage₁, hserves₁⟩ := ih (by omega) hstart
    obtain ⟨s₂, hreach₂, hstage₂⟩ := hstage₁.select hserves₁ hm
    have hcounted := hstage₁.first.counted
    have hthreshold := config.circuitBreakerFailureThreshold.toNat_lt
    have hserves₂ := serves_recordFailure config.circuitBreakerFailureThreshold hserves₁
      (by omega)
    obtain ⟨s₃, hreach₃, hstage₃⟩ := hstage₂.fail_serving hm (by omega) hserves₂
    exact ⟨s₃, _, (hreach₁.trans hreach₂).trans hreach₃, hstage₃, hserves₂⟩

/-- Requests that select the first provider together. -/
theorem Stage.gather (k : Nat) (hm : k ≤ m) (h : Stage config provider (waiting + k) 0 0 n s st)
    (hserves : st.canExecuteRequest = true) :
    ∃ s', Reaches m s s' ∧ Stage config provider waiting k k n s' st := by
  induction k generalizing waiting with
  | zero => exact ⟨s, .refl s, h⟩
  | succ k ih =>
    have hstart : Stage config provider (waiting + 1 + k) 0 0 n s st := by
      rw [Nat.add_assoc, Nat.add_comm 1 k]
      exact h
    obtain ⟨s₁, hreach₁, hstage₁⟩ := ih (by omega) hstart
    obtain ⟨s₂, hreach₂, hstage₂⟩ := hstage₁.select hserves hm
    exact ⟨s₂, hreach₁.trans hreach₂, hstage₂⟩

/-- Their failures, one after the other. -/
theorem Stage.discharge (k : Nat) (hm : flying ≤ m) (hroom : n + k ≤ 255)
    (h : Stage config provider waiting (sent + k) flying n s st) :
    ∃ s' st', Reaches m s s' ∧ Stage config provider waiting sent flying (n + k) s' st' := by
  induction k generalizing sent with
  | zero => exact ⟨s, st, .refl s, h⟩
  | succ k ih =>
    have hstart : Stage config provider waiting (sent + 1 + k) flying n s st := by
      rw [Nat.add_assoc, Nat.add_comm 1 k]
      exact h
    obtain ⟨s₁, st₁, hreach₁, hstage₁⟩ := ih (by omega) hstart
    obtain ⟨s₂, hreach₂, hstage₂⟩ := hstage₁.fail hm (by omega)
    exact ⟨s₂, _, hreach₁.trans hreach₂, hstage₂⟩

/-- One more failure than fits. -/
theorem Stage.wrap (hm : flying ≤ m) (h : Stage config provider waiting 1 flying 255 s st) :
    ∃ s', Reaches m s s' ∧ AboutToWrap s' := by
  obtain ⟨i, hx⟩ := h.exists_sent
  refine ⟨_, reaches_writing hx h.idle (.of_inFlight hx rfl (h.flying.trans hm)), ?_⟩
  obtain ⟨st', hst', _, hfind⟩ := position_spec h.first.position
  cases h.first.first.symm.trans hst'
  exact ⟨1, provider, "", List.mem_of_getElem? (get_put_self hx), st, hfind,
    UInt8.toNat_inj.mp h.first.counted⟩

theorem count_requests (config : HorizonConfig) (calls : Nat) (f : Point → Bool) :
    (requests config calls).count f = if f (.getting (.round 1)) then calls else 0 := by
  simp only [requests, begun, System.count, List.map_replicate, entry, List.countP_replicate]

theorem idle_requests (config : HorizonConfig) (calls : Nat) : Idle (requests config calls) := by
  intro x hx
  rw [mem_requests hx]
  rfl

/-- **A surge.** Requests one after the other bring the count to just below the
threshold, and those that are then under way together add one each. -/
theorem surge_wraps (hsome : config.providers ≠ []) (hm : 0 < m)
    (hmany : 256 < max config.circuitBreakerFailureThreshold.toNat 1 + m) :
    ∃ s, Reaches m (requests config 256) s ∧ AboutToWrap s := by
  have hlimit := config.circuitBreakerFailureThreshold.toNat_lt
  obtain ⟨st, hst⟩ : ∃ st, (HorizonClient.new config).providers[0]? = some st := by
    refine ⟨_, List.getElem?_eq_getElem ?_⟩
    rw [(new_providers_perm config).length_eq, List.length_map]
    exact List.length_pos_of_ne_nil hsome
  obtain ⟨provider, rfl⟩ := mem_new_providers (List.mem_of_getElem? hst)
  obtain ⟨below, hbelow⟩ : ∃ below, max config.circuitBreakerFailureThreshold.toNat 1 = below + 1 :=
    ⟨max config.circuitBreakerFailureThreshold.toNat 1 - 1, by omega⟩
  obtain ⟨together, htogether⟩ : ∃ together, together + 1 + below = 256 := ⟨255 - below, by omega⟩
  have hbegin : Stage config provider (together + 1 + below) 0 0 0 (requests config 256)
      (.new provider) :=
    { idle := idle_requests config 256
      waiting := by rw [count_requests, htogether]; rfl
      sent := by rw [count_requests]; rfl
      flying := by rw [count_requests]; exact Nat.le_refl 0
      first := ⟨rfl, rfl, hst, rfl, rfl⟩ }
  obtain ⟨s₁, st₁, hreach₁, hstage₁, hserves₁⟩ := hbegin.approach hm below (by omega) rfl
  rw [← Nat.zero_add (together + 1)] at hstage₁
  obtain ⟨s₂, hreach₂, hstage₂⟩ := hstage₁.gather (m := m) (together + 1) (by omega) hserves₁
  rw [Nat.add_comm together 1] at hstage₂
  obtain ⟨s₃, st₃, hreach₃, hstage₃⟩ := hstage₂.discharge together (m := m) (by omega) (by omega)
  have hfull : below + together = 255 := by omega
  rw [hfull] at hstage₃
  obtain ⟨s₄, hreach₄, hwrap⟩ := hstage₃.wrap (m := m) (by omega)
  exact ⟨s₄, ((hreach₁.trans hreach₂).trans hreach₃).trans hreach₄, hwrap⟩

/-! ## Two statuses with one address -/

/-- All failures that are counted. -/
def tally : List ProviderStatus → Nat
  | [] => 0
  | st :: providers => st.failureCount.toNat + tally providers

theorem tally_le (providers : List ProviderStatus) : tally providers ≤ providers.length * 255 := by
  induction providers with
  | nil => exact Nat.le_refl 0
  | cons st providers ih =>
    have hcount := st.failureCount.toNat_lt
    rw [tally, List.length_cons]
    omega

theorem tally_modify {f : ProviderStatus → ProviderStatus} {providers : List ProviderStatus}
    {j : Nat} (h : providers[j]? = some st) :
    tally (providers.modify j f) + st.failureCount.toNat =
      tally providers + (f st).failureCount.toNat := by
  induction providers generalizing j with
  | nil => cases h
  | cons first providers ih =>
    cases j with
    | zero =>
      cases h
      simp only [List.modify_zero_cons, tally]
      omega
    | succ j =>
      have hrest := ih h
      simp only [List.modify_succ_cons, tally]
      omega

/-- The status at this place serves and is not the one that its failures are recorded on. -/
def Spare (b : Nat) (c : HorizonClient) : Prop :=
  ∃ st, c.providers[b]? = some st ∧ st.canExecuteRequest = true ∧
    position c.providers st.provider.url ≠ some b

variable {b : Nat}

theorem Spare.congr (h : Spare b c)
    (hsame : c'.providers.map ProviderStatus.provider = c.providers.map ProviderStatus.provider)
    (hkept : ∀ st, c.providers[b]? = some st → position c.providers st.provider.url ≠ some b →
      c'.providers[b]? = some st) : Spare b c' := by
  obtain ⟨st, hst, hserves, hother⟩ := h
  refine ⟨st, hkept st hst hother, hserves, ?_⟩
  rw [position_congr hsame]
  exact hother

theorem Spare.fail (h : Spare b c) (provider : HorizonProvider) :
    Spare b (c.recordProviderFailure provider 0).2 := by
  refine h.congr (map_provider_update fun _ => rfl) ?_
  intro st hst hother
  show (update c.providers provider.url _)[b]? = some st
  have hnot : position c.providers provider.url ≠ some b := by
    intro hfound
    obtain ⟨st', hst', hurl, _⟩ := position_spec hfound
    cases hst.symm.trans hst'
    rw [hurl] at hother
    exact hother hfound
  rw [update_get, hst, Option.map_some, if_neg hnot]

theorem Spare.switch (h : Spare b c) : Spare b c.switchProvider.2 := by
  refine h.congr ?_ ?_
  · rw [switchProvider_providers]
  · intro st hst _
    rw [switchProvider_providers]
    exact hst

/-- A request finds a provider, and its outcome is recorded on a status. -/
theorem Spare.selects (h : Spare b c) : ∃ provider j st, c.getCurrentProvider = .ok provider ∧
    position c.providers provider.url = some j ∧ c.providers[j]? = some st ∧
    (c.providers.find? fun st => st.provider.url = provider.url) = some st := by
  obtain ⟨spare, hspare, hserves, _⟩ := h
  cases hchosen : c.getCurrentProvider with
  | error e =>
    have hnone := of_choose_error hchosen spare (List.mem_of_getElem? hspare)
    rw [hserves] at hnone
    cases hnone
  | ok provider =>
    obtain ⟨⟨st, hst, _, rfl⟩, _⟩ := of_choose_ok hchosen
    obtain ⟨j, hj⟩ := position_isSome hst
    obtain ⟨st', hst', _, hfind⟩ := position_spec hj
    exact ⟨_, j, st', rfl, hj, hst', hfind⟩

theorem tally_fail {j : Nat} (hj : position c.providers provider.url = some j)
    (hst : c.providers[j]? = some st) (hroom : st.failureCount.toNat < 255) :
    tally (c.recordProviderFailure provider 0).2.providers = tally c.providers + 1 := by
  have hupdate : (c.recordProviderFailure provider 0).2.providers = c.providers.modify j
      (·.recordFailure 0 c.config.circuitBreakerFailureThreshold) := by
    show update c.providers provider.url _ = _
    rw [update, hj]
  have htally := tally_modify (f := (·.recordFailure 0 c.config.circuitBreakerFailureThreshold)) hst
  rw [toNat_recordFailure 0 _ hroom] at htally
  rw [hupdate]
  omega

/-- Failures have been added to the client, and the spare status is still there. -/
structure Grows (b : Nat) (c c' : HorizonClient) : Prop where
  spare : Spare b c'
  more : tally c.providers < tally c'.providers
  length : c'.providers.length = c.providers.length
  same : c'.config = c.config

theorem Grows.switch (h : Grows b c c') : Grows b c c'.switchProvider.2 where
  spare := h.spare.switch
  more := by
    rw [switchProvider_providers]
    exact h.more
  length := by
    rw [switchProvider_providers]
    exact h.length
  same := (switchProvider_config c').trans h.same

theorem Grows.trans {c'' : HorizonClient} (h : Grows b c c') (h' : Grows b c' c'') :
    Grows b c c'' where
  spare := h'.spare
  more := h.more.trans h'.more
  length := h'.length.trans h.length
  same := h'.same.trans h.same

/-- One round, whose operation fails: a count wraps, or one more failure is counted. -/
theorem round_wraps_or_fails {attempts : Nat}
    (hx : s.tasks[i]? = some (.getting (.round attempts))) (hidle : Idle s) (hroom : Room m s i)
    (hspare : Spare b s.shared) :
    (∃ s', Reaches m s s' ∧ AboutToWrap s') ∨
      ∃ shouldSwitch c', Reaches m s (s.put i
        (afterFailure s.shared.config.providers.length attempts "" shouldSwitch, c')) ∧
        Grows b s.shared c' := by
  obtain ⟨provider, j, st, hget, hj, hst, hfind⟩ := hspare.selects
  have hselected := reaches_selected hx hidle hroom hget
  have hx' : (s.put i (.operating attempts provider, s.shared)).tasks[i]? =
      some (.operating attempts provider) := get_put_self hx
  have hidle' : Idle (s.put i (.operating attempts provider, s.shared)) := hidle.put rfl
  by_cases hfull : st.failureCount = UInt8.ofNat 255
  · have hwriting := reaches_writing hx' hidle' (hroom.put _)
    exact .inl ⟨_, hselected.trans hwriting, attempts, provider, "",
      List.mem_of_getElem? (get_put_self hx'), st, hfind, hfull⟩
  · have hfailed := reaches_failed hx' hidle' (hroom.put _)
    rw [put_put] at hfailed
    have hbelow : st.failureCount.toNat < 255 := by
      have hlt := st.failureCount.toNat_lt
      have hne : st.failureCount.toNat ≠ 255 := fun heq => hfull (UInt8.toNat_inj.mp heq)
      omega
    have hgrows : Grows b s.shared (s.shared.recordProviderFailure provider 0).2 :=
      { spare := hspare.fail provider
        more := by rw [tally_fail hj hst hbelow]; exact Nat.lt_succ_self _
        length := length_update _
        same := rfl }
    exact .inr ⟨_, _, hselected.trans hfailed, hgrows⟩

/-- The rounds of a request all of whose operations fail. -/
theorem rounds_wrap_or_end (remaining attempts : Nat)
    (hx : s.tasks[i]? = some (.getting (.round attempts))) (hidle : Idle s) (hroom : Room m s i)
    (hspare : Spare b s.shared) (hlast : s.shared.config.providers.length - attempts = remaining) :
    (∃ s', Reaches m s s' ∧ AboutToWrap s') ∨
      ∃ answer c', Reaches m s (s.put i (.ended answer, c')) ∧ Grows b s.shared c' := by
  induction remaining generalizing s attempts with
  | zero =>
    rcases round_wraps_or_fails hx hidle hroom hspare with
      hwrap | ⟨shouldSwitch, c₁, hfailed, hgrows⟩
    · exact .inl hwrap
    · rw [afterFailure, if_neg (by omega)] at hfailed
      exact .inr ⟨_, c₁, hfailed, hgrows⟩
  | succ remaining ih =>
    rcases round_wraps_or_fails hx hidle hroom hspare with
      hwrap | ⟨shouldSwitch, c₁, hfailed, hgrows⟩
    · exact .inl hwrap
    cases shouldSwitch with
    | false => exact .inr ⟨_, c₁, hfailed, hgrows⟩
    | true =>
      rw [afterFailure, if_pos ⟨rfl, by omega⟩] at hfailed
      have hswitched := reaches_switched (get_put_self hx) (hidle.put rfl)
        (hroom.put (.switching (.failed attempts), c₁))
      rw [put_put, put_shared] at hswitched
      have hreaches := hfailed.trans hswitched
      cases hnext : c₁.switchProvider.1 with
      | error e =>
        cases e
        rw [hnext] at hreaches
        exact .inr ⟨_, _, hreaches, hgrows.switch⟩
      | ok next =>
        rw [hnext] at hreaches
        have hlast' : c₁.switchProvider.2.config.providers.length - (attempts + 1) = remaining := by
          rw [hgrows.switch.same]
          omega
        rcases ih (attempts + 1) (get_put_self hx) (hidle.put rfl) (hroom.put _)
          hgrows.switch.spare hlast' with ⟨s', hlater, hwrap⟩ | ⟨answer, c', hlater, hgrows'⟩
        · exact .inl ⟨s', hreaches.trans hlater, hwrap⟩
        · rw [put_put] at hlater
          exact .inr ⟨answer, c', hreaches.trans hlater, hgrows.switch.trans hgrows'⟩

/-- Requests one after the other, all of whose operations fail. -/
theorem calls_wrap_or_grow (hm : 0 < m) (k : Nat) {waiting : Nat} (hidle : Idle s)
    (hwaiting : s.count fresh = waiting + k) (hflying : s.count inFlight = 0)
    (hspare : Spare b s.shared) :
    (∃ s', Reaches m s s' ∧ AboutToWrap s') ∨
      ∃ c' : HorizonClient, tally s.shared.providers + k ≤ tally c'.providers ∧
        c'.providers.length = s.shared.providers.length := by
  induction k generalizing s waiting with
  | zero => exact .inr ⟨s.shared, Nat.le_refl _, rfl⟩
  | succ k ih =>
    have hpos : 0 < s.count fresh := by omega
    obtain ⟨i, x, hx, hfresh⟩ := exists_of_count_pos hpos
    cases eq_of_fresh hfresh
    have hroom : Room m s i := .of_lt hx (by omega)
    rcases rounds_wrap_or_end _ 1 hx hidle hroom hspare rfl with
      hwrap | ⟨answer, c₁, hreaches, hgrows⟩
    · exact .inl hwrap
    have hwaiting' := count_put (f := fresh) (x := (.ended answer, c₁)) hx
    have hflying' := count_put (f := inFlight) (x := (.ended answer, c₁)) hx
    have hone : fresh (.getting (.round 1)) = true := rfl
    have hnone : fresh (.ended answer) = false := rfl
    have hstays : inFlight (.ended answer) = false := rfl
    rw [hone, hnone, Bool.toNat_true, Bool.toNat_false] at hwaiting'
    rw [hstays, Bool.toNat_false] at hflying'
    have hfewer : (s.put i (.ended answer, c₁)).count fresh = waiting + k := by omega
    have hlanded : (s.put i (.ended answer, c₁)).count inFlight = 0 := by omega
    rcases ih (hidle.put rfl) hfewer hlanded hgrows.spare with
      ⟨s', hlater, hwrap⟩ | ⟨c', hmore, hlength⟩
    · exact .inl ⟨s', hreaches.trans hlater, hwrap⟩
    · have hmore₁ := hgrows.more
      rw [put_shared] at hmore hlength
      exact .inr ⟨c', by dsimp only at hmore; omega, hlength.trans hgrows.length⟩

/-- If every new status were where its address is found, no address would occur twice. -/
theorem exists_spare (hurls : ¬ (config.providers.map HorizonProvider.url).Nodup) :
    ∃ b, Spare b (HorizonClient.new config) := by
  by_contra hnone
  have hfound (b : Nat) (st : ProviderStatus)
      (hst : (HorizonClient.new config).providers[b]? = some st) :
      position (HorizonClient.new config).providers st.provider.url = some b := by
    by_contra hother
    obtain ⟨provider, rfl⟩ := mem_new_providers (List.mem_of_getElem? hst)
    exact hnone ⟨b, _, hst, rfl, hother⟩
  have hnodup : ((HorizonClient.new config).providers.map (·.provider.url)).Nodup := by
    refine List.nodup_iff_getElem?_ne_getElem?.mpr ?_
    intro j k hjk hk heq
    rw [List.length_map] at hk
    obtain ⟨st, hst⟩ : ∃ st, (HorizonClient.new config).providers[j]? = some st :=
      ⟨_, List.getElem?_eq_getElem (hjk.trans hk)⟩
    obtain ⟨st', hst'⟩ : ∃ st, (HorizonClient.new config).providers[k]? = some st :=
      ⟨_, List.getElem?_eq_getElem hk⟩
    rw [List.getElem?_map, List.getElem?_map, hst, hst'] at heq
    have hurl : st.provider.url = st'.provider.url := Option.some.inj heq
    have hplace := hfound j st hst
    rw [hurl, hfound k st' hst'] at hplace
    exact absurd (Option.some.inj hplace) (Nat.ne_of_gt hjk)
  exact hurls (new_urls_nodup_iff.mp hnodup)

/-- **A shared address.** One request after the other is enough. -/
theorem shared_url_wraps (hm : 0 < m) (hurls : ¬ (config.providers.map HorizonProvider.url).Nodup) :
    ∃ calls s, Reaches m (requests config calls) s ∧ AboutToWrap s := by
  obtain ⟨b, hspare⟩ := exists_spare hurls
  have hwaiting : (requests config ((HorizonClient.new config).providers.length * 255 + 1)).count
      fresh = 0 + ((HorizonClient.new config).providers.length * 255 + 1) := by
    rw [count_requests, Nat.zero_add]
    rfl
  have hflying : (requests config ((HorizonClient.new config).providers.length * 255 + 1)).count
      inFlight = 0 := by
    rw [count_requests]
    rfl
  rcases calls_wrap_or_grow hm _ (idle_requests config _) hwaiting hflying hspare with
    hwrap | ⟨c', hmore, hlength⟩
  · exact ⟨_, hwrap⟩
  · have hle := tally_le c'.providers
    rw [hlength] at hle
    have hsame : (requests config ((HorizonClient.new config).providers.length * 255 + 1)).shared =
      HorizonClient.new config := rfl
    rw [hsame] at hle hmore
    omega

/-- **When no count wraps.** However many requests come, no failure count goes beyond
255 if and only if there are no providers, or no two of them have one address and the
threshold (at least one) and the requests under way at a time add up to 256 at most. -/
theorem counts_never_wrap_iff (config : HorizonConfig) (m : Nat) :
    (∀ calls moves s, Run (Within m) (requests config calls) moves s → ¬ AboutToWrap s) ↔
      config.providers = [] ∨ m = 0 ∨ ((config.providers.map HorizonProvider.url).Nodup ∧
        max config.circuitBreakerFailureThreshold.toNat 1 + m ≤ 256) := by
  constructor
  · intro hnever
    by_contra hnot
    obtain ⟨hsome, hm, hfits⟩ : config.providers ≠ [] ∧ 0 < m ∧
        ¬ ((config.providers.map HorizonProvider.url).Nodup ∧
          max config.circuitBreakerFailureThreshold.toNat 1 + m ≤ 256) := by
      refine ⟨fun h => hnot (.inl h), ?_, fun h => hnot (.inr (.inr h))⟩
      exact Nat.pos_of_ne_zero fun h => hnot (.inr (.inl h))
    by_cases hurls : (config.providers.map HorizonProvider.url).Nodup
    · obtain ⟨s, ⟨moves, hrun⟩, hwrap⟩ := surge_wraps hsome hm
        (Nat.lt_of_not_le fun hle => hfits ⟨hurls, hle⟩)
      exact hnever _ moves s hrun hwrap
    · obtain ⟨calls, s, ⟨moves, hrun⟩, hwrap⟩ := shared_url_wraps hm hurls
      exact hnever calls moves s hrun hwrap
  · rintro (hnone | rfl | ⟨hurls, hfits⟩) calls moves s hrun
    · exact not_aboutToWrap_of_none hnone hrun
    · exact not_aboutToWrap_of_idle hrun
    · exact not_aboutToWrap_of_fits hurls hfits hrun

/-- 256 requests on one provider: the last failure sets the count of an open circuit
back to zero. -/
theorem single_provider_wraps : ∃ moves s i s' st,
    Run Step (begun (.new single) (List.replicate 256 .executeRequest)) moves s ∧
      AboutToWrap s ∧ Step s ⟨i, calm⟩ s' ∧ st ∈ s'.shared.providers ∧
      st.failureCount = UInt8.ofNat 0 ∧ st.lastFailureTime = some calm.now := by
  have hsome : single.providers ≠ [] := List.cons_ne_nil _ _
  have hmany : 256 < max single.circuitBreakerFailureThreshold.toNat 1 + 254 := by decide
  obtain ⟨s, ⟨moves, hrun⟩, hwrap⟩ := surge_wraps hsome (by decide) hmany
  obtain ⟨i, s', st, hstep, hst, hzero, hfailed⟩ := hwrap.wraps calm
  exact ⟨moves, s, i, s', st, hrun.mono fun _ _ _ hwithin => hwithin.1, hwrap, hstep, hst, hzero,
    hfailed⟩

end Axionvera.Node.FailureSurges

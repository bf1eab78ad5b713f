import Axionvera.Node.Governance
import Axionvera.Node.Registry

/-! # What the calls of the governance service do

A tick decides each proposal by itself: by its votes and by whether the registry,
as the tick finds it, would accept the upgrade. The order of the proposals shows
in the registry only, where the accepted upgrades are scheduled one after another. -/
namespace Axionvera.Node.Service
open Axionvera.Lib.OwnKey Axionvera.Lib.Fallible
open Axionvera.Node.ChainParams Axionvera.Node.Governance Axionvera.Node.Registry
open GovernanceService

variable {g : GovernanceService} {r : ChainParameterRegistry} {config : GovernanceConfig}
variable {height : UInt64} {p : Proposal} {id : String} {uuid : String → Nat}

@[simp] theorem store_get (g : GovernanceService) (p : Proposal) (k : String) :
    (g.store p).proposals.get k = if p.id = k then some p else g.proposals.get k :=
  g.proposals.get_insert p k

theorem id_of_get (h : g.proposals.get id = some p) : p.id = id :=
  (KeyedMap.get_eq_some_iff.mp h).2

/-! ## Proposals and votes -/

/-- A proposal as it is made. -/
def proposed (g : GovernanceService) (id proposer : String) (patch : NetworkParametersPatch)
    (activationHeight currentHeight : UInt64) : Proposal where
  id := id
  proposer := proposer
  patch := patch
  activationHeight := activationHeight
  status := .voting
  votes := .empty
  endHeight := currentHeight + g.votingDuration

theorem propose_eq_ok {proposer : String} {patch : NetworkParametersPatch}
    {activationHeight currentHeight : UInt64} {out : String × GovernanceService} :
    g.propose id proposer patch activationHeight currentHeight r = .ok out ↔
      r.checkRole proposer .operator = .ok () ∧
        out = (id, g.store (proposed g id proposer patch activationHeight currentHeight)) := by
  simp only [propose, bind_eq_ok, mapError_eq_ok, pure_eq_ok]
  exact ⟨fun h => ⟨h.choose_spec.1, h.choose_spec.2⟩, fun h => ⟨(), h.1, h.2⟩⟩

/-- A proposal with one more vote. -/
def withVote (p : Proposal) (voter : String) (approve : Bool) : Proposal :=
  { p with votes := p.votes.insert ⟨voter, approve, 1⟩ }

theorem castVote_eq_ok {voter : String} {approve : Bool} {g' : GovernanceService} :
    g.castVote id voter approve r = .ok g' ↔
      r.checkRole voter .operator = .ok () ∧
        ∃ p, g.proposals.get id = some p ∧ p.status = .voting ∧
          g' = g.store (withVote p voter approve) := by
  simp only [castVote, bind_eq_ok, mapError_eq_ok]
  refine ⟨?_, ?_⟩
  · intro h
    obtain ⟨_, hrole, h⟩ := h
    refine ⟨hrole, ?_⟩
    split at h
    · exact absurd h throw_ne_ok
    · rename_i p hp
      simp only [bind_eq_ok, failIf_eq_ok, pure_eq_ok, ne_eq, not_not] at h
      obtain ⟨_, hstatus, hg⟩ := h
      exact ⟨p, hp, hstatus, hg⟩
  · intro h
    obtain ⟨hrole, p, hp, hstatus, hg⟩ := h
    refine ⟨(), hrole, ?_⟩
    simp only [hp, bind_eq_ok, failIf_eq_ok, pure_eq_ok, ne_eq, not_not]
    exact ⟨(), hstatus, hg⟩

/-! ## One proposal -/

/-- The voting period is over and the votes have not been counted. -/
def Due (height : UInt64) (p : Proposal) : Prop := p.status = .voting ∧ p.endHeight ≤ height

instance : Decidable (Due height p) := inferInstanceAs (Decidable (_ ∧ _))

/-- The votes carry the proposal. -/
def Mandated : GovernanceConfig → Proposal → Prop
  | .dao members minApprovals, p => minApprovals ≤ yesVotes members p
  | .adminKeys _, _ => True

instance : Decidable (Mandated config p) :=
  match config with
  | .dao _ _ => inferInstanceAs (Decidable (_ ≤ _))
  | .adminKeys _ => inferInstanceAs (Decidable True)

/-- The vote is the approval of a member. -/
def approves (members : List String) (v : Vote) : Bool :=
  v.approve && members.any fun m => normalizeId m = normalizeId v.voter

theorem mandated_dao {members : List String} {minApprovals : UInt32} :
    Mandated (.dao members minApprovals) p ↔
      minApprovals ≤ UInt32.ofNat (p.votes.values.countP (approves members)) :=
  Iff.rfl

def voters (p : Proposal) : List String := p.votes.values.map Vote.voter

/-- The registry accepts the proposal's upgrade. -/
def Executable (r : ChainParameterRegistry) (p : Proposal) : Prop :=
  Accepts r p.patch p.activationHeight p.proposer (voters p)

instance : Decidable (Executable r p) := inferInstanceAs (Decidable (Accepts ..))

/-- What the first loop makes of a proposal. -/
def counted (config : GovernanceConfig) (height : UInt64) (p : Proposal) : Proposal :=
  if Due height p then { p with status := if Mandated config p then .passed else .rejected } else p

/-- What the second loop makes of a proposal that passed. -/
def enacted (r : ChainParameterRegistry) (p : Proposal) : Proposal :=
  if Executable r p then { p with status := .executed } else p

/-- What a tick executes. -/
structure Ripe (r : ChainParameterRegistry) (height : UInt64) (p : Proposal) : Prop where
  due : Due height p
  mandated : Mandated r.governance p
  executable : Executable r p

theorem ripe_iff :
    Ripe r height p ↔ Due height p ∧ Mandated r.governance p ∧ Executable r p :=
  ⟨fun h => ⟨h.due, h.mandated, h.executable⟩, fun h => ⟨h.1, h.2.1, h.2.2⟩⟩

instance : Decidable (Ripe r height p) :=
  decidable_of_iff _ ripe_iff.symm

/-- The status after a tick. -/
def verdict (r : ChainParameterRegistry) (height : UInt64) (p : Proposal) : ProposalStatus :=
  if Due height p then
    if Mandated r.governance p then if Executable r p then .executed else .passed else .rejected
  else p.status

def settled (r : ChainParameterRegistry) (height : UInt64) (p : Proposal) : Proposal :=
  { p with status := verdict r height p }

theorem verdict_eq_executed (h : p.status = .voting) :
    verdict r height p = .executed ↔ Ripe r height p := by
  unfold verdict
  rw [ripe_iff]
  by_cases hdue : Due height p
  · by_cases hm : Mandated r.governance p
    · by_cases he : Executable r p <;> simp [hdue, hm, he]
    · simp [hdue, hm]
  · simp [hdue, h]

theorem executable_counted : Executable r (counted config height p) ↔ Executable r p := by
  unfold counted
  split <;> rfl

/-! ## The first loop -/

/-- Whether the first loop puts an id on its list. -/
def passes (config : GovernanceConfig) (height : UInt64) (g : GovernanceService) (id : String) :
    Bool :=
  (g.proposals.get id).any fun p => decide (Due height p ∧ Mandated config p)

theorem tally_of_not_due {acc : GovernanceService × List String}
    (h : ∀ p, acc.1.proposals.get id = some p → ¬ Due height p) :
    tally config height acc id = acc := by
  unfold tally
  split
  · rfl
  · rename_i p hp
    exact if_neg (h p hp)

theorem tally_of_due {acc : GovernanceService × List String}
    (hp : acc.1.proposals.get id = some p) (h : Due height p) :
    tally config height acc id =
      (acc.1.store (counted config height p),
        acc.2 ++ if Mandated config p then [id] else []) := by
  have hid := id_of_get hp
  have hopen : p.status = .voting ∧ p.endHeight ≤ height := h
  unfold tally counted
  rw [hp, if_pos h]
  simp only [hopen, and_self, if_true, hid]
  cases config with
  | dao members minApprovals =>
    by_cases hm : minApprovals ≤ yesVotes members p
    · have hm' : Mandated (.dao members minApprovals) p := hm
      simp only [hm, hm', if_true]
    · have hm' : ¬ Mandated (.dao members minApprovals) p := hm
      simp only [hm, hm', if_false, List.append_nil]
  | adminKeys keys =>
    have hm' : Mandated (.adminKeys keys) p := trivial
    simp only [hm', if_true]

theorem counted_id : (counted config height p).id = p.id := by
  unfold counted
  split <;> rfl

theorem tally_mapsAt (acc : GovernanceService × List String) (id : String) :
    KeyedMap.MapsAt (counted config height) id acc.1.proposals
      (tally config height acc id).1.proposals := by
  by_cases h : ∃ p, acc.1.proposals.get id = some p ∧ Due height p
  · obtain ⟨p, hp, hdue⟩ := h
    rw [tally_of_due hp hdue]
    exact KeyedMap.mapsAt_insert hp counted_id
  · have hnot : ∀ p, acc.1.proposals.get id = some p → ¬ Due height p :=
      fun p hp hdue => h ⟨p, hp, hdue⟩
    rw [tally_of_not_due hnot]
    exact KeyedMap.mapsAt_self fun p hp => if_neg (hnot p hp)

theorem tally_list (acc : GovernanceService × List String) (id : String) :
    (tally config height acc id).2 =
      acc.2 ++ if passes config height acc.1 id then [id] else [] := by
  unfold passes
  cases hp : acc.1.proposals.get id with
  | none => rw [tally_of_not_due (by simp [hp])]; simp
  | some p =>
    by_cases hdue : Due height p
    · rw [tally_of_due hp hdue]
      simp [hdue]
    · rw [tally_of_not_due (by simpa [hp] using hdue)]
      simp [hdue]

theorem tally_foldl_get {order : List String} (hnd : order.Nodup)
    (acc : GovernanceService × List String) (k : String) :
    (order.foldl (tally config height) acc).1.proposals.get k =
      if k ∈ order then (acc.1.proposals.get k).map (counted config height)
      else acc.1.proposals.get k :=
  KeyedMap.get_foldl (fun acc => acc.1.proposals) (I := fun _ => True)
    (fun _ _ h => h) (fun acc id _ => tally_mapsAt acc id) hnd acc trivial k

theorem passes_congr {g' : GovernanceService}
    (h : g'.proposals.get id = g.proposals.get id) :
    passes config height g' id = passes config height g id := by
  unfold passes
  rw [h]

theorem tally_foldl_list {order : List String} (hnd : order.Nodup)
    (acc : GovernanceService × List String) :
    (order.foldl (tally config height) acc).2 =
      acc.2 ++ order.filter (passes config height acc.1) := by
  induction order generalizing acc with
  | nil => simp
  | cons id order ih =>
    obtain ⟨hid, hnd⟩ := List.nodup_cons.mp hnd
    -- the later ids still find what they found before
    have hrest : order.filter (passes config height (tally config height acc id).1) =
        order.filter (passes config height acc.1) := by
      refine List.filter_congr fun k hk => passes_congr ?_
      have hne : k ≠ id := fun h => hid (h ▸ hk)
      rw [tally_mapsAt acc id k, if_neg hne]
    rw [List.foldl_cons, ih hnd, hrest, tally_list, List.filter_cons, List.append_assoc]
    split <;> rfl

/-! ## The second loop -/

/-- One accepted submission. -/
def scheduled (uuid : String → Nat) (r : ChainParameterRegistry) (p : Proposal) :
    ChainParameterRegistry :=
  r.schedule (uuid p.id) p.patch p.activationHeight

/-- Submissions change what is scheduled and nothing else of the registry. -/
theorem foldl_scheduled_eq (uuid : String → Nat) (ps : List Proposal) (r : ChainParameterRegistry) :
    ∃ activations history, ps.foldl (scheduled uuid) r =
      { r with activations := activations, upgradeHistory := history } := by
  induction ps generalizing r with
  | nil => exact ⟨r.activations, r.upgradeHistory, rfl⟩
  | cons p ps ih => exact ih (scheduled uuid r p)

theorem executable_scheduled {q : Proposal} :
    Executable (scheduled uuid r q) p ↔ Executable r p :=
  accepts_schedule

theorem enacted_id : (enacted r p).id = p.id := by
  unfold enacted
  split <;> rfl

theorem execute_of_executable {acc : GovernanceService × ChainParameterRegistry}
    (hp : acc.1.proposals.get id = some p) (h : Executable acc.2 p) :
    execute uuid acc id = (acc.1.store (enacted acc.2 p), scheduled uuid acc.2 p) := by
  obtain rfl := id_of_get hp
  have hsubmit := submitParameterUpgrade_of_accepts (uuid p.id) h
  unfold voters at hsubmit
  unfold execute enacted scheduled
  rw [hp, if_pos h]
  simp only [hsubmit]

theorem execute_of_not {acc : GovernanceService × ChainParameterRegistry}
    (h : ∀ p, acc.1.proposals.get id = some p → ¬ Executable acc.2 p) :
    execute uuid acc id = acc := by
  unfold execute
  split
  · rfl
  · rename_i p hp
    obtain ⟨hacc, -⟩ | ⟨-, e, he⟩ := submitParameterUpgrade_cases acc.2 (uuid id) p.patch
      p.activationHeight p.proposer (p.votes.values.map Vote.voter)
    · exact absurd hacc (h p hp)
    · simp only [he]

theorem execute_mapsAt (acc : GovernanceService × ChainParameterRegistry) (id : String) :
    KeyedMap.MapsAt (enacted acc.2) id acc.1.proposals (execute uuid acc id).1.proposals := by
  by_cases h : ∃ p, acc.1.proposals.get id = some p ∧ Executable acc.2 p
  · obtain ⟨p, hp, hexec⟩ := h
    rw [execute_of_executable hp hexec]
    exact KeyedMap.mapsAt_insert hp enacted_id
  · have hnot : ∀ p, acc.1.proposals.get id = some p → ¬ Executable acc.2 p :=
      fun p hp hexec => h ⟨p, hp, hexec⟩
    rw [execute_of_not hnot]
    exact KeyedMap.mapsAt_self fun p hp => if_neg (hnot p hp)

/-- The proposals of a list of ids whose upgrades the registry accepts. -/
def accepted (g : GovernanceService) (r : ChainParameterRegistry) (ids : List String) :
    List Proposal :=
  (ids.filterMap g.proposals.get).filter fun p => decide (Executable r p)

theorem accepted_cons (g : GovernanceService) (r : ChainParameterRegistry) (id : String)
    (ids : List String) :
    accepted g r (id :: ids) =
      ((g.proposals.get id).toList.filter fun p => decide (Executable r p)) ++ accepted g r ids := by
  unfold accepted
  cases hp : g.proposals.get id with
  | none => simp [hp]
  | some p => simp [hp, List.filter_cons]; split <;> rfl

theorem execute_registry (acc : GovernanceService × ChainParameterRegistry) (id : String) :
    (execute uuid acc id).2 = (accepted acc.1 acc.2 [id]).foldl (scheduled uuid) acc.2 := by
  rw [accepted_cons]
  cases hp : acc.1.proposals.get id with
  | none =>
    rw [execute_of_not (by simp [hp])]
    rfl
  | some p =>
    by_cases hexec : Executable acc.2 p
    · rw [execute_of_executable hp hexec]
      simp [hexec, accepted]
    · rw [execute_of_not (by simpa [hp] using hexec)]
      simp [hexec, accepted]

/-- No submission changes what the registry accepts. -/
theorem executable_foldl {ps : List Proposal} :
    Executable (ps.foldl (scheduled uuid) r) p ↔ Executable r p := by
  induction ps generalizing r with
  | nil => exact Iff.rfl
  | cons q ps ih => rw [List.foldl_cons, ih, executable_scheduled]

theorem executable_execute {acc : GovernanceService × ChainParameterRegistry} :
    Executable (execute uuid acc id).2 p ↔ Executable acc.2 p := by
  rw [execute_registry]
  exact executable_foldl

theorem execute_foldl_get {ids : List String} (hnd : ids.Nodup)
    (acc : GovernanceService × ChainParameterRegistry) (k : String) :
    (ids.foldl (execute uuid) acc).1.proposals.get k =
      if k ∈ ids then (acc.1.proposals.get k).map (enacted acc.2)
      else acc.1.proposals.get k := by
  -- No submission of the loop changes what the registry accepts.
  refine KeyedMap.get_foldl (fun acc => acc.1.proposals)
    (I := fun x => enacted x.2 = enacted acc.2) ?_ ?_ hnd acc rfl k
  · intro x id hx
    rw [← hx]
    funext p
    simp only [enacted, executable_execute]
  · intro x id hx
    rw [← hx]
    exact execute_mapsAt x id

/-- The later ids find what they would have found before. -/
theorem accepted_execute {acc : GovernanceService × ChainParameterRegistry} {ids : List String}
    (hid : id ∉ ids) :
    accepted (execute uuid acc id).1 (execute uuid acc id).2 ids = accepted acc.1 acc.2 ids := by
  have hget : ∀ k ∈ ids, (execute uuid acc id).1.proposals.get k = acc.1.proposals.get k := by
    intro k hk
    have hne : k ≠ id := fun h => hid (h ▸ hk)
    rw [execute_mapsAt acc id k, if_neg hne]
  unfold accepted
  simp only [executable_execute, List.filterMap_congr hget]

theorem execute_foldl_registry {ids : List String} (hnd : ids.Nodup)
    (acc : GovernanceService × ChainParameterRegistry) :
    (ids.foldl (execute uuid) acc).2 =
      (accepted acc.1 acc.2 ids).foldl (scheduled uuid) acc.2 := by
  induction ids generalizing acc with
  | nil => rfl
  | cons id ids ih =>
    obtain ⟨hid, hnd⟩ := List.nodup_cons.mp hnd
    have hsplit : accepted acc.1 acc.2 (id :: ids) =
        accepted acc.1 acc.2 [id] ++ accepted acc.1 acc.2 ids := by
      rw [accepted_cons, accepted_cons _ _ id []]
      simp [accepted]
    rw [List.foldl_cons, ih hnd, accepted_execute hid, execute_registry, hsplit,
      List.foldl_append]

/-! ## The whole tick -/

/-- What a tick executes, in the order in which it meets the proposals. -/
def ripe (g : GovernanceService) (r : ChainParameterRegistry) (height : UInt64)
    (order : List String) : List Proposal :=
  (order.filterMap g.proposals.get).filter fun p => decide (Ripe r height p)

variable {order : List String}

theorem settled_of_due (hdue : Due height p) :
    settled r height p =
      if Mandated r.governance p then enacted r (counted r.governance height p)
      else counted r.governance height p := by
  have hstatus : Executable r { p with status := .passed } ↔ Executable r p := Iff.rfl
  unfold settled verdict enacted counted
  rw [if_pos hdue, if_pos hdue]
  by_cases hm : Mandated r.governance p
  · by_cases he : Executable r p
    · simp only [hm, if_true, hstatus, he]
    · simp only [hm, if_true, hstatus, he, if_false]
  · simp only [hm, if_false]

theorem settled_of_not_due (hdue : ¬ Due height p) : settled r height p = p := by
  unfold settled verdict
  rw [if_neg hdue]

theorem tally_nodup (hnd : order.Nodup) :
    (order.foldl (tally config height) (g, [])).2.Nodup := by
  rw [tally_foldl_list hnd]
  exact hnd.filter _

theorem nodup_of_perm (horder : order.Perm g.proposals.keys) : order.Nodup :=
  horder.nodup_iff.mpr g.proposals.distinct

theorem mem_ripe (horder : order.Perm g.proposals.keys) :
    p ∈ ripe g r height order ↔ p ∈ g.proposals.values ∧ Ripe r height p := by
  unfold ripe
  rw [List.mem_filter, List.mem_filterMap, decide_eq_true_eq]
  refine and_congr_left fun _ => ⟨?_, ?_⟩
  · intro h
    obtain ⟨id, -, hp⟩ := h
    exact (KeyedMap.get_eq_some_iff.mp hp).1
  · intro h
    have hget : g.proposals.get p.id = some p := KeyedMap.get_eq_some_iff.mpr ⟨h, rfl⟩
    exact ⟨p.id, horder.mem_iff.mpr (KeyedMap.mem_keys_iff.mpr ⟨p, hget⟩), hget⟩

/-- Each proposal gets its verdict. -/
theorem tick_get (horder : order.Perm g.proposals.keys) (uuid : String → Nat) (height : UInt64)
    (r : ChainParameterRegistry) (k : String) :
    (g.tick order uuid height r).1.proposals.get k =
      (g.proposals.get k).map (settled r height) := by
  have hnd := nodup_of_perm horder
  unfold tick
  rw [execute_foldl_get (tally_nodup hnd), tally_foldl_get hnd, tally_foldl_list hnd]
  cases hp : g.proposals.get k with
  | none => simp
  | some p =>
    have hk : k ∈ order := horder.mem_iff.mpr (KeyedMap.mem_keys_iff.mpr ⟨p, hp⟩)
    have hpass : passes r.governance height g k = decide (Due height p ∧ Mandated r.governance p) := by
      simp [passes, hp]
    simp only [hk, if_true, List.nil_append, List.mem_filter, true_and, hpass, decide_eq_true_eq,
      Option.map_some]
    by_cases hdue : Due height p
    · rw [settled_of_due hdue]
      by_cases hm : Mandated r.governance p
      · simp [hdue, hm]
      · simp [hdue, hm]
    · simp [hdue, settled_of_not_due, counted]

/-- The second loop submits the ripe proposals. -/
theorem accepted_tally (hnd : order.Nodup) (g : GovernanceService) (height : UInt64)
    (r : ChainParameterRegistry) :
    accepted (order.foldl (tally r.governance height) (g, [])).1 r
        (order.foldl (tally r.governance height) (g, [])).2 =
      (ripe g r height order).map (counted r.governance height) := by
  rw [tally_foldl_list hnd]
  unfold accepted ripe
  rw [List.nil_append, List.filterMap_filter, List.filter_filterMap, List.filter_filterMap,
    List.map_filterMap]
  refine List.filterMap_congr fun k hk => ?_
  rw [tally_foldl_get hnd, if_pos hk]
  cases hp : g.proposals.get k with
  | none => simp [passes, hp]
  | some p =>
    by_cases hpass : Due height p ∧ Mandated r.governance p
    · have hripe : Ripe r height p ↔ Executable r p := by simp [ripe_iff, hpass]
      by_cases he : Executable r p
      · simp [passes, hp, hpass, hripe, he, executable_counted, Option.filter_some]
      · simp [passes, hp, hpass, hripe, he, executable_counted, Option.filter_some]
    · have hripe : ¬ Ripe r height p := fun h => hpass ⟨h.due, h.mandated⟩
      simp [passes, hp, hpass, hripe]

theorem tick_registry (horder : order.Perm g.proposals.keys) (uuid : String → Nat)
    (height : UInt64) (r : ChainParameterRegistry) :
    (g.tick order uuid height r).2 = (ripe g r height order).foldl (scheduled uuid) r := by
  have hnd := nodup_of_perm horder
  unfold tick
  rw [execute_foldl_registry (tally_nodup hnd), accepted_tally hnd, List.foldl_map]
  congr 1
  funext r p
  unfold scheduled counted
  split <;> rfl

/-- Right after a tick nothing is due. -/
theorem tick_of_not_due (h : ∀ k p, g.proposals.get k = some p → ¬ Due height p)
    (order : List String) (uuid : String → Nat) : g.tick order uuid height r = (g, r) := by
  have hfirst : order.foldl (tally r.governance height) (g, []) = (g, []) := by
    induction order with
    | nil => rfl
    | cons k order ih => rw [List.foldl_cons, tally_of_not_due (h k), ih]
  unfold tick
  rw [hfirst]
  rfl

end Axionvera.Node.Service

import Axionvera.Lib.Transition
import Axionvera.Node.SorobanRpc

/-! # The event indexer

`indexer.rs`: the loop polls for events from its cursor on, handles what comes
back and moves the cursor behind the latest ledger of the node that answered. A
node hands out the events that its filter selects between the first ledger asked
for and the latest that it knows, up to the size of its page. -/
namespace Axionvera.Node.Indexer
open Axionvera.Lib.Transition Axionvera.Node.SorobanRpc

structure SorobanEvent where
  ledger : UInt32
  contractId : String
  id : String
  xdr : String
  deriving DecidableEq

structure EventFilter where
  eventType : String
  contractIds : List String
  topics : List (List String)

structure GetEventsParams where
  startLedger : UInt32
  filters : List EventFilter

structure EventsResult where
  events : List SorobanEvent
  latestLedger : UInt32

/-! ## The network -/

/-- The events of the ledgers, each of them once, and which of them a filter
selects. -/
structure Chain where
  events : List SorobanEvent
  nodup : events.Nodup
  selects : EventFilter → SorobanEvent → Bool

/-- A node knows the ledgers up to its latest. -/
structure RpcNode where
  latestLedger : UInt32
  pageLimit : Nat

/-- The selected events of a range of ledgers. -/
def Chain.between (chain : Chain) (filters : List EventFilter) (start latest : UInt32) :
    List SorobanEvent :=
  chain.events.filter fun event => filters.any (chain.selects · event) &&
    decide (start ≤ event.ledger ∧ event.ledger ≤ latest)

def Chain.getEvents (chain : Chain) (params : GetEventsParams) (node : RpcNode) : EventsResult where
  events := (chain.between params.filters params.startLedger node.latestLedger).take node.pageLimit
  latestLedger := node.latestLedger

/-! ## The loop -/

structure EventIndexer where
  rpcUrls : List String
  contractId : String

/-- The variables of the loop: the cursor, and the events that it has handled. -/
structure State where
  currentLedger : UInt32
  handled : List SorobanEvent

namespace EventIndexer

def filter (indexer : EventIndexer) : EventFilter where
  eventType := "contract"
  contractIds := [indexer.contractId]
  topics := [["AxionveraVault"]]

def params (indexer : EventIndexer) (s : State) : GetEventsParams where
  startLedger := s.currentLedger
  filters := [indexer.filter]

/-- One round of the loop of `start`: what becomes of the request at each
endpoint, and the node that stands behind a response with a result. The cursor
wraps, as it does without overflow checks. -/
def poll (indexer : EventIndexer) (chain : Chain) (respond : Nat → Response RpcNode)
    (s : State) : State :=
  match call indexer.rpcUrls fun i => (respond i).map (chain.getEvents (indexer.params s)) with
  | .ok result =>
    { currentLedger := result.latestLedger + 1
      handled := s.handled ++ result.events }
  | .error _ => s

/-- The loop after some rounds, the latest of which comes first. -/
def start (indexer : EventIndexer) (chain : Chain) (polls : List (Nat → Response RpcNode)) : State :=
  polls.foldr (indexer.poll chain) { currentLedger := 0, handled := [] }

end EventIndexer

variable {indexer : EventIndexer} {chain : Chain} {s : State} {node : RpcNode}
  {respond : Nat → Response RpcNode} {event : SorobanEvent}

/-- An event that the indexer is to handle. -/
def Relevant (indexer : EventIndexer) (chain : Chain) (event : SorobanEvent) : Prop :=
  event ∈ chain.events ∧ chain.selects indexer.filter event = true

/-- Every event below the cursor has been handled once. -/
def ExactlyOnce (indexer : EventIndexer) (chain : Chain) (s : State) : Prop :=
  ∀ event, Relevant indexer chain event → event.ledger < s.currentLedger →
    s.handled.count event = 1

/-- What the node that is asked at this cursor would have to hand out. -/
def due (indexer : EventIndexer) (chain : Chain) (s : State) (node : RpcNode) : List SorobanEvent :=
  chain.between [indexer.filter] s.currentLedger node.latestLedger

theorem poll_of_ok (h : call indexer.rpcUrls respond = .ok node) :
    indexer.poll chain respond s =
      ⟨node.latestLedger + 1, s.handled ++ (due indexer chain s node).take node.pageLimit⟩ := by
  have hcall : call indexer.rpcUrls (fun i => (respond i).map (chain.getEvents (indexer.params s))) =
      .ok (chain.getEvents (indexer.params s) node) := by
    rw [call, callFrom_map, ← call, h]
    rfl
  simp only [EventIndexer.poll, hcall]
  rfl

theorem poll_of_error {e : NetworkError} (h : call indexer.rpcUrls respond = .error e) :
    indexer.poll chain respond s = s := by
  have hcall : call indexer.rpcUrls (fun i => (respond i).map (chain.getEvents (indexer.params s))) =
      .error e := by
    rw [call, callFrom_map, ← call, h]
    rfl
  simp only [EventIndexer.poll, hcall]

theorem mem_due : event ∈ due indexer chain s node ↔ Relevant indexer chain event ∧
    s.currentLedger ≤ event.ledger ∧ event.ledger ≤ node.latestLedger := by
  simp [due, Chain.between, Relevant, and_assoc]

theorem nodup_due (indexer : EventIndexer) (chain : Chain) (s : State) (node : RpcNode) :
    (due indexer chain s node).Nodup := chain.nodup.filter _

theorem count_due (hrelevant : Relevant indexer chain event) :
    (due indexer chain s node).count event =
      if s.currentLedger ≤ event.ledger ∧ event.ledger ≤ node.latestLedger then 1 else 0 := by
  rw [(nodup_due indexer chain s node).count]
  simp [mem_due, hrelevant]

/-! ## Polls that cover their range -/

/-- The node has a later ledger to come, its page holds everything due, and it
does not lag behind an event. -/
structure Covers (indexer : EventIndexer) (chain : Chain) (s : State) (node : RpcNode) : Prop where
  notLast : node.latestLedger.toNat + 1 < UInt32.size
  fits : (due indexer chain s node).length ≤ node.pageLimit
  notBehind : ∀ event, Relevant indexer chain event →
    ¬ (node.latestLedger < event.ledger ∧ event.ledger < s.currentLedger)

/-- Every event below the cursor has been handled once and no other has. -/
def Recorded (indexer : EventIndexer) (chain : Chain) (s : State) : Prop :=
  ∀ event, Relevant indexer chain event →
    s.handled.count event = if event.ledger < s.currentLedger then 1 else 0

theorem lt_succ_iff {latest ledger : UInt32} (h : latest.toNat + 1 < UInt32.size) :
    ledger < latest + 1 ↔ ledger ≤ latest := by
  have hsucc : (latest + 1).toNat = latest.toNat + 1 := by
    rw [UInt32.toNat_add]
    exact Nat.mod_eq_of_lt h
  rw [UInt32.lt_iff_toNat_lt, UInt32.le_iff_toNat_le, hsucc]
  exact Nat.lt_succ_iff

theorem recorded_poll_of_ok (hrecorded : Recorded indexer chain s)
    (hcovers : Covers indexer chain s node) (h : call indexer.rpcUrls respond = .ok node) :
    Recorded indexer chain (indexer.poll chain respond s) := by
  intro event hrelevant
  rw [poll_of_ok h]
  dsimp only
  rw [List.take_of_length_le hcovers.fits, List.count_append, hrecorded event hrelevant,
    count_due hrelevant]
  have hbehind := hcovers.notBehind event hrelevant
  simp only [lt_succ_iff hcovers.notLast]
  by_cases hbelow : event.ledger < s.currentLedger
  · have hknown : event.ledger ≤ node.latestLedger :=
      UInt32.not_lt.mp fun hlater => hbehind ⟨hlater, hbelow⟩
    simp [hbelow, hknown, UInt32.not_le.mpr hbelow]
  · simp [hbelow, UInt32.not_lt.mp hbelow]

theorem recorded_new (indexer : EventIndexer) (chain : Chain) :
    Recorded indexer chain { currentLedger := 0, handled := [] } := by
  intro event _
  simp

/-- A poll that fails leaves everything as it is. -/
theorem recorded_poll (hrecorded : Recorded indexer chain s)
    (hcovers : ∀ node, call indexer.rpcUrls respond = .ok node → Covers indexer chain s node) :
    Recorded indexer chain (indexer.poll chain respond s) := by
  cases hcall : call indexer.rpcUrls respond with
  | error e =>
    rw [poll_of_error hcall]
    exact hrecorded
  | ok node => exact recorded_poll_of_ok hrecorded (hcovers node hcall) hcall

/-- **Every event is handled exactly once** in a run in which each poll that is
answered is answered by a node that covers its range. -/
theorem events_exactly_once (indexer : EventIndexer) (chain : Chain)
    (polls : List (Nat → Response RpcNode))
    (hcovers : ∀ respond earlier, (respond :: earlier) <:+ polls →
      ∀ node, call indexer.rpcUrls respond = .ok node →
        Covers indexer chain (indexer.start chain earlier) node) :
    ExactlyOnce indexer chain (indexer.start chain polls) := by
  have hrecorded : Recorded indexer chain (indexer.start chain polls) :=
    foldr_invariant (recorded_new indexer chain)
      (fun _ _ hrecorded hcovers => recorded_poll hrecorded hcovers) hcovers
  intro event hrelevant hbelow
  rw [hrecorded event hrelevant, if_pos hbelow]

def deposit : SorobanEvent := ⟨5, "vault", "deposit", "AAAA"⟩

def withdrawal : SorobanEvent := ⟨5, "vault", "withdrawal", "BBBB"⟩

theorem nodup_deposit_withdrawal : [deposit, withdrawal].Nodup := by
  simp [deposit, withdrawal]

/-- A deposit and a withdrawal in one ledger. -/
def twoEvents : Chain where
  events := [deposit, withdrawal]
  nodup := nodup_deposit_withdrawal
  selects filter event := filter.contractIds.contains event.contractId

def twoEndpoints : EventIndexer := ⟨["primary", "secondary"], "vault"⟩

/-- The first endpoint is unavailable and the second answers as this node. -/
def failedOver (node : RpcNode) : Nat → Response RpcNode
  | 0 => .http ⟨503, "Service Unavailable"⟩ "" (.error "")
  | _ => .http ⟨200, "OK"⟩ "" (.ok ⟨some node, none⟩)

theorem call_failedOver (node : RpcNode) :
    call twoEndpoints.rpcUrls (failedOver node) = .ok node := rfl

theorem events_exactly_once_failedOver :
    Covers twoEndpoints twoEvents (twoEndpoints.start twoEvents []) ⟨5, 100⟩ ∧
      ExactlyOnce twoEndpoints twoEvents
        (twoEndpoints.start twoEvents [failedOver ⟨5, 100⟩]) := by
  have hcovers : Covers twoEndpoints twoEvents (twoEndpoints.start twoEvents []) ⟨5, 100⟩ := by
    refine ⟨by decide, by decide, ?_⟩
    intro event _ h
    exact absurd h.2 (UInt32.not_lt.mpr (UInt32.le_iff_toNat_le.mpr (Nat.zero_le _)))
  refine ⟨hcovers, events_exactly_once twoEndpoints twoEvents [failedOver ⟨5, 100⟩] ?_⟩
  intro respond earlier hsuffix node hcall
  rcases List.suffix_cons_iff.mp hsuffix with heq | hsuffix
  · obtain ⟨rfl, rfl⟩ := List.cons_eq_cons.mp heq
    cases (call_failedOver ⟨5, 100⟩).symm.trans hcall
    exact hcovers
  · cases List.eq_nil_of_suffix_nil hsuffix

/-- The node's page holds one event: the cursor passes the ledger of both, and
the second is never handled. -/
theorem cut_page_skips_withdrawal :
    (twoEndpoints.start twoEvents [failedOver ⟨5, 1⟩]).currentLedger = 6 ∧
      (twoEndpoints.start twoEvents [failedOver ⟨5, 1⟩]).handled = [deposit] ∧
      ¬ ExactlyOnce twoEndpoints twoEvents (twoEndpoints.start twoEvents [failedOver ⟨5, 1⟩]) := by
  refine ⟨rfl, rfl, ?_⟩
  intro h
  have hrelevant : Relevant twoEndpoints twoEvents withdrawal :=
    ⟨List.mem_cons_of_mem _ List.mem_cons_self, rfl⟩
  have honce := h withdrawal hrelevant (by decide)
  cases honce.symm.trans (rfl : [deposit].count withdrawal = 0)

/-! ## Polls that do not -/

/-- An event that did not fit into the page is behind the cursor and has not been
handled. -/
theorem skipped_of_cut_page (hrecorded : Recorded indexer chain s)
    (h : call indexer.rpcUrls respond = .ok node) (hlast : node.latestLedger.toNat + 1 < UInt32.size)
    (hcut : node.pageLimit < (due indexer chain s node).length) :
    ∃ event, Relevant indexer chain event ∧
      event.ledger < (indexer.poll chain respond s).currentLedger ∧
      event ∉ (indexer.poll chain respond s).handled := by
  have hdrop : (due indexer chain s node).drop node.pageLimit ≠ [] :=
    fun hnil => absurd (List.drop_eq_nil_iff.mp hnil) (Nat.not_le.mpr hcut)
  obtain ⟨event, hevent⟩ := List.exists_mem_of_ne_nil _ hdrop
  obtain ⟨hrelevant, hstart, hlatest⟩ := mem_due.mp (List.mem_of_mem_drop hevent)
  have hnew : event ∉ s.handled := by
    refine List.count_eq_zero.mp ?_
    rw [hrecorded event hrelevant, if_neg (UInt32.not_lt.mpr hstart)]
  have hpage : event ∉ (due indexer chain s node).take node.pageLimit :=
    fun htaken => List.disjoint_take_drop (nodup_due indexer chain s node) (Nat.le_refl _) htaken hevent
  rw [poll_of_ok h]
  refine ⟨event, hrelevant, (lt_succ_iff hlast).mpr hlatest, ?_⟩
  intro hhandled
  rcases List.mem_append.mp hhandled with hold | hpaged
  · exact hnew hold
  · exact hpage hpaged

/-- A node that lags behind an event moves the cursor back, and the next node
hands the event out again. -/
theorem repeated_after_lagging_node {respond' : Nat → Response RpcNode} {node' : RpcNode}
    (hrecorded : Recorded indexer chain s) (hrelevant : Relevant indexer chain event)
    (h : call indexer.rpcUrls respond = .ok node)
    (hbehind : node.latestLedger < event.ledger ∧ event.ledger < s.currentLedger)
    (h' : call indexer.rpcUrls respond' = .ok node')
    (hcovers : Covers indexer chain (indexer.poll chain respond s) node')
    (hknown : event.ledger ≤ node'.latestLedger) :
    (indexer.poll chain respond' (indexer.poll chain respond s)).handled.count event = 2 := by
  obtain ⟨hlater, hbelow⟩ := hbehind
  have hnothing : due indexer chain s node = [] := by
    refine List.eq_nil_iff_forall_not_mem.mpr ?_
    intro event' hevent'
    obtain ⟨_, hstart, hlatest⟩ := mem_due.mp hevent'
    rw [UInt32.le_iff_toNat_le] at hstart hlatest
    rw [UInt32.lt_iff_toNat_lt] at hlater hbelow
    omega
  have hpoll : indexer.poll chain respond s = ⟨node.latestLedger + 1, s.handled⟩ := by
    rw [poll_of_ok h, hnothing, List.take_nil, List.append_nil]
  have hback : node.latestLedger + 1 ≤ event.ledger := by
    have hsucc : node.latestLedger.toNat + 1 < UInt32.size := by
      rw [UInt32.lt_iff_toNat_lt] at hlater
      have hbound := event.ledger.toNat_lt_size
      omega
    exact UInt32.not_lt.mp fun hlt => absurd ((lt_succ_iff hsucc).mp hlt) (UInt32.not_le.mpr hlater)
  rw [poll_of_ok h', List.take_of_length_le hcovers.fits, List.count_append, hpoll]
  rw [hrecorded event hrelevant, if_pos hbelow, count_due hrelevant, if_pos ⟨hback, hknown⟩]

end Axionvera.Node.Indexer

import Axionvera.Lib.LeadingZeros
import Axionvera.Lib.Nearest
import Axionvera.Lib.Transition
import Mathlib.Data.List.AList

/-! # The routing table

The Kademlia table of `p2p.rs`: 256 buckets of at most 20 peers, a peer in the
bucket whose number is that of the leading zeros in the exclusive or of its id
and the local one. A peer declares its id as a `String` but the table uses it as
the 32 bytes that it is keyed by, and so it is here; `(x as f32).log2() as usize`
is the binary logarithm, rounded down. An address is kept as its text. -/
namespace Axionvera.Node.Kademlia
open Axionvera.Lib.LeadingZeros Axionvera.Lib.Nearest Axionvera.Lib.Transition

abbrev NodeId : Type := Vector UInt8 32

structure PeerInfo where
  id : NodeId
  address : String
  isConnected : Bool
  lastSeen : Int
  latencyMs : UInt64
  version : String
  deriving DecidableEq

abbrev Bucket : Type := Std.ExtTreeMap NodeId PeerInfo

structure KademliaRoutingTable where
  localId : NodeId
  buckets : Vector Bucket 256

def xorDistance (id1 id2 : NodeId) : NodeId := Vector.zipWith (· ^^^ ·) id1 id2

/-- The loop of `bucket_index` from byte `i` on. -/
def bucketIndexFrom : Nat → List UInt8 → Nat
  | _, [] => 255
  | i, byte :: bytes =>
    if byte ≠ 0 then i * 8 + (7 - byte.toNat.log2) else bucketIndexFrom (i + 1) bytes

namespace KademliaRoutingTable

def new (localId : NodeId) : KademliaRoutingTable where
  localId := localId
  buckets := Vector.replicate 256 ∅

def bucketIndex (t : KademliaRoutingTable) (id : NodeId) : Nat :=
  bucketIndexFrom 0 (xorDistance t.localId id).toList

def update (t : KademliaRoutingTable) (peer : PeerInfo) : KademliaRoutingTable :=
  let index := t.bucketIndex peer.id
  match t.buckets[index]? with
  | some bucket =>
    if bucket.size < 20 then
      { t with buckets := t.buckets.setIfInBounds index (bucket.insert peer.id peer) }
    else t
  -- Out of bounds; there is a bucket for every index (`bucketIndex_lt`).
  | none => t

/-- The peers, bucket by bucket. -/
def allPeers (t : KademliaRoutingTable) : List PeerInfo :=
  t.buckets.toList.flatMap fun bucket => bucket.toList.map Prod.snd

def findClosest (t : KademliaRoutingTable) (target : NodeId) (k : Nat) : List PeerInfo :=
  nearest (fun peer => xorDistance peer.id target) k t.allPeers

end KademliaRoutingTable
open KademliaRoutingTable

variable {t : KademliaRoutingTable} {peer p : PeerInfo} {id id' localId target : NodeId}
  {bucket : Bucket} {i j : Nat} {bytes : List UInt8}

/-! ## Distances -/

theorem xorDistance_eq_zero : (∀ byte ∈ (xorDistance id id').toList, byte = 0) ↔ id = id' := by
  refine ⟨?_, ?_⟩
  · intro h
    ext i hi : 1
    have hbyte : (xorDistance id id')[i] = 0 :=
      h _ (Vector.mem_toList_iff.mpr (Vector.getElem_mem hi))
    rw [xorDistance, Vector.getElem_zipWith] at hbyte
    exact UInt8.xor_eq_zero_iff.mp hbyte
  · intro h byte hmem
    subst h
    obtain ⟨i, hi, rfl⟩ := Vector.mem_iff_getElem.mp (Vector.mem_toList_iff.mp hmem)
    rw [xorDistance, Vector.getElem_zipWith, UInt8.xor_self]

/-- No two ids are at one distance from a third. -/
theorem xorDistance_injective (h : xorDistance id target = xorDistance id' target) : id = id' := by
  ext i hi : 1
  have hbyte : (xorDistance id target)[i] = (xorDistance id' target)[i] := by rw [h]
  rw [xorDistance, xorDistance, Vector.getElem_zipWith, Vector.getElem_zipWith] at hbyte
  exact (UInt8.xor_left_inj _).mp hbyte

theorem bucketIndexFrom_zeros (h : ∀ byte ∈ bytes, byte = 0) : bucketIndexFrom i bytes = 255 := by
  induction bytes generalizing i with
  | nil => rfl
  | cons byte bytes ih =>
    obtain ⟨hzero, hrest⟩ := List.forall_mem_cons.mp h
    rw [bucketIndexFrom, if_neg (not_not_intro hzero)]
    exact ih hrest

/-- The loop stops at the first byte that is not zero. -/
theorem bucketIndexFrom_eq (h : ¬ ∀ byte ∈ bytes, byte = 0) :
    bucketIndexFrom i bytes = i * 8 + leadingZeros (bitsOf bytes) := by
  induction bytes generalizing i with
  | nil => exact absurd (List.forall_mem_nil _) h
  | cons byte bytes ih =>
    rw [bucketIndexFrom, leadingZeros_bitsOf_cons]
    by_cases hzero : byte = 0
    · have hrest : ¬ ∀ byte ∈ bytes, byte = 0 :=
        fun hrest => h (List.forall_mem_cons.mpr ⟨hzero, hrest⟩)
      rw [if_neg (not_not_intro hzero), if_pos hzero, ih hrest]
      omega
    · rw [if_pos hzero, if_neg hzero]

theorem bucketIndexFrom_lt (h : i + bytes.length ≤ 32) : bucketIndexFrom i bytes < 256 := by
  induction bytes generalizing i with
  | nil => exact (by decide : (255 : Nat) < 256)
  | cons byte bytes ih =>
    rw [List.length_cons] at h
    rw [bucketIndexFrom]
    split
    · omega
    · exact ih (by omega)

theorem bucketIndex_lt (t : KademliaRoutingTable) (id : NodeId) : t.bucketIndex id < 256 :=
  bucketIndexFrom_lt (by simp)

theorem bucketIndex_eq (t : KademliaRoutingTable) (id : NodeId) :
    t.bucketIndex id =
      if id = t.localId then 255
      else leadingZeros (bitsOf (xorDistance t.localId id).toList) := by
  rw [bucketIndex]
  split
  · rename_i hlocal
    exact bucketIndexFrom_zeros (xorDistance_eq_zero.mpr hlocal.symm)
  · rename_i hother
    rw [bucketIndexFrom_eq fun hzero => hother (xorDistance_eq_zero.mp hzero).symm, Nat.zero_mul,
      Nat.zero_add]

/-! ## One update -/

@[simp] theorem localId_update : (t.update peer).localId = t.localId := by
  rw [update]
  split
  · split <;> rfl
  · rfl

@[simp] theorem bucketIndex_update : (t.update peer).bucketIndex id = t.bucketIndex id := by
  rw [bucketIndex, bucketIndex, localId_update]

/-- All that an update does to the buckets. -/
theorem getElem?_update (t : KademliaRoutingTable) (peer : PeerInfo) (i : Nat) :
    (t.update peer).buckets[i]? = t.buckets[i]?.map fun bucket =>
      if i = t.bucketIndex peer.id ∧ bucket.size < 20 then bucket.insert peer.id peer
      else bucket := by
  have hlt := bucketIndex_lt t peer.id
  have hbucket : t.buckets[t.bucketIndex peer.id]? = some t.buckets[t.bucketIndex peer.id] :=
    Vector.getElem?_eq_getElem hlt
  simp only [update, hbucket]
  by_cases hi : i = t.bucketIndex peer.id
  · subst hi
    split
    · rename_i hroom
      simp [hroom, hlt]
    · rename_i hfull
      rw [hbucket, Option.map_some, if_neg fun hroom => hfull hroom.2]
  · split
    · simp [hi, Ne.symm hi]
    · simp [hi]

/-- What the table holds for an id. -/
def lookup (t : KademliaRoutingTable) (id : NodeId) : Option PeerInfo :=
  t.buckets[t.bucketIndex id]?.bind fun bucket => bucket[id]?

def HasRoom (t : KademliaRoutingTable) (id : NodeId) : Prop :=
  ∃ bucket, t.buckets[t.bucketIndex id]? = some bucket ∧ bucket.size < 20

theorem lookup_update_of_hasRoom (h : HasRoom t peer.id) :
    lookup (t.update peer) id = if id = peer.id then some peer else lookup t id := by
  obtain ⟨bucket, hbucket, hroom⟩ := h
  rw [lookup, bucketIndex_update, getElem?_update]
  by_cases hid : id = peer.id
  · subst hid
    simp [hbucket, hroom]
  · rw [if_neg hid, lookup]
    cases hother : t.buckets[t.bucketIndex id]? with
    | none => rfl
    | some other =>
      simp only [Option.map_some, Option.bind_some]
      split
      · rw [Std.ExtTreeMap.getElem?_insert, if_neg]
        intro heq
        exact hid (Std.LawfulEqCmp.eq_of_compare heq).symm
      · rfl

theorem update_of_full (h : ¬ HasRoom t peer.id) : t.update peer = t := by
  rw [update]
  split
  · rename_i bucket hbucket
    exact if_neg fun hroom => h ⟨bucket, hbucket, hroom⟩
  · rfl

/-! ## The tables that updates lead to -/

/-- Each peer is stored under its id, in the bucket of that id, and the buckets
are within their bound. -/
structure Placed (t : KademliaRoutingTable) : Prop where
  stored : ∀ (i : Nat) (bucket : Bucket) (id : NodeId) (p : PeerInfo),
    t.buckets[i]? = some bucket → bucket[id]? = some p → p.id = id ∧ t.bucketIndex id = i
  small : ∀ (i : Nat) (bucket : Bucket), t.buckets[i]? = some bucket → bucket.size ≤ 20

theorem placed_new (localId : NodeId) : Placed (new localId) := by
  have hempty : ∀ (i : Nat) bucket, (new localId).buckets[i]? = some bucket → bucket = ∅ := by
    intro i bucket h
    rw [new, Vector.getElem?_replicate] at h
    split at h
    · exact (Option.some.inj h).symm
    · cases h
  refine ⟨?_, ?_⟩
  · intro i bucket id p h hp
    rw [hempty i bucket h] at hp
    simp at hp
  · intro i bucket h
    rw [hempty i bucket h]
    simp

theorem Placed.update (h : Placed t) (peer : PeerInfo) : Placed (t.update peer) := by
  refine ⟨?_, ?_⟩
  · intro i bucket id p hbucket hp
    rw [getElem?_update] at hbucket
    obtain ⟨old, hold, rfl⟩ := Option.map_eq_some_iff.mp hbucket
    rw [bucketIndex_update]
    split at hp
    · rename_i hhere
      rw [Std.ExtTreeMap.getElem?_insert] at hp
      split at hp
      · rename_i heq
        cases Std.LawfulEqCmp.eq_of_compare heq
        cases hp
        exact ⟨rfl, hhere.1.symm⟩
      · exact h.stored i old id p hold hp
    · exact h.stored i old id p hold hp
  · intro i bucket hbucket
    rw [getElem?_update] at hbucket
    obtain ⟨old, hold, rfl⟩ := Option.map_eq_some_iff.mp hbucket
    split
    · rename_i hhere
      have hsize := Std.ExtTreeMap.size_insert_le (t := old) (k := peer.id) (v := peer)
      omega
    · exact h.small i old hold

/-- The table after the given updates, latest first. -/
def reached (localId : NodeId) (peers : List PeerInfo) : KademliaRoutingTable :=
  peers.foldr (fun peer t => t.update peer) (new localId)

theorem placed_reached (localId : NodeId) (peers : List PeerInfo) :
    Placed (reached localId peers) :=
  foldr_invariant (C := fun _ _ => True) (placed_new localId)
    (fun _ peer h _ => h.update peer) (fun _ _ _ => trivial)

theorem localId_reached (localId : NodeId) (peers : List PeerInfo) :
    (reached localId peers).localId = localId :=
  foldr_invariant (I := fun t : KademliaRoutingTable => t.localId = localId) (C := fun _ _ => True) rfl
    (fun _ _ h _ => localId_update.trans h) (fun _ _ _ => trivial)

theorem bucketIndex_reached (localId : NodeId) (peers : List PeerInfo) (id : NodeId) :
    (reached localId peers).bucketIndex id = (new localId).bucketIndex id := by
  rw [bucketIndex, bucketIndex, localId_reached]
  rfl

/-- The peers are what the buckets hold. -/
theorem mem_allPeers_iff_stored : p ∈ t.allPeers ↔
    ∃ (i : Nat) (bucket : Bucket) (id : NodeId),
      t.buckets[i]? = some bucket ∧ bucket[id]? = some p := by
  rw [allPeers, List.mem_flatMap]
  refine ⟨?_, ?_⟩
  · rintro ⟨bucket, hbucket, hp⟩
    obtain ⟨i, hi⟩ := List.mem_iff_getElem?.mp hbucket
    rw [Vector.getElem?_toList] at hi
    obtain ⟨⟨id, _⟩, hmem, rfl⟩ := List.mem_map.mp hp
    exact ⟨i, bucket, id, hi, Std.ExtTreeMap.mem_toList_iff_getElem?_eq_some.mp hmem⟩
  · rintro ⟨i, bucket, id, hbucket, hfound⟩
    refine ⟨bucket, ?_, ?_⟩
    · exact Vector.mem_toList_iff.mpr (Vector.mem_of_getElem? hbucket)
    · exact List.mem_map.mpr ⟨(id, p), Std.ExtTreeMap.mem_toList_iff_getElem?_eq_some.mpr hfound, rfl⟩

theorem mem_allPeers (h : Placed t) : p ∈ t.allPeers ↔ lookup t p.id = some p := by
  rw [mem_allPeers_iff_stored]
  refine ⟨?_, ?_⟩
  · rintro ⟨i, bucket, id, hbucket, hfound⟩
    obtain ⟨rfl, rfl⟩ := h.stored i bucket id p hbucket hfound
    rw [lookup, hbucket]
    exact hfound
  · intro hlookup
    obtain ⟨bucket, hbucket, hfound⟩ := Option.bind_eq_some_iff.mp hlookup
    exact ⟨_, bucket, p.id, hbucket, hfound⟩

theorem Placed.ids_of_bucket (h : Placed t) (hbucket : t.buckets[i]? = some bucket) :
    (bucket.toList.map Prod.snd).map PeerInfo.id = bucket.toList.map Prod.fst := by
  rw [List.map_map]
  refine List.map_congr_left ?_
  rintro ⟨id, p⟩ hmem
  exact (h.stored i bucket id p hbucket
    (Std.ExtTreeMap.mem_toList_iff_getElem?_eq_some.mp hmem)).1

theorem Placed.bucketIndex_of_mem (h : Placed t) (hbucket : t.buckets[i]? = some bucket)
    (hmem : id ∈ (bucket.toList.map Prod.snd).map PeerInfo.id) : t.bucketIndex id = i := by
  rw [h.ids_of_bucket hbucket] at hmem
  obtain ⟨⟨_, p⟩, hp, rfl⟩ := List.mem_map.mp hmem
  exact (h.stored i bucket _ p hbucket
    (Std.ExtTreeMap.mem_toList_iff_getElem?_eq_some.mp hp)).2

/-- No id is stored twice: not in one bucket, which is a map, and not in two, one
of which is not that of the id. -/
theorem Placed.nodup_ids (h : Placed t) : (t.allPeers.map PeerInfo.id).Nodup := by
  have hget : ∀ (i : Nat) (hi : i < t.buckets.toList.length),
      t.buckets[i]? = some t.buckets.toList[i] := by
    intro i hi
    rw [← Vector.getElem?_toList]
    exact List.getElem?_eq_getElem hi
  rw [allPeers, List.map_flatMap, List.nodup_flatMap]
  refine ⟨?_, ?_⟩
  · intro bucket hmem
    obtain ⟨i, hi, rfl⟩ := List.mem_iff_getElem.mp hmem
    rw [h.ids_of_bucket (hget i hi), List.Nodup, List.pairwise_map]
    refine Std.ExtTreeMap.distinct_keys_toList.imp ?_
    intro a b hne heq
    exact hne (by rw [heq]; exact Std.ReflCmp.compare_self)
  · rw [List.pairwise_iff_getElem]
    intro i j hi hj hlt id hmemi hmemj
    have hini := h.bucketIndex_of_mem (hget i hi) hmemi
    have hinj := h.bucketIndex_of_mem (hget j hj) hmemj
    omega

theorem Placed.nodup_distances (h : Placed t) (target : NodeId) :
    (t.allPeers.map fun peer => xorDistance peer.id target).Nodup := by
  have hdistances : (t.allPeers.map fun peer => xorDistance peer.id target) =
      (t.allPeers.map PeerInfo.id).map fun id => xorDistance id target := by
    rw [List.map_map]
    rfl
  rw [hdistances]
  exact h.nodup_ids.map fun _ _ heq => xorDistance_injective heq

/-- After any updates, each peer is in the bucket that the leading zeros of its
distance from the local id name, once in the table, at most 20 to a bucket, and
`find_closest` returns, of the peers that the buckets hold, those that are
nearest to the target. -/
theorem reached_routes (localId : NodeId) (peers : List PeerInfo) :
    let t := reached localId peers
    (∀ (i : Nat) (bucket : Bucket) (id : NodeId) (p : PeerInfo),
      t.buckets[i]? = some bucket → bucket[id]? = some p →
        p.id = id ∧
          i = if id = localId then 255
            else leadingZeros (bitsOf (xorDistance localId id).toList)) ∧
    (∀ id, t.bucketIndex id < 256) ∧
    (t.allPeers.map PeerInfo.id).Nodup ∧
    (∀ (i : Nat) (bucket : Bucket), t.buckets[i]? = some bucket → bucket.size ≤ 20) ∧
    (∀ p, p ∈ t.allPeers ↔ ∃ (i : Nat) (bucket : Bucket) (id : NodeId),
      t.buckets[i]? = some bucket ∧ bucket[id]? = some p) ∧
    ∀ target k, IsNearest (fun peer => xorDistance peer.id target) k t.allPeers
      (t.findClosest target k) := by
  intro t
  have hplaced : Placed t := placed_reached localId peers
  refine ⟨?_, bucketIndex_lt t, hplaced.nodup_ids, hplaced.small, fun _ => mem_allPeers_iff_stored, ?_⟩
  · intro i bucket id p hbucket hp
    obtain ⟨hid, hindex⟩ := hplaced.stored i bucket id p hbucket hp
    rw [bucketIndex_eq, localId_reached] at hindex
    exact ⟨hid, hindex.symm⟩
  · intro target k
    exact nearest_spec (hplaced.nodup_distances target) k

/-! ## Updates of a known peer -/

/-- The update stores the peer for its id and changes nothing else. -/
def TakesEffect (t : KademliaRoutingTable) (peer : PeerInfo) : Prop :=
  ∀ p, p ∈ (t.update peer).allPeers ↔ p = peer ∨ p ∈ t.allPeers ∧ p.id ≠ peer.id

theorem takesEffect_of_hasRoom (h : Placed t) (hroom : HasRoom t peer.id) :
    TakesEffect t peer := by
  intro p
  rw [mem_allPeers (h.update peer), mem_allPeers h, lookup_update_of_hasRoom hroom]
  split
  · rename_i hid
    simp [hid, eq_comm]
  · rename_i hid
    have hne : p ≠ peer := fun heq => hid (congrArg PeerInfo.id heq)
    simp [hid, hne]

/-- A full bucket keeps what it has. -/
theorem takesEffect_of_full {old : PeerInfo} (h : Placed t) (hfull : ¬ HasRoom t peer.id)
    (hold : old ∈ t.allPeers) (hid : old.id = peer.id) : TakesEffect t peer ↔ old = peer := by
  have hsame : ∀ p ∈ t.allPeers, p.id = peer.id → p = old := by
    intro p hp hpid
    rw [mem_allPeers h, hpid, ← hid] at hp
    exact Option.some.inj (hp.symm.trans ((mem_allPeers h).mp hold))
  rw [TakesEffect, update_of_full hfull]
  refine ⟨?_, ?_⟩
  · intro heffect
    exact (hsame peer ((heffect peer).mpr (Or.inl rfl)) rfl).symm
  · rintro rfl p
    refine ⟨?_, ?_⟩
    · intro hp
      by_cases hpid : p.id = old.id
      · exact Or.inl (hsame p hp hpid)
      · exact Or.inr ⟨hp, hpid⟩
    · rintro (rfl | ⟨hp, -⟩)
      · exact hold
      · exact hp

/-- The update of a stored peer takes effect exactly if there is room in its
bucket, where it needs none, or if it brings nothing new. -/
theorem update_known_iff (localId : NodeId) (peers : List PeerInfo) (old peer : PeerInfo)
    (hold : old ∈ (reached localId peers).allPeers) (hid : old.id = peer.id) :
    TakesEffect (reached localId peers) peer ↔
      HasRoom (reached localId peers) peer.id ∨ old = peer := by
  have hplaced := placed_reached localId peers
  by_cases hroom : HasRoom (reached localId peers) peer.id
  · exact iff_of_true (takesEffect_of_hasRoom hplaced hroom) (Or.inl hroom)
  · rw [takesEffect_of_full hplaced hroom hold hid]
    simp [hroom]

/-- Peers with different ids of one bucket are all stored while they are at most
20. -/
theorem reached_fills {peers : List PeerInfo} (hi : i < 256) (hlength : peers.length ≤ 20)
    (hindex : ∀ p ∈ peers, (new localId).bucketIndex p.id = i)
    (hnodup : (peers.map PeerInfo.id).Nodup) :
    ∃ bucket, (reached localId peers).buckets[i]? = some bucket ∧ bucket.size = peers.length ∧
      (∀ id ∈ bucket, id ∈ peers.map PeerInfo.id) ∧ ∀ p ∈ peers, bucket[p.id]? = some p := by
  induction peers with
  | nil =>
    refine ⟨∅, ?_, ?_, ?_, ?_⟩
    · simp [reached, new, hi]
    · simp
    · simp
    · simp
  | cons peer peers ih =>
    rw [List.length_cons] at hlength
    rw [List.map_cons, List.nodup_cons] at hnodup
    obtain ⟨bucket, hbucket, hsize, hkeys, hfound⟩ :=
      ih (by omega) (fun p hp => hindex p (List.mem_cons_of_mem _ hp)) hnodup.2
    have hnew : peer.id ∉ bucket := fun hmem => hnodup.1 (hkeys _ hmem)
    have hhere : i = (reached localId peers).bucketIndex peer.id := by
      rw [bucketIndex_reached]
      exact (hindex peer List.mem_cons_self).symm
    refine ⟨bucket.insert peer.id peer, ?_, ?_, ?_, ?_⟩
    · show ((reached localId peers).update peer).buckets[i]? = _
      rw [getElem?_update, hbucket, Option.map_some, if_pos ⟨hhere, by omega⟩]
    · rw [Std.ExtTreeMap.size_insert, if_neg (by simpa using hnew), hsize, List.length_cons]
    · intro id hid
      rcases Std.ExtTreeMap.mem_insert.mp hid with heq | hmem
      · cases Std.LawfulEqCmp.eq_of_compare heq
        exact List.mem_cons_self
      · exact List.mem_cons_of_mem _ (hkeys id hmem)
    · intro p hp
      rcases List.mem_cons.mp hp with rfl | hp
      · exact Std.ExtTreeMap.getElem?_insert_self
      · rw [Std.ExtTreeMap.getElem?_insert, if_neg]
        · exact hfound p hp
        · intro heq
          have hid : peer.id = p.id := Std.LawfulEqCmp.eq_of_compare heq
          exact hnodup.1 (hid ▸ List.mem_map_of_mem hp)

def home : NodeId := Vector.replicate 32 (UInt8.ofNat 0)

/-- A peer whose id differs from `home` in the first bit. -/
def farPeer (k : Nat) : PeerInfo where
  id := home.setIfInBounds 0 (UInt8.ofNat (128 + k))
  address := "127.0.0.1:8080"
  isConnected := true
  lastSeen := 0
  latencyMs := 0
  version := "1.0.0"

def slower (peer : PeerInfo) : PeerInfo := { peer with latencyMs := 80 }

theorem bucketIndex_farPeer : ∀ k < 20, (new home).bucketIndex (farPeer k).id = 0 := by
  simp only [bucketIndex, xorDistance, Vector.toList_zipWith]
  decide

theorem nodup_farPeers : (((List.range 20).map farPeer).map PeerInfo.id).Nodup := by
  refine List.Nodup.of_map (fun id : NodeId => id[0]) ?_
  have hfirst : ∀ k, (farPeer k).id[0] = UInt8.ofNat (128 + k) := by
    intro k
    simp [farPeer]
  simp only [List.map_map, Function.comp_def, hfirst]
  decide

/-- Some of the peers of the first bucket. -/
theorem reached_farPeers {ks : List Nat} (hks : ks.Sublist (List.range 20)) :
    ∃ bucket, (reached home (ks.map farPeer)).buckets[0]? = some bucket ∧
      bucket.size = ks.length ∧ ∀ k ∈ ks, farPeer k ∈ (reached home (ks.map farPeer)).allPeers := by
  have hlength : (ks.map farPeer).length ≤ 20 := by
    rw [List.length_map]
    exact hks.length_le
  have hindex : ∀ p ∈ ks.map farPeer, (new home).bucketIndex p.id = 0 := by
    intro p hp
    obtain ⟨k, hk, rfl⟩ := List.mem_map.mp hp
    exact bucketIndex_farPeer k (List.mem_range.mp (hks.subset hk))
  obtain ⟨bucket, hbucket, hsize, -, hfound⟩ :=
    reached_fills (by decide) hlength hindex (nodup_farPeers.sublist ((hks.map _).map _))
  refine ⟨bucket, hbucket, ?_, ?_⟩
  · rw [hsize, List.length_map]
  · intro k hk
    have hmem : farPeer k ∈ ks.map farPeer := List.mem_map_of_mem hk
    rw [mem_allPeers (placed_reached _ _), lookup, bucketIndex_reached, hindex _ hmem, hbucket]
    exact hfound _ hmem

theorem bucketIndex_slower (peers : List PeerInfo) :
    (reached home peers).bucketIndex (slower (farPeer 0)).id = 0 := by
  rw [bucketIndex_reached]
  exact bucketIndex_farPeer 0 (by decide)

/-- In a bucket with room, the new round trip time is stored. -/
theorem update_known_iff_pair :
    TakesEffect (reached home ([0, 1].map farPeer)) (slower (farPeer 0)) := by
  have hks : [0, 1].Sublist (List.range 20) := by decide
  obtain ⟨bucket, hbucket, hsize, hmem⟩ := reached_farPeers hks
  refine (update_known_iff home ([0, 1].map farPeer) (farPeer 0) (slower (farPeer 0))
    (hmem 0 (by decide)) rfl).mpr (Or.inl ⟨bucket, ?_, ?_⟩)
  · rw [bucketIndex_slower]
    exact hbucket
  · rw [hsize]
    decide

/-- In a bucket of 20, the stored peer keeps its old round trip time. -/
theorem full_bucket_ignores_known_peer :
    farPeer 0 ∈ (reached home ((List.range 20).map farPeer)).allPeers ∧
      (slower (farPeer 0)).id = (farPeer 0).id ∧
      ¬ TakesEffect (reached home ((List.range 20).map farPeer)) (slower (farPeer 0)) := by
  obtain ⟨bucket, hbucket, hsize, hmem⟩ := reached_farPeers (List.Sublist.refl (List.range 20))
  have hstored := hmem 0 (by decide)
  refine ⟨hstored, rfl, ?_⟩
  have hfull : ¬ HasRoom (reached home ((List.range 20).map farPeer)) (slower (farPeer 0)).id := by
    rintro ⟨other, hother, hroom⟩
    rw [bucketIndex_slower, hbucket] at hother
    cases hother
    rw [hsize, List.length_range] at hroom
    omega
  rw [takesEffect_of_full (placed_reached _ _) hfull hstored rfl]
  intro heq
  have hlatency : (farPeer 0).latencyMs = (slower (farPeer 0)).latencyMs := by rw [← heq]
  exact absurd hlatency (by decide)

end Axionvera.Node.Kademlia

import Axionvera.Lib.WordMath
import Axionvera.Node.StateRoot
import Mathlib.Algebra.Order.Floor.Div
import Mathlib.Data.List.AList

/-! # Snapshots of the state in chunks

`state_trie.rs` serves the entries of its database in chunks of a hundred, and
`enhanced_server.rs` takes the number of the chunk from the query. Every request
walks the whole database and computes both ends of the chunk at each entry. -/
namespace Axionvera.Node.Snapshots
open Axionvera.Lib.Fallible Axionvera.Lib.MachineInt Axionvera.Lib.WordMath
open Axionvera.Node.StateRoot

abbrev Entry : Type := Bytes × Bytes

/-- The test of one entry: the end of the chunk is computed from its start on only. -/
def inChunk (build : Build) (chunkIndex i : UInt64) : Except Panic Bool := do
  let first ← mul build chunkIndex (UInt64.ofNat 100)
  if first ≤ i then
    let following ← add build chunkIndex (UInt64.ofNat 1)
    let stop ← mul build following (UInt64.ofNat 100)
    pure (decide (i < stop))
  else
    pure false

/-- The loop over what the iterator of the database yields. The entries are numbered by
`enumerate`, whose own counter goes up before the body runs; an entry that could not be
read has its number and is left out. -/
def collect (build : Build) (chunkIndex : UInt64) :
    UInt64 → List (Except String Entry) → List Entry → Except Panic (List Entry)
  | _, [], chunk => .ok chunk
  | i, item :: rest, chunk => do
    let following ← add build i (UInt64.ofNat 1)
    let inside ← inChunk build chunkIndex i
    collect build chunkIndex following rest
      (if inside then chunk ++ item.toOption.toList else chunk)

def getSnapshotChunk (build : Build) (items : List (Except String Entry)) (chunkIndex : UInt64) :
    Except Panic (List Entry) :=
  collect build chunkIndex (UInt64.ofNat 0) items []

/-! ## The handler -/

/-- `str::parse` at `usize`: decimal digits, at least one, after an optional plus. -/
def parseUsize (text : String) : Option UInt64 :=
  let digits := match text.toList with
    | '+' :: rest => rest
    | all => all
  if digits.isEmpty then none
  else digits.foldlM (fun value c =>
    let wider := value.toNat * 10 + (c.toNat - 48)
    if c.isDigit ∧ wider < u64Size then some (UInt64.ofNat wider) else none) (UInt64.ofNat 0)

structure Snapshot (H : Type) where
  chunkIndex : UInt64
  data : List Entry
  rootHash : H

def syncSnapshot {H : Type} (build : Build) (trie : StateTrie H)
    (items : List (Except String Entry)) (params : AList fun _ : String => String) :
    Except Panic (Snapshot H) := do
  let chunkIndex := ((params.lookup "chunk").bind parseUsize).getD (UInt64.ofNat 0)
  let chunk ← getSnapshotChunk build items chunkIndex
  pure ⟨chunkIndex, chunk, trie.rootHash⟩

/-! ## The walk -/

variable {chunkIndex i : UInt64} {items : List (Except String Entry)} {chunk out : List Entry}

theorem inChunk_eq_ok {inside : Bool} : inChunk .checked chunkIndex i = .ok inside ↔
    chunkIndex.toNat * 100 < u64Size ∧
      (chunkIndex.toNat * 100 ≤ i.toNat → (chunkIndex.toNat + 1) * 100 < u64Size) ∧
      inside = decide (chunkIndex.toNat * 100 ≤ i.toNat ∧
        i.toNat < (chunkIndex.toNat + 1) * 100) := by
  rw [inChunk, bind_eq_ok]
  constructor
  · rintro ⟨first, hfirst, hrest⟩
    obtain ⟨hfits, hfirst⟩ := mul_eq_ok.mp hfirst
    simp only [UInt64.reduceOfNat, UInt64.reduceToNat] at hfits hfirst
    split at hrest
    · rename_i hle
      rw [UInt64.le_iff_toNat_le, hfirst] at hle
      obtain ⟨following, hfollowing, hrest⟩ := bind_eq_ok.mp hrest
      obtain ⟨stop, hstop, hinside⟩ := bind_eq_ok.mp hrest
      obtain ⟨-, hfollowing⟩ := add_eq_ok.mp hfollowing
      obtain ⟨hend, hstop⟩ := mul_eq_ok.mp hstop
      rw [hfollowing] at hend hstop
      refine ⟨hfits, fun _ => hend, ?_⟩
      rw [pure_eq_ok.mp hinside, decide_eq_decide, UInt64.lt_iff_toNat_lt, hstop]
      exact (and_iff_right hle).symm
    · rename_i hnot
      rw [UInt64.le_iff_toNat_le, hfirst] at hnot
      refine ⟨hfits, fun hle => absurd hle hnot, ?_⟩
      rw [pure_eq_ok.mp hrest]
      simp [hnot]
  · rintro ⟨hfits, hend, hinside⟩
    obtain ⟨first, hfirst⟩ := exists_toNat_eq hfits
    refine ⟨first, mul_eq_ok.mpr ⟨hfits, hfirst⟩, ?_⟩
    split
    · rename_i hle
      rw [UInt64.le_iff_toNat_le, hfirst] at hle
      have hstop := hend hle
      have hroom : chunkIndex.toNat + 1 < u64Size := by omega
      obtain ⟨following, hfollowing⟩ := exists_toNat_eq hroom
      obtain ⟨stop, hstopValue⟩ := exists_toNat_eq hstop
      rw [← hfollowing] at hstop hstopValue hinside
      refine bind_eq_ok.mpr ⟨following, add_eq_ok.mpr ⟨hroom, hfollowing⟩, ?_⟩
      refine bind_eq_ok.mpr ⟨stop, mul_eq_ok.mpr ⟨hstop, hstopValue⟩, ?_⟩
      rw [pure_eq_ok, hinside, decide_eq_decide, UInt64.lt_iff_toNat_lt, hstopValue]
      exact and_iff_right hle
    · rename_i hnot
      rw [UInt64.le_iff_toNat_le, hfirst] at hnot
      rw [pure_eq_ok, hinside]
      simp [hnot]

theorem safe_inChunk (chunkIndex i : UInt64) : Safe fun build => inChunk build chunkIndex i := by
  refine (safe_mul _ _).bind ?_
  intro first
  split
  · refine (safe_add _ _).bind ?_
    intro following
    exact (safe_mul _ _).bind fun _ => safe_const _
  · exact safe_const _

theorem safe_collect (chunkIndex : UInt64) (items : List (Except String Entry)) :
    ∀ (i : UInt64) (chunk : List Entry),
      Safe fun build => collect build chunkIndex i items chunk := by
  induction items with
  | nil =>
    intro i chunk
    exact safe_const _
  | cons item rest ih =>
    intro i chunk
    refine (safe_add _ _).bind ?_
    intro following
    refine (safe_inChunk _ _).bind ?_
    intro inside
    exact ih _ _

/-- The places of the chunk among the items from number `i` on. -/
def chunkOf (chunkIndex i : Nat) (items : List (Except String Entry)) :
    List (Except String Entry) :=
  (items.drop (chunkIndex * 100 - i)).take ((chunkIndex + 1) * 100 - max i (chunkIndex * 100))

theorem chunkOf_cons (chunkIndex i : Nat) (item : Except String Entry) :
    chunkOf chunkIndex i (item :: items) =
      if chunkIndex * 100 ≤ i ∧ i < (chunkIndex + 1) * 100 then
        item :: chunkOf chunkIndex (i + 1) items
      else chunkOf chunkIndex (i + 1) items := by
  unfold chunkOf
  split
  · rename_i hin
    have hskip : chunkIndex * 100 - i = 0 := by omega
    have hskip' : chunkIndex * 100 - (i + 1) = 0 := by omega
    have hkeep : (chunkIndex + 1) * 100 - max i (chunkIndex * 100) =
        (chunkIndex + 1) * 100 - max (i + 1) (chunkIndex * 100) + 1 := by omega
    rw [hskip, hskip', hkeep, List.drop_zero, List.drop_zero, List.take_succ_cons]
  · rename_i hout
    rcases Nat.lt_or_ge i (chunkIndex * 100) with hbefore | hafter
    · have hskip : chunkIndex * 100 - i = chunkIndex * 100 - (i + 1) + 1 := by omega
      have hkeep : max i (chunkIndex * 100) = max (i + 1) (chunkIndex * 100) := by omega
      rw [hskip, hkeep, List.drop_succ_cons]
    · have hkeep : (chunkIndex + 1) * 100 - max i (chunkIndex * 100) = 0 := by omega
      have hkeep' : (chunkIndex + 1) * 100 - max (i + 1) (chunkIndex * 100) = 0 := by omega
      rw [hkeep, hkeep', List.take_zero, List.take_zero]

/-- No number overflows on a walk over `count` items from number `i` on. -/
def WalkFits (chunkIndex i count : Nat) : Prop :=
  count ≠ 0 → i + count < u64Size ∧ chunkIndex * 100 < u64Size ∧
    (chunkIndex * 100 < i + count → (chunkIndex + 1) * 100 < u64Size)

theorem walkFits_succ {chunkIndex i count : Nat} : WalkFits chunkIndex i (count + 1) ↔
    (i + 1 < u64Size ∧ chunkIndex * 100 < u64Size ∧
      (chunkIndex * 100 ≤ i → (chunkIndex + 1) * 100 < u64Size)) ∧
    WalkFits chunkIndex (i + 1) count := by
  unfold WalkFits
  omega

/-- A readable item is pushed onto the chunk in front of those that follow. -/
theorem push_append (inside : Bool) (item : Except String Entry)
    (tail : List (Except String Entry)) :
    (if inside then chunk ++ item.toOption.toList else chunk) ++ tail.filterMap Except.toOption =
      chunk ++ (if inside then item :: tail else tail).filterMap Except.toOption := by
  cases inside with
  | false => rfl
  | true =>
    cases item with
    | error e => simp [Except.toOption, List.filterMap_cons]
    | ok entry => simp [Except.toOption]

theorem collect_eq_ok : collect .checked chunkIndex i items chunk = .ok out ↔
    WalkFits chunkIndex.toNat i.toNat items.length ∧
      out = chunk ++ (chunkOf chunkIndex.toNat i.toNat items).filterMap Except.toOption := by
  induction items generalizing i chunk with
  | nil => simp [collect, WalkFits, chunkOf, eq_comm]
  | cons item rest ih =>
    rw [List.length_cons, walkFits_succ, chunkOf_cons, collect, bind_eq_ok]
    constructor
    · rintro ⟨following, hfollowing, hrest⟩
      obtain ⟨inside, hinside, hrest⟩ := bind_eq_ok.mp hrest
      obtain ⟨hroom, hfollowing⟩ := add_eq_ok.mp hfollowing
      obtain ⟨hfirst, hend, rfl⟩ := inChunk_eq_ok.mp hinside
      obtain ⟨hwalk, rfl⟩ := ih.mp hrest
      rw [hfollowing] at hwalk ⊢
      refine ⟨⟨⟨hroom, hfirst, hend⟩, hwalk⟩, ?_⟩
      rw [push_append]
      simp only [decide_eq_true_eq]
      rfl
    · rintro ⟨⟨⟨hroom, hfirst, hend⟩, hwalk⟩, rfl⟩
      obtain ⟨following, hfollowing⟩ := exists_toNat_eq hroom
      refine ⟨following, add_eq_ok.mpr ⟨hroom, hfollowing⟩, ?_⟩
      refine bind_eq_ok.mpr ⟨_, inChunk_eq_ok.mpr ⟨hfirst, hend, rfl⟩, ih.mpr ?_⟩
      rw [hfollowing]
      refine ⟨hwalk, ?_⟩
      rw [push_append]
      simp only [decide_eq_true_eq]

/-! ## Chunks of a store that reads well -/

/-- The chunk of this number, in either build. -/
def ChunkServed (entries : List Entry) (chunkIndex : UInt64) : Prop :=
  ∀ build, getSnapshotChunk build (entries.map .ok) chunkIndex =
    .ok ((entries.drop (chunkIndex.toNat * 100)).take 100)

theorem filterMap_chunkOf_zero (entries : List Entry) (k : Nat) :
    (chunkOf k 0 (entries.map .ok)).filterMap Except.toOption =
      (entries.drop (k * 100)).take 100 := by
  have hkeep : (k + 1) * 100 - max 0 (k * 100) = 100 := by omega
  rw [chunkOf, hkeep, Nat.sub_zero, ← List.map_drop, ← List.map_take, List.filterMap_map]
  exact List.filterMap_some

theorem chunkServed_iff (entries : List Entry) (chunkIndex : UInt64) :
    ChunkServed entries chunkIndex ↔ WalkFits chunkIndex.toNat 0 entries.length := by
  have hcollect (out : List Entry) :
      getSnapshotChunk .checked (entries.map .ok) chunkIndex = .ok out ↔
        WalkFits chunkIndex.toNat 0 entries.length ∧
          out = (entries.drop (chunkIndex.toNat * 100)).take 100 := by
    rw [getSnapshotChunk, collect_eq_ok, List.length_map, List.nil_append]
    exact and_congr_right fun _ => by rw [← filterMap_chunkOf_zero]; rfl
  constructor
  · intro hserved
    exact ((hcollect _).mp (hserved .checked)).1
  · intro hfits build
    exact safe_collect _ _ _ _ _ ((hcollect _).mpr ⟨hfits, rfl⟩) build

theorem walkFits_zero {k : Nat} {entries : List Entry} : WalkFits k 0 entries.length ↔
    entries = [] ∨ (entries.length < u64Size ∧ k * 100 < u64Size ∧
      (entries.length ≤ k * 100 ∨ (k + 1) * 100 < u64Size)) := by
  rw [← List.length_eq_zero_iff]
  unfold WalkFits
  omega

theorem flatten_chunks {α : Type} (l : List α) (k : Nat) :
    ((List.range k).map fun j => (l.drop (j * 100)).take 100).flatten = l.take (k * 100) := by
  induction k with
  | zero => simp
  | succ k ih =>
    rw [List.range_succ, List.map_append, List.flatten_append, ih, Nat.succ_mul, List.take_add]
    simp

/-- How many chunks of a size `count` entries make. -/
def chunkCount (count size : Nat) : Nat := count ⌈/⌉ size

/-- The chunks from the first to the last, put together. -/
theorem mapM_getSnapshotChunk {entries : List Entry}
    (hlength : entries.length ≤ 18446744073709551600) (build : Build) :
    ∃ chunks, (List.range (chunkCount entries.length 100)).mapM (fun k =>
      getSnapshotChunk build (entries.map .ok) (UInt64.ofNat k)) = .ok chunks ∧
      chunks.flatten = entries := by
  have hserved (k : Nat) (hk : k ∈ List.range (chunkCount entries.length 100)) :
      getSnapshotChunk build (entries.map .ok) (UInt64.ofNat k) =
        .ok ((entries.drop (k * 100)).take 100) := by
    have hlast : k < (entries.length + 100 - 1) / 100 := List.mem_range.mp hk
    have hsmall : k < u64Size := by
      simp only [u64Size]
      omega
    have hindex : (UInt64.ofNat k).toNat = k := UInt64.toNat_ofNat_of_lt hsmall
    have hfits : ChunkServed entries (UInt64.ofNat k) := by
      rw [chunkServed_iff, hindex]
      unfold WalkFits
      simp only [u64Size]
      omega
    rw [hfits build, hindex]
  refine ⟨_, mapM_eq_ok hserved, ?_⟩
  rw [flatten_chunks]
  refine List.take_of_length_le ?_
  rw [chunkCount, Nat.ceilDiv_eq_add_pred_div]
  omega

/-- **Which chunks are served.** A chunk is what the listing has at its places, in
either build, for just these indices; that is all indices for an empty store only.
The chunks that a store of a possible size has are among them, and are together the
listing. -/
theorem chunks_exact_iff (entries : List Entry) (chunkIndex : UInt64) :
    (ChunkServed entries chunkIndex ↔
      entries = [] ∨ (entries.length < u64Size ∧ chunkIndex.toNat * 100 < u64Size ∧
        (entries.length ≤ chunkIndex.toNat * 100 ∨ (chunkIndex.toNat + 1) * 100 < u64Size))) ∧
    ((∀ k, ChunkServed entries k) ↔ entries = []) ∧
    (entries.length ≤ 18446744073709551600 → ∀ build, ∃ chunks,
      (List.range (chunkCount entries.length 100)).mapM (fun k =>
        getSnapshotChunk build (entries.map .ok) (UInt64.ofNat k)) = .ok chunks ∧
      chunks.flatten = entries) := by
  refine ⟨(chunkServed_iff _ _).trans walkFits_zero, ?_, mapM_getSnapshotChunk⟩
  constructor
  · intro hall
    have hwalk := (chunkServed_iff _ _).mp (hall (UInt64.ofNat 4611686018427387904))
    refine (walkFits_zero.mp hwalk).resolve_right ?_
    rintro ⟨-, hfits, -⟩
    exact absurd hfits (by decide)
  · rintro rfl k
    exact (chunkServed_iff _ _).mpr (walkFits_zero.mpr (.inl rfl))

/-- At the index `2 ^ 62` the product overflows: with checks the request panics, without
them the first chunk is served again. -/
theorem syncSnapshot_wraps :
    let trie : StateTrie Hash := ⟨[], fun _ => 0⟩
    let items := [.ok ([1], [2])]
    let params := AList.singleton "chunk" "4611686018427387904"
    syncSnapshot .checked trie items params = .error .overflow ∧
      syncSnapshot .wrapping trie items params =
        .ok ⟨UInt64.ofNat 4611686018427387904, [([1], [2])], fun _ => 0⟩ :=
  ⟨rfl, rfl⟩

end Axionvera.Node.Snapshots

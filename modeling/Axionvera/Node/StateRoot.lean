import Axionvera.Lib.ExclusiveOr
import Mathlib.Data.Countable.Basic
import Mathlib.Logic.Encodable.Pi

/-! # The root of the state trie

`state_trie.rs`: an insertion writes a leaf under its hash into the database and
takes the hash into the root by exclusive or. The hashes are from any type with
an exclusive or; those of the source are the thirty-two bytes `Hash`. -/
namespace Axionvera.Node.StateRoot
open Axionvera.Lib.ExclusiveOr

abbrev Bytes : Type := List UInt8

abbrev Hash : Type := Fin 32 → UInt8

inductive TrieNode (H : Type) where
  | leaf (key value : Bytes)
  | branch (children : Fin 16 → Option H) (value : Option Bytes)
  | extension (sharedPrefix : Bytes) (child : H)

/-- The encoding of nodes as JSON, and the hash of bytes. -/
structure Coding (H : Type) where
  toVec : TrieNode H → Bytes
  sha256 : Bytes → H

def Coding.hashNode {H : Type} (coding : Coding H) (node : TrieNode H) : H :=
  coding.sha256 (coding.toVec node)

inductive DatabaseError where
  | queryError (text : String)

structure StateTrie (H : Type) where
  /-- What has been put into the database, the latest first. -/
  db : List (H × Bytes)
  rootHash : H

variable {H : Type} [XorGroup H]

namespace StateTrie

def new : StateTrie H := ⟨[], 0⟩

/-- `stored` is what the database answers to the put. -/
def insert (trie : StateTrie H) (coding : Coding H) (key value : Bytes)
    (stored : Except String Unit) : Except DatabaseError H × StateTrie H :=
  let node := .leaf key value
  match stored with
  | .error e => (.error (.queryError e), trie)
  | .ok _ =>
    let rootHash := trie.rootHash ^^^ coding.hashNode node
    (.ok rootHash, ⟨(coding.hashNode node, coding.toVec node) :: trie.db, rootHash⟩)

end StateTrie

/-- Over the source's own hashes, this is its loop over the bytes. -/
theorem insert_rootHash_byte (trie : StateTrie Hash) (coding : Coding Hash) (key value : Bytes)
    (i : Fin 32) : (trie.insert coding key value (.ok ())).2.rootHash i =
      trie.rootHash i ^^^ coding.hashNode (.leaf key value) i := rfl

/-- For a single hash, an insertion leaves the root as it is only if it hashes the
leaf to zero. -/
theorem insert_rootHash_eq_iff (trie : StateTrie H) (coding : Coding H) (key value : Bytes) :
    (trie.insert coding key value (.ok ())).2.rootHash = trie.rootHash ↔
      coding.hashNode (.leaf key value) = 0 := xor_eq_self

/-! ## Sequences of insertions -/

structure Insertion where
  key : Bytes
  value : Bytes
  stored : Except String Unit

/-- The trie after insertions, the latest of which comes first. -/
def trieAfter (coding : Coding H) (calls : List Insertion) : StateTrie H :=
  calls.foldr (fun call trie => (trie.insert coding call.key call.value call.stored).2) .new

def Insertion.write (call : Insertion) : Option (Bytes × Bytes) :=
  call.stored.toOption.map fun _ => (call.key, call.value)

/-- The pairs that were written. -/
def writes (calls : List Insertion) : List (Bytes × Bytes) := calls.filterMap Insertion.write

/-- The map that insertions denote: the last write to a key wins. -/
def denotes (calls : List Insertion) (key : Bytes) : Option Bytes := (writes calls).lookup key

theorem denotes_cons (key value : Bytes) (calls : List Insertion) (key' : Bytes) :
    denotes (⟨key, value, .ok ()⟩ :: calls) key' =
      if key' = key then some value else denotes calls key' := by
  show ((key, value) :: writes calls).lookup key' = _
  by_cases hkey : key' = key
  · subst hkey
    rw [List.lookup_cons_self, if_pos rfl]
  · rw [List.lookup_cons, beq_false_of_ne hkey, if_neg hkey]
    rfl

def Coding.leafHash (coding : Coding H) (pair : Bytes × Bytes) : H :=
  coding.hashNode (.leaf pair.1 pair.2)

/-- The root is the sum of the leaves ever written. -/
theorem rootHash_trieAfter (coding : Coding H) (calls : List Insertion) :
    (trieAfter coding calls).rootHash = xorSum ((writes calls).map coding.leafHash) := by
  induction calls with
  | nil => rfl
  | cons call calls ih =>
    obtain ⟨key, value, stored⟩ := call
    cases stored with
    | error e => exact ih
    | ok _ =>
      show (trieAfter coding calls).rootHash ^^^ coding.leafHash (key, value) =
        xorSum (coding.leafHash (key, value) :: (writes calls).map coding.leafHash)
      rw [ih, xorSum_cons, XorGroup.xor_comm]

/-- Whatever the hash, as long as different nodes have different ones, the two
sequences of insertions lead to the same root. -/
def SameRoot (calls calls' : List Insertion) : Prop :=
  ∀ (H : Type) [XorGroup H] (coding : Coding H), Function.Injective coding.hashNode →
    (trieAfter coding calls).rootHash = (trieAfter coding calls').rootHash

/-! ## A hash that shows everything -/

def TrieNode.parts : TrieNode Nat →
    (Bytes × Bytes) ⊕ ((Fin 16 → Option Nat) × Option Bytes) ⊕ (Bytes × Nat)
  | .leaf key value => .inl (key, value)
  | .branch children value => .inr (.inl (children, value))
  | .extension sharedPrefix child => .inr (.inr (sharedPrefix, child))

theorem parts_injective : Function.Injective TrieNode.parts := by
  intro a b h
  cases a <;> cases b <;> simp_all [TrieNode.parts]

theorem exists_code : ∃ code : TrieNode Nat → Nat, Function.Injective code := by
  have hbytes : Countable UInt8 := Function.Injective.countable fun _ _ => UInt8.toNat_inj.mp
  have hnodes : Countable (TrieNode Nat) := parts_injective.countable
  exact hnodes.exists_injective_nat

theorem pow_two_injective {code : TrieNode Nat → Nat} (hcode : Function.Injective code) :
    Function.Injective fun node => 2 ^ code node :=
  fun _ _ h => hcode (Nat.pow_right_injective (Nat.le_refl 2) h)

/-! ## What the root commits to -/

variable {calls calls' : List Insertion}

/-- The root commits to how often each pair was written, up to even numbers, and
to nothing else. -/
theorem sameRoot_iff : SameRoot calls calls' ↔ SameParity (writes calls) (writes calls') := by
  refine ⟨?_, ?_⟩
  · intro h
    obtain ⟨code, hcode⟩ := exists_code
    -- a bit for each node, through bytes of as many zeros
    let coding : Coding Nat :=
      ⟨fun node => List.replicate (code node) 0, fun bytes => 2 ^ bytes.length⟩
    have hhash : coding.hashNode = fun node => 2 ^ code node := by
      funext node
      simp [coding, Coding.hashNode]
    have hleaf : coding.leafHash = fun pair => 2 ^ code (.leaf pair.1 pair.2) := by
      funext pair
      rw [Coding.leafHash, hhash]
    have hcodeLeaf : Function.Injective fun pair : Bytes × Bytes => code (.leaf pair.1 pair.2) := by
      intro a b hab
      cases a
      cases b
      cases hcode hab
      rfl
    have hroot := h Nat coding (hhash ▸ pow_two_injective hcode)
    rw [rootHash_trieAfter, rootHash_trieAfter, hleaf] at hroot
    exact sameParity_of_xorSum_eq hcodeLeaf hroot
  · intro h H _ coding _
    rw [rootHash_trieAfter, rootHash_trieAfter]
    exact xorSum_map_congr coding.leafHash h

/-- **The state root commits to the state**, for two sequences of insertions that
denote the same map and every injective hash, exactly if each pair was written
equally often in both, up to even numbers. To insert the current pair of a key
again never leaves the root as it is. -/
theorem root_commits_iff (calls calls' : List Insertion) :
    ((denotes calls = denotes calls' → SameRoot calls calls') ↔
      (denotes calls = denotes calls' → SameParity (writes calls) (writes calls'))) ∧
    ∀ key value, (denotes calls key = some value → SameRoot (⟨key, value, .ok ()⟩ :: calls) calls) ↔
      denotes calls key ≠ some value := by
  refine ⟨?_, ?_⟩
  · rw [sameRoot_iff]
  · intro key value
    refine ⟨?_, ?_⟩
    · intro h hcurrent
      exact SameParity.not_cons (key, value) (writes calls) (sameRoot_iff.mp (h hcurrent))
    · intro hother hcurrent
      exact absurd hcurrent hother

def balance : Bytes := [98]

/-- A key that is written twice: the root still has the leaf that was replaced. -/
theorem replaced_leaf_stays_in_root :
    denotes [⟨balance, [2], .ok ()⟩, ⟨balance, [1], .ok ()⟩] = denotes [⟨balance, [2], .ok ()⟩] ∧
      ¬ SameRoot [⟨balance, [2], .ok ()⟩, ⟨balance, [1], .ok ()⟩] [⟨balance, [2], .ok ()⟩] := by
  refine ⟨?_, ?_⟩
  · funext key
    by_cases hkey : key = balance
    · simp [denotes_cons, hkey]
    · simp [denotes_cons, hkey]
  · intro h
    have hodd := sameRoot_iff.mp h (balance, [1])
    cases hodd

/-- Inserted twice, a pair is gone from the root. -/
theorem rootHash_insert_twice (coding : Coding H) (key value : Bytes) (calls : List Insertion) :
    (trieAfter coding (⟨key, value, .ok ()⟩ :: ⟨key, value, .ok ()⟩ :: calls)).rootHash =
      (trieAfter coding calls).rootHash := by
  rw [rootHash_trieAfter, rootHash_trieAfter]
  exact xor_xor_cancel_left _ _

/-! ## Keys that are written once -/

theorem mem_iff_lookup {l : List (Bytes × Bytes)} (h : (l.map Prod.fst).Nodup)
    (key value : Bytes) : (key, value) ∈ l ↔ l.lookup key = some value := by
  induction l with
  | nil => simp
  | cons pair l ih =>
    obtain ⟨key', value'⟩ := pair
    obtain ⟨hnew, hrest⟩ := List.nodup_cons.mp h
    by_cases hkey : key = key'
    · subst hkey
      have hnot : (key, value) ∉ l := fun hmem => hnew (List.mem_map.mpr ⟨_, hmem, rfl⟩)
      simp [List.lookup_cons_self, hnot, eq_comm]
    · simp [List.lookup_cons, hkey, beq_false_of_ne hkey, ih hrest]

/-- Where no key is written twice, the root does commit to the map. -/
theorem sameRoot_of_nodup_keys (h : ((writes calls).map Prod.fst).Nodup)
    (h' : ((writes calls').map Prod.fst).Nodup) (hsame : denotes calls = denotes calls') :
    SameRoot calls calls' := by
  have hperm : (writes calls).Perm (writes calls') := by
    refine (List.perm_ext_iff_of_nodup (.of_map _ h) (.of_map _ h')).mpr ?_
    intro pair
    rw [mem_iff_lookup h, mem_iff_lookup h']
    exact Eq.congr_left (congrFun hsame pair.1)
  exact sameRoot_iff.mpr (.of_perm hperm)

end Axionvera.Node.StateRoot

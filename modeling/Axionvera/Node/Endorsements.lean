import Axionvera.Node.Registry
import Mathlib.Logic.Relation

/-! # Counting endorsements

What `authorize_upgrade` makes of the voters under DAO governance: it depends on
the set of their normalized ids alone, so that the order, repetitions, blank
entries and spellings do not matter. The approvals are counted in a `u32`, and
the count is the number of distinct ids as long as that number fits. -/
namespace Axionvera.Node.Endorsements
open Axionvera.Lib.Trim Axionvera.Node.ChainParams Axionvera.Node.Registry ChainParameterRegistry

variable {r : ChainParameterRegistry} {members members' voters voters' : List String}
  {minApprovals : UInt32} {proposer v v' : String}

/-! ## Spellings -/

/-- From `A` to `z` there is no whitespace. -/
theorem isWhitespace_of_letter {c : Char} (hlow : 65 ≤ c.toNat) (hhigh : c.toNat ≤ 122) :
    isWhitespace c = false := by
  simp only [isWhitespace, Bool.or_eq_false_iff, Bool.and_eq_false_iff, decide_eq_false_iff_not,
    beq_eq_false_iff_ne]
  omega

theorem isWhitespace_toLower (c : Char) : isWhitespace c.toLower = isWhitespace c := by
  unfold Char.toLower
  split
  · rename_i hupper
    have hlow : 65 ≤ c.toNat := UInt32.le_iff_toNat_le.mp hupper.1
    have hhigh : c.toNat ≤ 90 := UInt32.le_iff_toNat_le.mp hupper.2
    have hsum : (c.val + ('a'.val - 'A'.val)).toNat = c.toNat + 32 := by
      have hgap : ('a'.val - 'A'.val).toNat = 32 := rfl
      rw [UInt32.toNat_add, hgap]
      change (c.toNat + 32) % _ = _
      omega
    rw [isWhitespace_of_letter (c := c) hlow (by omega)]
    refine isWhitespace_of_letter ?_ ?_
    · exact le_of_le_of_eq (by omega) hsum.symm
    · exact hsum.trans_le (by omega)
  · rfl

theorem normalizeId_eq (s : String) :
    normalizeId s = String.ofList (trim isWhitespace (s.toList.map Char.toLower)) := by
  rw [trim_map isWhitespace_toLower]
  rfl

/-- The second string is the first with letters in other cases and whitespace
around it. -/
def Respelled (v v' : String) : Prop := ∃ a m b, v'.toList = a ++ m ++ b ∧
  (∀ c ∈ a, isWhitespace c = true) ∧ (∀ c ∈ b, isWhitespace c = true) ∧
  m.map Char.toLower = v.toList.map Char.toLower

theorem normalizeId_of_respelled (h : Respelled v v') : normalizeId v' = normalizeId v := by
  obtain ⟨a, m, b, htext, ha, hb, hm⟩ := h
  have hlower : ∀ l : List Char, (∀ c ∈ l, isWhitespace c = true) →
      ∀ c ∈ l.map Char.toLower, isWhitespace c = true := by
    intro l hl c hc
    obtain ⟨d, hd, rfl⟩ := List.mem_map.mp hc
    rw [isWhitespace_toLower]
    exact hl d hd
  rw [normalizeId_eq, normalizeId_eq, htext, List.map_append, List.map_append, hm,
    trim_append_right (hlower b hb), trim_append_left (hlower a ha)]

theorem normalizeId_of_blank (h : ∀ c ∈ v.toList, isWhitespace c = true) : normalizeId v = "" := by
  rw [normalizeId, trim_eq_nil h]
  rfl

/-! ## Variants of an endorsement -/

/-- The changes to the list of voters that should not matter. -/
inductive Variant : List String → List String → Prop
  | permute {l l' : List String} : l.Perm l' → Variant l l'
  | repeated {v : String} (front back : List String) : v ∈ front ++ back →
      Variant (front ++ back) (front ++ v :: back)
  | blank {v : String} (front back : List String) : (∀ c ∈ v.toList, isWhitespace c = true) →
      Variant (front ++ back) (front ++ v :: back)
  | respell {l l' : List String} : List.Forall₂ Respelled l l' → Variant l l'

/-- Two lists of voters that give the same ids, blank ones aside. -/
def SameIds (voters voters' : List String) : Prop :=
  ∀ n ≠ "", n ∈ voters.map normalizeId ↔ n ∈ voters'.map normalizeId

theorem map_normalizeId_of_respelled (h : List.Forall₂ Respelled voters voters') :
    voters'.map normalizeId = voters.map normalizeId := by
  induction h with
  | nil => rfl
  | cons hv _ ih => rw [List.map_cons, List.map_cons, ih, normalizeId_of_respelled hv]

theorem sameIds_of_variant (h : Variant voters voters') : SameIds voters voters' := by
  intro n hn
  cases h with
  | permute hperm => exact (hperm.map normalizeId).mem_iff
  | repeated front back hv =>
    have := List.mem_map_of_mem (f := normalizeId) hv
    grind
  | blank front back hv =>
    have := normalizeId_of_blank hv
    grind
  | respell hall => rw [map_normalizeId_of_respelled hall]

theorem sameIds_of_eqvGen (h : Relation.EqvGen Variant voters voters') :
    SameIds voters voters' := by
  induction h with
  | rel _ _ hone => exact sameIds_of_variant hone
  | refl _ => exact fun _ _ => Iff.rfl
  | symm _ _ _ ih => exact fun n hn => (ih n hn).symm
  | trans _ _ _ _ _ ih₁ ih₂ => exact fun n hn => (ih₁ n hn).trans (ih₂ n hn)

theorem map_normalizeId_of_eqvGen (h : Relation.EqvGen (List.Forall₂ Respelled) members members') :
    members'.map normalizeId = members.map normalizeId := by
  induction h with
  | rel _ _ hone => exact map_normalizeId_of_respelled hone
  | refl _ => rfl
  | symm _ _ _ ih => exact ih.symm
  | trans _ _ _ _ _ ih₁ ih₂ => exact ih₂.trans ih₁

theorem mem_signers {n : String} : n ∈ signers voters ↔ n ∈ voters.map normalizeId ∧ n ≠ "" := by
  simp [signers]

theorem signers_eq_of_sameIds (h : SameIds voters voters') : signers voters' = signers voters := by
  ext n
  rw [mem_signers, mem_signers]
  exact and_congr_left fun hn => (h n hn).symm

/-- Endorsement is a matter of the set of ids. -/
theorem endorsed_iff_signers :
    Endorsed members voters ↔ ∀ n ∈ signers voters, n ∈ members.map normalizeId := by
  refine ⟨?_, ?_⟩
  · intro h n hn
    obtain ⟨hmem, hne⟩ := mem_signers.mp hn
    obtain ⟨v, hv, rfl⟩ := List.mem_map.mp hmem
    exact (h v hv).resolve_left hne
  · intro h v hv
    by_cases hblank : normalizeId v = ""
    · exact Or.inl hblank
    · exact Or.inr (h _ (mem_signers.mpr ⟨List.mem_map_of_mem hv, hblank⟩))

/-! ## The count -/

/-- What an exact count of the distinct ids would accept. -/
def Sufficient (members : List String) (minApprovals : UInt32) (voters : List String) : Prop :=
  0 < minApprovals ∧ Endorsed members voters ∧ minApprovals.toNat ≤ (signers voters).card

theorem authorizeUpgrade_iff (r : ChainParameterRegistry) (proposer : String) :
    { r with governance := .dao members minApprovals }.authorizeUpgrade proposer voters = .ok () ↔
      0 < minApprovals ∧ Endorsed members voters ∧
        minApprovals.toNat ≤ (signers voters).card % 4294967296 := by
  rw [authorizeUpgrade_dao rfl, UInt32.pos_iff_ne_zero, UInt32.le_iff_toNat_le, UInt32.toNat_ofNat']

/-- DAO governance counts the distinct ids exactly if and only if the number of
them, where it suffices, still does after it is kept in 32 bits. The outcome is
the same for every variant of the voters and every spelling of the members. -/
theorem authorizeUpgrade_exact_iff (r : ChainParameterRegistry) (members voters : List String)
    (minApprovals : UInt32) (proposer : String) :
    (({ r with governance := .dao members minApprovals }.authorizeUpgrade proposer voters = .ok () ↔
        Sufficient members minApprovals voters) ↔
      (Sufficient members minApprovals voters →
        minApprovals.toNat ≤ (signers voters).card % 4294967296)) ∧
    ∀ members' voters', Relation.EqvGen (List.Forall₂ Respelled) members members' →
      Relation.EqvGen Variant voters voters' →
      ({ r with governance := .dao members' minApprovals }.authorizeUpgrade proposer voters' =
          .ok () ↔
        { r with governance := .dao members minApprovals }.authorizeUpgrade proposer voters =
          .ok ()) := by
  refine ⟨?_, ?_⟩
  · rw [authorizeUpgrade_iff]
    have hwrapped : (signers voters).card % 4294967296 ≤ (signers voters).card := Nat.mod_le _ _
    refine ⟨?_, ?_⟩
    · intro h hsufficient
      exact (h.mpr hsufficient).2.2
    · intro h
      refine ⟨?_, ?_⟩
      · intro hok
        exact ⟨hok.1, hok.2.1, hok.2.2.trans hwrapped⟩
      · intro hsufficient
        exact ⟨hsufficient.1, hsufficient.2.1, h hsufficient⟩
  · intro members' voters' hmembers hvoters
    rw [authorizeUpgrade_iff, authorizeUpgrade_iff, endorsed_iff_signers, endorsed_iff_signers,
      signers_eq_of_sameIds (sameIds_of_eqvGen hvoters), map_normalizeId_of_eqvGen hmembers]

/-- **Endorsements**: with fewer than 4294967296 distinct ids, the upgrade is
authorized exactly if every voter that is not blank is a member and there are
enough different ones, for every variant of the voters and every spelling of the
members alike. -/
theorem authorizeUpgrade_exact (r : ChainParameterRegistry) (members voters : List String)
    (minApprovals : UInt32) (proposer : String) (hfew : (signers voters).card < 4294967296) :
    ({ r with governance := .dao members minApprovals }.authorizeUpgrade proposer voters = .ok () ↔
      Sufficient members minApprovals voters) ∧
    ∀ members' voters', Relation.EqvGen (List.Forall₂ Respelled) members members' →
      Relation.EqvGen Variant voters voters' →
      ({ r with governance := .dao members' minApprovals }.authorizeUpgrade proposer voters' =
          .ok () ↔
        { r with governance := .dao members minApprovals }.authorizeUpgrade proposer voters =
          .ok ()) := by
  obtain ⟨hexact, hvariants⟩ := authorizeUpgrade_exact_iff r members voters minApprovals proposer
  refine ⟨hexact.mpr ?_, hvariants⟩
  intro hsufficient
  rw [Nat.mod_eq_of_lt hfew]
  exact hsufficient.2.2

/-- Two of three members, one of them twice and in two spellings, and a blank. -/
theorem authorizeUpgrade_exact_council :
    (signers ["m1", " M2 ", "m2", " "]).card < 4294967296 ∧
      Sufficient ["m1", "m2", "m3"] 2 ["m1", " M2 ", "m2", " "] ∧
      councilRegistry.authorizeUpgrade "m1" ["m1", " M2 ", "m2", " "] = .ok () := by
  have hfew : (signers ["m1", " M2 ", "m2", " "]).card < 4294967296 := by decide
  have hsufficient : Sufficient ["m1", "m2", "m3"] 2 ["m1", " M2 ", "m2", " "] :=
    ⟨by decide, by decide, by decide⟩
  exact ⟨hfew, hsufficient,
    (authorizeUpgrade_exact councilRegistry ["m1", "m2", "m3"] _ 2 "m1" hfew).1.mpr hsufficient⟩

/-! ## A crowd -/

/-- The id of `n + 1` letters. -/
def letters (n : Nat) : String := String.ofList (List.replicate (n + 1) 'a')

theorem core_letters (n : Nat) : Core isWhitespace (List.replicate (n + 1) 'a') where
  nonempty := List.replicate_succ_ne_nil
  head c hc := by
    cases hc
    decide
  last c hc := by
    rw [List.eq_of_mem_replicate (List.mem_of_getLast? hc)]
    decide

theorem normalizeId_letters (n : Nat) : normalizeId (letters n) = letters n := by
  have hlower : Char.toLower 'a' = 'a' := by decide
  rw [normalizeId, letters, String.toList_ofList, trim_of_core (core_letters n),
    List.map_replicate, hlower]

theorem letters_injective : Function.Injective letters := by
  intro m n h
  have hlength := congrArg String.length h
  simpa [letters] using hlength

theorem letters_ne_empty (n : Nat) : letters n ≠ "" := by
  intro h
  have hlength := congrArg String.length h
  simp [letters] at hlength

/-- As many members as `n`, each with an id of their own. -/
def crowd (n : Nat) : List String := (List.range n).map letters

theorem signers_crowd (n : Nat) : (signers (crowd n)).card = n := by
  have hids : (crowd n).map normalizeId = crowd n := by
    simp [crowd, normalizeId_letters]
  have hgiven : (crowd n).filter (fun id => id ≠ "") = crowd n := by
    refine List.filter_eq_self.mpr ?_
    intro id hid
    obtain ⟨k, -, rfl⟩ := List.mem_map.mp hid
    simpa using letters_ne_empty k
  have hnodup : (crowd n).Nodup := List.nodup_range.map letters_injective
  rw [signers, hids, hgiven, List.toFinset_card_of_nodup hnodup, crowd, List.length_map,
    List.length_range]

theorem sufficient_crowd {n : Nat} (h : 0 < n) : Sufficient (crowd n) 1 (crowd n) := by
  refine ⟨by decide, ?_, ?_⟩
  · intro v hv
    exact Or.inr (List.mem_map_of_mem hv)
  · rw [signers_crowd]
    exact h

/-- All of 4294967296 members endorse an upgrade that needs one approval, and
the count of them is zero. -/
theorem crowd_not_counted :
    Sufficient (crowd 4294967296) 1 (crowd 4294967296) ∧
      ∀ (r : ChainParameterRegistry) (proposer : String),
        { r with governance := .dao (crowd 4294967296) 1 }.authorizeUpgrade proposer
          (crowd 4294967296) ≠ .ok () := by
  refine ⟨sufficient_crowd (by decide), ?_⟩
  intro r proposer
  rw [Ne, authorizeUpgrade_iff, signers_crowd]
  rintro ⟨-, -, hcount⟩
  exact absurd hcount (by decide)

end Axionvera.Node.Endorsements

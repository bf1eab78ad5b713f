import Mathlib.Data.List.Basic
import Mathlib.Data.List.Induction

/-! # Values that later entries override

A log of entries, each of which may set a value, against an ordered map that
keeps one merged entry for each rank. Reading the map in the order of its keys
gives the value of the entry that is greatest by rank and then by its place in
the log. -/
namespace Axionvera.Lib.Override
open Std

section Latest
variable {α β γ : Type}

/-- The value of the last entry that sets one. -/
def latest (get : α → Option β) (l : List α) : Option β := l.reverse.findSome? get

@[simp] theorem latest_nil (get : α → Option β) : latest get [] = none := rfl

@[simp] theorem latest_concat (get : α → Option β) (l : List α) (a : α) :
    latest get (l ++ [a]) = (get a).or (latest get l) := by
  unfold latest
  rw [List.reverse_concat, List.findSome?_cons]
  cases get a <;> rfl

theorem latest_eq_none_iff {get : α → Option β} {l : List α} :
    latest get l = none ↔ ∀ a ∈ l, get a = none := by
  simp [latest]

theorem latest_eq_some_iff {get : α → Option β} {l : List α} {v : β} :
    latest get l = some v ↔
      ∃ before a after, l = before ++ a :: after ∧ get a = some v ∧ ∀ b ∈ after, get b = none := by
  unfold latest
  rw [List.findSome?_eq_some_iff]
  refine ⟨?_, ?_⟩
  · intro h
    obtain ⟨after, a, before, hl, ha, hafter⟩ := h
    refine ⟨before.reverse, a, after.reverse, ?_, ha, fun b hb => hafter b (by simpa using hb)⟩
    have := congrArg List.reverse hl
    simpa using this
  · intro h
    obtain ⟨before, a, after, rfl, ha, hafter⟩ := h
    exact ⟨after.reverse, a, before.reverse, by simp, ha, fun b hb => hafter b (by simpa using hb)⟩

theorem exists_of_latest {get : α → Option β} {l : List α} {v : β} (h : latest get l = some v) :
    ∃ a ∈ l, get a = some v := by
  obtain ⟨before, a, after, rfl, ha, -⟩ := latest_eq_some_iff.mp h
  exact ⟨a, by simp, ha⟩

/-- The order does not show where all entries that set a value set the same. -/
theorem latest_perm {get : α → Option β} {l l' : List α} (h : l.Perm l')
    (hsame : ∀ a ∈ l, ∀ b ∈ l, ∀ v w, get a = some v → get b = some w → v = w) :
    latest get l = latest get l' := by
  cases hl : latest get l' with
  | none =>
    rw [latest_eq_none_iff] at hl ⊢
    intro a ha
    exact hl a (h.mem_iff.mp ha)
  | some w =>
    obtain ⟨b, hb, hw⟩ := exists_of_latest hl
    have hb' := h.mem_iff.mpr hb
    cases hv : latest get l with
    | none => rw [latest_eq_none_iff.mp hv b hb'] at hw; cases hw
    | some v =>
      obtain ⟨a, ha, hv⟩ := exists_of_latest hv
      rw [hsame a ha b hb' v w hv hw]

/-- Entries that set nothing may be left out. -/
theorem latest_filter {get : α → Option β} {keep : α → Bool} {l : List α}
    (h : ∀ a ∈ l, get a ≠ none → keep a = true) : latest get (l.filter keep) = latest get l := by
  induction l using List.reverseRecOn with
  | nil => rfl
  | append_singleton l a ih =>
    have ih := ih fun b hb => h b (List.mem_append_left _ hb)
    rw [List.filter_append, latest_concat]
    cases hk : keep a with
    | true => rw [List.filter_singleton, hk, cond_true, latest_concat, ih]
    | false =>
      have hnone : get a = none := by
        by_contra hget
        rw [h a (by simp) hget] at hk
        cases hk
      rw [List.filter_singleton, hk, cond_false, List.append_nil, ih, hnone, Option.none_or]

theorem latest_map {δ : Type} (get : α → Option β) (f : δ → α) (l : List δ) :
    latest get (l.map f) = latest (fun d => get (f d)) l := by
  unfold latest
  rw [← List.map_reverse, List.findSome?_map]
  rfl

/-- What a loop leaves in a variable that each entry may overwrite. -/
theorem read_foldl {read : γ → β} {write : γ → α → γ} {get : α → Option β}
    (h : ∀ c a, read (write c a) = (get a).getD (read c)) (l : List α) (c : γ) :
    read (l.foldl write c) = (latest get l).getD (read c) := by
  induction l using List.reverseRecOn with
  | nil => rfl
  | append_singleton l a ih =>
    rw [List.foldl_concat, h, ih, latest_concat]
    cases get a <;> rfl

end Latest

/-! ## The map -/

section Ordered
variable {κ δ β : Type} [Ord κ] [TransOrd κ] [LawfulEqOrd κ]

/-- What a map sets under a key. -/
def setting (m : ExtTreeMap κ δ) (get : δ → Option β) (k : κ) : Option β := m[k]?.bind get

/-- Merging an entry into what is stored under its key. -/
theorem setting_alter [DecidableEq κ] (m : ExtTreeMap κ δ) (get : δ → Option β) (k : κ)
    {f : Option δ → δ} {v : Option β} (h : get (f m[k]?) = v.or (setting m get k)) (i : κ) :
    setting (m.alter k fun o => some (f o)) get i =
      (if k = i then v else none).or (setting m get i) := by
  unfold setting at h ⊢
  rw [ExtTreeMap.getElem?_alter]
  by_cases hk : k = i
  · subst hk
    simpa using h
  · simp [hk]

/-- The value that the keys of a set, read in their order, leave. -/
def inOrder (m : ExtTreeMap κ δ) (get : δ → Option β) (among : κ → Prop) [DecidablePred among] :
    Option β :=
  latest (fun e => if among e.1 then get e.2 else none) m.toList

variable {m : ExtTreeMap κ δ} {get : δ → Option β} {among : κ → Prop} [DecidablePred among]

theorem setting_of_mem {k : κ} {d : δ} (h : (k, d) ∈ m.toList) : setting m get k = get d := by
  simp [setting, ExtTreeMap.mem_toList_iff_getElem?_eq_some.mp h]

theorem exists_mem_of_setting {k : κ} {v : β} (h : setting m get k = some v) :
    ∃ d, (k, d) ∈ m.toList ∧ get d = some v := by
  obtain ⟨d, hd, hv⟩ := Option.bind_eq_some_iff.mp h
  exact ⟨d, ExtTreeMap.mem_toList_iff_getElem?_eq_some.mpr hd, hv⟩

theorem inOrder_eq_none_iff :
    inOrder m get among = none ↔ ∀ k, among k → setting m get k = none := by
  unfold inOrder
  rw [latest_eq_none_iff]
  refine ⟨?_, ?_⟩
  · intro h k hk
    by_contra hset
    obtain ⟨v, hv⟩ := Option.ne_none_iff_exists'.mp hset
    obtain ⟨d, hmem, hd⟩ := exists_mem_of_setting hv
    have := h (k, d) hmem
    simp [hk, hd] at this
  · intro h e he
    split
    · rename_i hk
      rw [← h e.1 hk, setting_of_mem he]
    · rfl

variable [LE κ] [LT κ] [IsLinearOrder κ] [LawfulOrderLT κ] [LawfulOrderOrd κ]

theorem greatest_of_inOrder {v : β} (h : inOrder m get among = some v) :
    ∃ k, among k ∧ setting m get k = some v ∧
      ∀ i, among i → k < i → setting m get i = none := by
  obtain ⟨before, e, after, hl, he, hafter⟩ := latest_eq_some_iff.mp h
  have hmem : e ∈ m.toList := by rw [hl]; simp
  have hsorted := ExtTreeMap.ordered_keys_toList (t := m)
  rw [hl, List.pairwise_append] at hsorted
  obtain ⟨-, -, hlt⟩ := hsorted
  have hk : among e.1 := by
    by_contra hk
    simp [hk] at he
  rw [if_pos hk] at he
  refine ⟨e.1, hk, (setting_of_mem hmem).trans he, ?_⟩
  intro i hi hlate
  by_contra hset
  obtain ⟨w, hw⟩ := Option.ne_none_iff_exists'.mp hset
  obtain ⟨d, hmem', hd⟩ := exists_mem_of_setting hw
  rw [hl] at hmem'
  -- the entry of a greater key stands behind `e`
  rcases List.mem_append.mp hmem' with hb | hb
  · have := compare_eq_lt.mp (hlt _ hb e (by simp))
    grind
  · rcases List.mem_cons.mp hb with hb | hb
    · subst hb
      grind
    · have := hafter _ hb
      simp [hi, hd] at this

/-- The value is set by the greatest of those keys that sets one. -/
theorem inOrder_eq_some_iff {v : β} :
    inOrder m get among = some v ↔
      ∃ k, among k ∧ setting m get k = some v ∧
        ∀ i, among i → k < i → setting m get i = none := by
  refine ⟨greatest_of_inOrder, ?_⟩
  intro h
  obtain ⟨k, hk, hv, hlate⟩ := h
  cases ho : inOrder m get among with
  | none =>
    rw [inOrder_eq_none_iff.mp ho k hk] at hv
    cases hv
  | some w =>
    obtain ⟨i, hi, hw, hlate'⟩ := greatest_of_inOrder ho
    -- neither of two greatest keys is below the other
    have hki : ¬ k < i := fun hki => by simp [hlate i hi hki] at hw
    have hik : ¬ i < k := fun hik => by simp [hlate' k hk hik] at hv
    have heq : i = k := by grind
    rw [← hw, heq, hv]

/-- Two maps that set the same under each of the keys leave the same. -/
theorem inOrder_congr {m' : ExtTreeMap κ δ} (h : ∀ k, among k → setting m get k = setting m' get k) :
    inOrder m get among = inOrder m' get among := by
  cases ho : inOrder m' get among with
  | none =>
    rw [inOrder_eq_none_iff] at ho ⊢
    intro k hk
    rw [h k hk, ho k hk]
  | some v =>
    rw [inOrder_eq_some_iff] at ho ⊢
    obtain ⟨k, hk, hv, hlate⟩ := ho
    exact ⟨k, hk, (h k hk).trans hv, fun i hi hki => (h i hi).trans (hlate i hi hki)⟩

end Ordered

/-! ## The log -/

section Log
variable {κ α β : Type}

/-- Of the entries in a part of a log that set a value, the one at place `i` is
greatest by rank and then by place. -/
structure Governs [LT κ] (rank : α → κ) (among : α → Prop) (get : α → Option β) (log : List α)
    (i : Nat) (a : α) : Prop where
  placed : log[i]? = some a
  chosen : among a
  sets : get a ≠ none
  greatest : ∀ j b, log[j]? = some b → among b → get b ≠ none →
    rank b < rank a ∨ rank b = rank a ∧ j ≤ i

/-- The value of the entry that governs, or the base value if nothing sets one. -/
def Replays [LT κ] (rank : α → κ) (among : α → Prop) (get : α → Option β) (base : β)
    (log : List α) (x : β) : Prop :=
  (∃ i a, Governs rank among get log i a ∧ get a = some x) ∨
    (∀ a ∈ log, among a → get a = none) ∧ x = base

/-- Only which entries of the log are chosen matters. -/
theorem Replays.congr [LT κ] {rank : α → κ} {among among' : α → Prop} {get : α → Option β}
    {base : β} {log : List α} {x : β} (h : ∀ a ∈ log, among a ↔ among' a)
    (hr : Replays rank among get base log x) : Replays rank among' get base log x := by
  rcases hr with hr | hr
  · obtain ⟨i, a, hgov, hx⟩ := hr
    refine Or.inl ⟨i, a, ⟨hgov.placed, ?_, hgov.sets, ?_⟩, hx⟩
    · exact (h a (List.mem_of_getElem? hgov.placed)).mp hgov.chosen
    · intro j b hb hamong
      exact hgov.greatest j b hb ((h b (List.mem_of_getElem? hb)).mpr hamong)
  · obtain ⟨hnone, hx⟩ := hr
    exact Or.inr ⟨fun a ha hamong => hnone a ha ((h a ha).mpr hamong), hx⟩

/-- What the entries of one rank set, the last one first. -/
def atRank [DecidableEq κ] (rank : α → κ) (get : α → Option β) (log : List α) (k : κ) : Option β :=
  latest (fun a => if rank a = k then get a else none) log

theorem atRank_concat [DecidableEq κ] (rank : α → κ) (get : α → Option β) (log : List α) (a : α)
    (k : κ) : atRank rank get (log ++ [a]) k =
      (if rank a = k then get a else none).or (atRank rank get log k) :=
  latest_concat _ log a

theorem atRank_ne_none [DecidableEq κ] {rank : α → κ} {get : α → Option β} {log : List α} {a : α}
    (ha : a ∈ log) (hget : get a ≠ none) : atRank rank get log (rank a) ≠ none := by
  intro h
  have := latest_eq_none_iff.mp h a ha
  exact hget (by simpa using this)

end Log

section Refinement
variable {κ α δ β : Type} [DecidableEq κ] [Ord κ] [TransOrd κ] [LawfulEqOrd κ]
variable [LE κ] [LT κ] [IsLinearOrder κ] [LawfulOrderLT κ] [LawfulOrderOrd κ]

/-- A map that keeps for each rank what the log sets at it, read in the order of
its keys, is the replay of the log. -/
theorem replays_inOrder {m : ExtTreeMap κ δ} {set : δ → Option β} {rank : α → κ}
    {get : α → Option β} {log : List α} (h : ∀ k, setting m set k = atRank rank get log k)
    (among : κ → Prop) [DecidablePred among] (base : β) :
    Replays rank (fun a => among (rank a)) get base log ((inOrder m set among).getD base) := by
  cases ho : inOrder m set among with
  | none =>
    refine Or.inr ⟨?_, rfl⟩
    intro a ha hamong
    by_contra hset
    exact atRank_ne_none ha hset ((h _).symm.trans (inOrder_eq_none_iff.mp ho _ hamong))
  | some v =>
    obtain ⟨k, hk, hv, hlate⟩ := inOrder_eq_some_iff.mp ho
    obtain ⟨before, a, after, hlog, ha, hafter⟩ := latest_eq_some_iff.mp ((h k).symm.trans hv)
    have hrank : rank a = k := by
      by_contra hne
      simp [hne] at ha
    subst hrank
    rw [if_pos rfl] at ha
    refine Or.inl ⟨before.length, a, ⟨by simp [hlog], hk, by simp [ha], ?_⟩, by simpa using ha⟩
    intro j b hb hbamong hbset
    have hbmem : b ∈ log := List.mem_of_getElem? hb
    have hnotlate : ¬ rank a < rank b := fun hlt =>
      atRank_ne_none hbmem hbset ((h _).symm.trans (hlate _ hbamong hlt))
    by_cases heq : rank b = rank a
    · refine Or.inr ⟨heq, ?_⟩
      by_contra hj
      -- a later entry of the same rank stands in `after`, where nothing is set
      have hbafter : b ∈ after := by
        rw [hlog, List.getElem?_append_right (by omega), List.getElem?_cons] at hb
        rw [if_neg (by omega)] at hb
        exact List.mem_of_getElem? hb
      have := hafter b hbafter
      exact hbset (by simpa [heq] using this)
    · left
      grind

end Refinement
end Axionvera.Lib.Override

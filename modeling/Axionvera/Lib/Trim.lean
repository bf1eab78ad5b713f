import Mathlib.Data.List.DropRight

/-! # Trimming and splitting

A text is trimmed of the items at its ends that `p` holds of, and split at the
first occurrence of an item. What a parser made of the two accepts is then read
off as a concatenation (`trim_eq_iff`, `splitOnce_eq_some`). -/
namespace Axionvera.Lib.Trim

variable {α : Type} {p : α → Bool} {l t a b : List α}

def trim (p : α → Bool) (l : List α) : List α := (l.dropWhile p).rdropWhile p

/-- A text that is not empty and that nothing is trimmed of. -/
structure Core (p : α → Bool) (t : List α) : Prop where
  nonempty : t ≠ []
  head : ∀ x ∈ t.head?, p x = false
  last : ∀ x ∈ t.getLast?, p x = false

/-- `l` is `t` with items around it that are trimmed. -/
def Padded (p : α → Bool) (l t : List α) : Prop :=
  ∃ a b, l = a ++ t ++ b ∧ (∀ x ∈ a, p x = true) ∧ ∀ x ∈ b, p x = true

theorem dropWhile_eq_self_of_head (h : ∀ x ∈ l.head?, p x = false) : l.dropWhile p = l := by
  cases l with
  | nil => rfl
  | cons x rest => exact List.dropWhile_cons_of_neg (by simp [h x rfl])

theorem head_dropWhile (p : α → Bool) (l : List α) : ∀ x ∈ (l.dropWhile p).head?, p x = false := by
  intro x hx
  have hnot := List.head?_dropWhile_not p l
  rwa [Option.mem_def.mp hx] at hnot

theorem dropWhile_eq_append (p : α → Bool) (l : List α) :
    ∃ a, l = a ++ l.dropWhile p ∧ ∀ x ∈ a, p x = true :=
  ⟨l.takeWhile p, List.takeWhile_append_dropWhile.symm, fun _ hx => List.mem_takeWhile_imp hx⟩

theorem rdropWhile_eq_append (p : α → Bool) (l : List α) :
    ∃ b, l = l.rdropWhile p ++ b ∧ ∀ x ∈ b, p x = true := by
  obtain ⟨a, heq, ha⟩ := dropWhile_eq_append p l.reverse
  refine ⟨a.reverse, ?_, ?_⟩
  · rw [List.rdropWhile, ← List.reverse_append, ← heq, List.reverse_reverse]
  · intro x hx
    exact ha x (List.mem_reverse.mp hx)

theorem last_rdropWhile (p : α → Bool) (l : List α) :
    ∀ x ∈ (l.rdropWhile p).getLast?, p x = false := by
  rw [List.rdropWhile, List.getLast?_reverse]
  exact head_dropWhile p l.reverse

theorem padded_trim (p : α → Bool) (l : List α) : Padded p l (trim p l) := by
  obtain ⟨a, hl, ha⟩ := dropWhile_eq_append p l
  obtain ⟨b, hd, hb⟩ := rdropWhile_eq_append p (l.dropWhile p)
  refine ⟨a, b, ?_, ha, hb⟩
  rw [trim, List.append_assoc, ← hd]
  exact hl

/-- What is left of a text starts where trimming stopped. -/
theorem core_trim (h : trim p l ≠ []) : Core p (trim p l) := by
  refine ⟨h, ?_, last_rdropWhile p _⟩
  obtain ⟨b, hd, -⟩ := rdropWhile_eq_append p (l.dropWhile p)
  intro x hx
  have hhead : (l.dropWhile p).head? = (trim p l).head? := by
    rw [hd]
    exact List.head?_append_of_ne_nil _ h
  exact head_dropWhile p l x (hhead ▸ hx)

theorem trim_append_left (ha : ∀ x ∈ a, p x = true) (l : List α) : trim p (a ++ l) = trim p l := by
  rw [trim, List.dropWhile_append_of_pos ha, trim]

theorem trim_append_right (hb : ∀ x ∈ b, p x = true) (l : List α) : trim p (l ++ b) = trim p l := by
  have hb' : ∀ x ∈ b.reverse, p x = true := fun x hx => hb x (List.mem_reverse.mp hx)
  unfold trim
  rw [List.dropWhile_append]
  split
  · rename_i hnone
    rw [List.isEmpty_iff.mp hnone, List.dropWhile_eq_nil_iff.mpr hb]
  · rw [List.rdropWhile, List.reverse_append, List.dropWhile_append_of_pos hb', List.rdropWhile]

theorem trim_of_core (ht : Core p t) : trim p t = t := by
  have hlast : ∀ x ∈ t.reverse.head?, p x = false := by
    rw [List.head?_reverse]
    exact ht.last
  rw [trim, dropWhile_eq_self_of_head ht.head, List.rdropWhile, dropWhile_eq_self_of_head hlast,
    List.reverse_reverse]

theorem trim_of_padded (ht : Core p t) (hl : Padded p l t) : trim p l = t := by
  obtain ⟨a, b, rfl, ha, hb⟩ := hl
  rw [trim_append_right hb, trim_append_left ha, trim_of_core ht]

theorem trim_eq_nil (h : ∀ x ∈ l, p x = true) : trim p l = [] := by
  rw [trim, List.dropWhile_eq_nil_iff.mpr h]
  rfl

theorem trim_map {f : α → α} (hf : ∀ x, p (f x) = p x) (l : List α) :
    trim p (l.map f) = (trim p l).map f := by
  have hcomp : p ∘ f = p := funext hf
  simp only [trim, List.rdropWhile, List.dropWhile_map, hcomp, ← List.map_reverse]

theorem trim_eq_iff : trim p l = t ∧ t ≠ [] ↔ Core p t ∧ Padded p l t := by
  constructor
  · rintro ⟨rfl, hne⟩
    exact ⟨core_trim hne, padded_trim p l⟩
  · rintro ⟨ht, hl⟩
    exact ⟨trim_of_padded ht hl, ht.nonempty⟩

/-! ## Splitting -/

/-- The parts of a list before and after the first `c`. -/
def splitOnce [DecidableEq α] (c : α) : List α → Option (List α × List α)
  | [] => none
  | x :: rest =>
    if x = c then some ([], rest) else (splitOnce c rest).map fun (a, b) => (x :: a, b)

theorem splitOnce_eq_some [DecidableEq α] {c : α} :
    splitOnce c l = some (a, b) ↔ l = a ++ c :: b ∧ c ∉ a := by
  induction l generalizing a with
  | nil => simp [splitOnce]
  | cons x rest ih =>
    rw [splitOnce]
    split
    · rename_i hx
      subst hx
      cases a with
      | nil => simp [eq_comm]
      | cons y a => simp +contextual
    · rename_i hx
      cases a with
      | nil => simp [hx]
      | cons y a =>
        have hiff := @ih a
        simp only [Option.map_eq_some_iff, Prod.mk.injEq, Prod.exists, List.cons_append,
          List.cons.injEq, List.mem_cons, not_or]
        constructor
        · rintro ⟨a', b', hs, ⟨rfl, rfl⟩, rfl⟩
          obtain ⟨hrest, hmem⟩ := hiff.mp hs
          exact ⟨⟨rfl, hrest⟩, fun h => hx h.symm, hmem⟩
        · rintro ⟨⟨rfl, hrest⟩, -, hmem⟩
          exact ⟨a, b, hiff.mpr ⟨hrest, hmem⟩, ⟨rfl, rfl⟩, rfl⟩

end Axionvera.Lib.Trim

import Mathlib.Data.List.Basic
import Mathlib.Data.List.Nodup

/-! # Maps that store each value under its own key

Such a map is the list of its values, no two of which carry the same key. The
order of the list is the order in which the map is read. -/
namespace Axionvera.Lib.OwnKey

structure KeyedMap {κ ν : Type} (key : ν → κ) where
  values : List ν
  distinct : (values.map key).Nodup

namespace KeyedMap
variable {κ ν : Type} {key : ν → κ}

def empty : KeyedMap key := ⟨[], List.nodup_nil⟩

def keys (m : KeyedMap key) : List κ := m.values.map key

variable [DecidableEq κ]

def get (m : KeyedMap key) (k : κ) : Option ν := m.values.find? fun v => key v = k

/-- Store a value under its key, in the place of what was there. -/
def insert (m : KeyedMap key) (v : ν) : KeyedMap key where
  values := v :: m.values.filter fun w => key w ≠ key v
  distinct := by
    rw [List.map_cons, List.nodup_cons]
    refine ⟨?_, m.distinct.sublist (List.filter_sublist.map key)⟩
    intro h
    obtain ⟨w, hw, hkey⟩ := List.mem_map.mp h
    exact absurd hkey (by simpa using (List.mem_filter.mp hw).2)

theorem get_eq_some_iff {m : KeyedMap key} {k : κ} {v : ν} :
    m.get k = some v ↔ v ∈ m.values ∧ key v = k := by
  refine ⟨?_, ?_⟩
  · intro h
    exact ⟨List.mem_of_find?_eq_some h, by simpa using List.find?_some h⟩
  · intro h
    obtain ⟨hv, rfl⟩ := h
    cases hfind : m.get (key v) with
    | none =>
      have := List.find?_eq_none.mp hfind v hv
      simp at this
    | some w =>
      have hw := List.mem_of_find?_eq_some hfind
      have hkey : key w = key v := by simpa using List.find?_some hfind
      rw [List.inj_on_of_nodup_map m.distinct hw hv hkey]

theorem mem_keys_iff {m : KeyedMap key} {k : κ} : k ∈ m.keys ↔ ∃ v, m.get k = some v := by
  unfold keys
  rw [List.mem_map]
  refine exists_congr fun v => ?_
  rw [get_eq_some_iff]

theorem mem_values_insert {m : KeyedMap key} {v w : ν} :
    w ∈ (m.insert v).values ↔ w = v ∨ w ∈ m.values ∧ key w ≠ key v := by
  simp [insert]

theorem get_insert (m : KeyedMap key) (v : ν) (k : κ) :
    (m.insert v).get k = if key v = k then some v else m.get k := by
  split
  · case isTrue h => exact get_eq_some_iff.mpr ⟨mem_values_insert.mpr (Or.inl rfl), h⟩
  · case isFalse hne =>
    refine Option.ext fun w => ?_
    rw [get_eq_some_iff, get_eq_some_iff, mem_values_insert]
    grind

/-! ## Loops over keys -/

/-- The second map is the first with the value under one key, if there is one,
replaced by what `f` makes of it. -/
def MapsAt (f : ν → ν) (id : κ) (m m' : KeyedMap key) : Prop :=
  ∀ k, m'.get k = if k = id then (m.get k).map f else m.get k

theorem mapsAt_insert {m : KeyedMap key} {f : ν → ν} {id : κ} {v : ν} (hv : m.get id = some v)
    (hkey : key (f v) = key v) : MapsAt f id m (m.insert (f v)) := by
  intro k
  rw [get_insert, hkey, (get_eq_some_iff.mp hv).2]
  by_cases hk : k = id
  · subst hk
    simp [hv]
  · simp [hk, Ne.symm hk]

theorem mapsAt_self {m : KeyedMap key} {f : ν → ν} {id : κ} (h : ∀ v, m.get id = some v → f v = v) :
    MapsAt f id m m := by
  intro k
  by_cases hk : k = id
  · subst hk
    cases hv : m.get k with
    | none => simp
    | some v => simp [h v hv]
  · simp [hk]

/-- A loop whose body changes the value under its own key changes those under
the keys of the loop. `I` is what the changes rest on. -/
theorem get_foldl {σ : Type} (view : σ → KeyedMap key) {body : σ → κ → σ} {f : ν → ν}
    {I : σ → Prop} (hkept : ∀ s id, I s → I (body s id))
    (hbody : ∀ s id, I s → MapsAt f id (view s) (view (body s id))) {ids : List κ}
    (hnd : ids.Nodup) (s : σ) (hs : I s) (k : κ) :
    (view (ids.foldl body s)).get k =
      if k ∈ ids then ((view s).get k).map f else (view s).get k := by
  induction ids generalizing s with
  | nil => rfl
  | cons id ids ih =>
    obtain ⟨hid, hnd⟩ := List.nodup_cons.mp hnd
    rw [List.foldl_cons, ih hnd _ (hkept s id hs), hbody s id hs]
    by_cases hk : k = id
    · subst hk
      simp [hid]
    · simp [hk]

/-! ## Counts -/

/-- A count over the values that leaves out the one under a key. -/
def countOthers (m : KeyedMap key) (q : ν → Bool) (k : κ) : Nat :=
  m.values.countP fun w => !decide (key w = k) && q w

/-- What a count over the values owes to the value under one key. -/
theorem countP_eq_add (m : KeyedMap key) (q : ν → Bool) (k : κ) :
    m.values.countP q = m.countOthers q k + if (m.get k).any q then 1 else 0 := by
  obtain ⟨values, distinct⟩ := m
  show values.countP q = values.countP _ + if (values.find? _).any q then 1 else 0
  induction values with
  | nil => rfl
  | cons v values ih =>
    obtain ⟨hnew, hrest⟩ := List.nodup_cons.mp distinct
    have ih := ih hrest
    rw [List.countP_cons, List.countP_cons, List.find?_cons]
    by_cases hk : key v = k
    · -- no other value carries the key
      have hsame : values.countP (fun w => !decide (key w = k) && q w) = values.countP q := by
        refine List.countP_congr fun w hw => ?_
        have hne : key w ≠ k := fun h => hnew (List.mem_map.mpr ⟨w, hw, h.trans hk.symm⟩)
        simp [hne]
      simp [hk, hsame]
    · simp only [hk, decide_false, Bool.not_false, Bool.true_and]
      omega

theorem countP_insert (m : KeyedMap key) (v : ν) (q : ν → Bool) :
    (m.insert v).values.countP q = m.countOthers q (key v) + if q v then 1 else 0 := by
  simp [insert, countOthers, List.countP_cons, List.countP_filter, Bool.and_comm]

/-- Replacing a value by one that counts if the old one did. -/
theorem countP_insert_eq_or (m : KeyedMap key) {v : ν} {q : ν → Bool}
    (h : ∀ w, m.get (key v) = some w → q w = true → q v = true) :
    (m.insert v).values.countP q = m.values.countP q ∨
      (m.insert v).values.countP q = m.values.countP q + 1 := by
  rw [countP_insert, countP_eq_add m q (key v)]
  cases hget : m.get (key v) with
  | none => cases q v <;> simp
  | some w =>
    cases hw : q w with
    | false => cases q v <;> simp [hw]
    | true => simp [hw, h w hget hw]

end KeyedMap
end Axionvera.Lib.OwnKey

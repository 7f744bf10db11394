import Mathlib.Data.List.Nodup

/-!
# Tables with a key

A table of values that hold their own key, at most one value a key: `insert` takes the place of the value
with the key, `retain` drops the values that do not meet a condition.
-/

namespace Infra

variable {α K : Type} [DecidableEq K]

/-- A table: a list with no two elements of one key. -/
structure KeyedList (key : α → K) where
  toList : List α
  nodup : (toList.map key).Nodup

namespace KeyedList

variable {key : α → K}

def empty : KeyedList key := ⟨[], List.nodup_nil⟩

def get? (m : KeyedList key) (k : K) : Option α := m.toList.find? (key · = k)

def retain (m : KeyedList key) (p : α → Bool) : KeyedList key where
  toList := m.toList.filter p
  nodup := m.nodup.sublist (List.filter_sublist.map key)

/-- Replaces the element of the key, or adds one. -/
def insert (m : KeyedList key) (a : α) : KeyedList key where
  toList := m.toList.filter (key · ≠ key a) ++ [a]
  nodup := by
    rw [List.map_append, List.nodup_append]
    refine ⟨m.nodup.sublist (List.filter_sublist.map key), List.nodup_singleton _, ?_⟩
    intro k hk k' hk' heq
    obtain ⟨b, hb, rfl⟩ := List.mem_map.mp hk
    obtain rfl := List.mem_singleton.mp hk'
    exact of_decide_eq_true (List.mem_filter.mp hb).2 heq

def insertAll (m : KeyedList key) (l : List α) : KeyedList key := l.foldl insert m

/-- An update that keeps the keys. -/
def mapValues (m : KeyedList key) (f : α → α) (hf : ∀ a, key (f a) = key a) : KeyedList key where
  toList := m.toList.map f
  nodup := by
    rw [List.map_map, show key ∘ f = key from funext hf]
    exact m.nodup

omit [DecidableEq K] in
@[simp] theorem toList_retain (m : KeyedList key) (p : α → Bool) :
    (m.retain p).toList = m.toList.filter p := rfl

@[simp] theorem toList_insert (m : KeyedList key) (a : α) :
    (m.insert a).toList = m.toList.filter (key · ≠ key a) ++ [a] := rfl

omit [DecidableEq K] in
@[simp] theorem toList_mapValues (m : KeyedList key) (f : α → α) (hf : ∀ a, key (f a) = key a) :
    (m.mapValues f hf).toList = m.toList.map f := rfl

/-! ## Lookup -/

@[simp] theorem get?_empty (k : K) : (empty : KeyedList key).get? k = none := rfl

variable {m : KeyedList key} {a : α} {k : K}

theorem key_of_get? (h : m.get? k = some a) : key a = k :=
  of_decide_eq_true (List.find?_some (p := fun b => decide (key b = k)) h)

theorem mem_of_get? (h : m.get? k = some a) : a ∈ m.toList :=
  List.mem_of_find?_eq_some h

theorem get?_eq_none_iff : m.get? k = none ↔ k ∉ m.toList.map key := by
  simp [get?, List.find?_eq_none]

theorem get?_of_mem (h : a ∈ m.toList) : m.get? (key a) = some a := by
  cases hget : m.get? (key a) with
  | none => exact absurd (List.mem_map_of_mem h) (get?_eq_none_iff.mp hget)
  | some b => rw [List.inj_on_of_nodup_map m.nodup (mem_of_get? hget) h (key_of_get? hget)]

theorem get?_eq_some_iff : m.get? k = some a ↔ a ∈ m.toList ∧ key a = k := by
  constructor
  · exact fun h => ⟨mem_of_get? h, key_of_get? h⟩
  · rintro ⟨hmem, rfl⟩
    exact get?_of_mem hmem

theorem get?_insert (m : KeyedList key) (a : α) (k : K) :
    (m.insert a).get? k = if k = key a then some a else m.get? k := by
  by_cases hk : k = key a
  · rw [if_pos hk, hk]
    exact get?_of_mem (List.mem_append_right _ (List.mem_singleton_self a))
  · rw [if_neg hk]
    ext b
    rw [get?_eq_some_iff, get?_eq_some_iff, toList_insert, List.mem_append, List.mem_singleton, List.mem_filter,
      decide_eq_true_iff]
    constructor
    · rintro ⟨⟨hmem, -⟩ | rfl, hb⟩
      · exact ⟨hmem, hb⟩
      · exact absurd hb.symm hk
    · rintro ⟨hmem, rfl⟩
      exact ⟨Or.inl ⟨hmem, hk⟩, rfl⟩

theorem get?_retain_of {p : α → Bool} (h : m.get? k = some a)
    (ha : p a = true) : (m.retain p).get? k = some a :=
  get?_eq_some_iff.mpr ⟨List.mem_filter.mpr ⟨mem_of_get? h, ha⟩, key_of_get? h⟩

theorem get?_of_get?_retain {p : α → Bool}
    (h : (m.retain p).get? k = some a) : m.get? k = some a ∧ p a = true := by
  obtain ⟨hmem, hp⟩ := List.mem_filter.mp (mem_of_get? h)
  exact ⟨get?_eq_some_iff.mpr ⟨hmem, key_of_get? h⟩, hp⟩

theorem get?_mapValues (m : KeyedList key) (f : α → α) (hf : ∀ a, key (f a) = key a) (k : K) :
    (m.mapValues f hf).get? k = (m.get? k).map f := by
  rw [get?, get?, toList_mapValues, List.find?_map]
  congr 2
  funext a
  exact congrArg (fun x => decide (x = k)) (hf a)

/-- The values that meet a condition are the others of before and, where it meets it, the new one. -/
theorem filter_insert (m : KeyedList key) (a : α) (p : α → Bool) :
    (m.insert a).toList.filter p = (m.toList.filter p).filter (key · ≠ key a) ++ [a].filter p := by
  rw [toList_insert, List.filter_append, List.filter_comm]

theorem filter_insert_of_not {p : α → Bool} (ha : p a = false)
    (hold : ∀ b, m.get? (key a) = some b → p b = false) : (m.insert a).toList.filter p = m.toList.filter p := by
  rw [filter_insert, List.filter_singleton, ha, cond_false, List.append_nil]
  refine List.filter_eq_self.mpr fun b hb => ?_
  obtain ⟨hmem, hp⟩ := List.mem_filter.mp hb
  refine decide_eq_true fun heq => ?_
  have := hold b (heq ▸ get?_of_mem hmem)
  simp [this] at hp

/-- The values that meet a condition are those with certain keys, where the condition says no more. -/
theorem filter_perm_filterMap_get? {p : α → Bool} {l : List K} (hl : l.Nodup)
    (hp : ∀ a ∈ m.toList, p a ↔ key a ∈ l) : (m.toList.filter p).Perm (l.filterMap m.get?) := by
  refine (List.perm_ext_iff_of_nodup ?_ ?_).mpr fun a => ?_
  · exact (m.nodup.of_map key).filter p
  · refine hl.filterMap fun k k' a hk hk' => ?_
    rw [← key_of_get? hk, key_of_get? hk']
  · rw [List.mem_filter, List.mem_filterMap]
    constructor
    · rintro ⟨hmem, ha⟩
      exact ⟨key a, (hp a hmem).mp ha, get?_of_mem hmem⟩
    · rintro ⟨k, hk, hget⟩
      refine ⟨mem_of_get? hget, (hp a (mem_of_get? hget)).mpr ?_⟩
      rwa [key_of_get? hget]

theorem filter_key (m : KeyedList key) {k : K} {p : α → Bool} (hp : ∀ a ∈ m.toList, p a ↔ key a = k) :
    m.toList.filter p = (m.get? k).toList := by
  have hperm := filter_perm_filterMap_get? (m := m) (p := p) (List.nodup_singleton k) fun a ha => by
    rw [hp a ha, List.mem_singleton]
  cases hget : m.get? k with
  | none =>
    rw [List.filterMap_cons_none hget] at hperm
    exact hperm.eq_nil
  | some a =>
    rw [List.filterMap_cons_some hget] at hperm
    exact List.perm_singleton.mp hperm

/-! ## Insertion of many -/

theorem toList_insert_of_fresh (h : key a ∉ m.toList.map key) : (m.insert a).toList = m.toList ++ [a] := by
  show m.toList.filter (key · ≠ key a) ++ [a] = m.toList ++ [a]
  congr 1
  refine List.filter_eq_self.mpr fun b hb => ?_
  exact decide_eq_true fun heq => h (heq ▸ List.mem_map_of_mem hb)

/-- **Where all keys are new and distinct, everything is there afterwards.** -/
theorem insertAll_of_fresh : ∀ {l : List α} {m : KeyedList key}, ((m.toList ++ l).map key).Nodup →
    (m.insertAll l).toList = m.toList ++ l
  | [], m, _ => (List.append_nil _).symm
  | a :: l, m, h => by
    have hfresh : key a ∉ m.toList.map key := by
      rw [List.map_append, List.nodup_append] at h
      exact fun hmem => h.2.2 _ hmem _ List.mem_cons_self rfl
    have hinsert := toList_insert_of_fresh hfresh
    have hrest : (((m.insert a).toList ++ l).map key).Nodup := by
      rwa [hinsert, List.append_assoc]
    show ((m.insert a).insertAll l).toList = m.toList ++ a :: l
    rw [insertAll_of_fresh hrest, hinsert, List.append_assoc]
    rfl

omit [DecidableEq K] in
theorem fresh_of_perm {l : List α} (h : m.toList.Perm l) : (l.map key).Nodup :=
  ((h.map key).nodup_iff).mp m.nodup

/-- **Inserting keeps everything exactly where all keys are new and distinct.** -/
theorem insertAll_perm_iff {old new : List α} (hm : m.toList.Perm old) :
    (m.insertAll new).toList.Perm (old ++ new) ↔ ((old ++ new).map key).Nodup := by
  constructor
  · exact fresh_of_perm
  · intro hnodup
    have hperm : (m.toList ++ new).Perm (old ++ new) := hm.append_right new
    rw [insertAll_of_fresh ((hperm.map key).nodup_iff.mpr hnodup)]
    exact hperm

end KeyedList

end Infra

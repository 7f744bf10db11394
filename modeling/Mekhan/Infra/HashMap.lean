import Mathlib.Data.Finmap

/-!
# Hash maps

Two views of a hash map. `HashMap K V` is a map together with the order in which it happens to be
iterated: a statement that quantifies over it quantifies over that order too. `MapOf K V` is the map
alone, with equality by lookup, for code that never iterates.
-/

namespace Infra

/-- A map with its current iteration order. -/
abbrev HashMap (K V : Type) := AList (fun _ : K => V)

/-- What a map holds, without an order. -/
abbrev MapOf (K V : Type) := Finmap (fun _ : K => V)

namespace HashMap

variable {K V : Type}

/-- The values in the order of iteration. -/
def values (m : HashMap K V) : List V := m.entries.map (·.2)

def toPairs (m : HashMap K V) : List (K × V) := m.entries.map fun e => (e.1, e.2)

variable [DecidableEq K]

/-- `collect()` of an iterator of pairs: later pairs replace earlier ones. -/
def ofPairs (l : List (K × V)) : HashMap K V := l.foldl (fun m e => m.insert e.1 e.2) ∅

omit [DecidableEq K] in
theorem toPairs_keys (m : HashMap K V) : m.toPairs.map (·.1) = m.keys := by
  rw [toPairs, List.map_map]
  rfl

omit [DecidableEq K] in
theorem toPairs_nodup (m : HashMap K V) : (m.toPairs.map (·.1)).Nodup := by
  rw [toPairs_keys]
  exact m.nodupKeys

omit [DecidableEq K] in
theorem toPairs_values (m : HashMap K V) : m.toPairs.map (·.2) = m.values := by
  rw [toPairs, List.map_map]
  rfl

omit [DecidableEq K] in
theorem entries_eq_toPairs (m : HashMap K V) :
    m.entries = m.toPairs.map fun e => (⟨e.1, e.2⟩ : Sigma fun _ : K => V) := by
  rw [toPairs, List.map_map]
  exact (List.map_id _).symm

/-- A hash map that is iterated in the order of a list of pairs. -/
def inOrder (l : List (K × V)) (h : (l.map (·.1)).Nodup) : HashMap K V where
  entries := l.map fun e => ⟨e.1, e.2⟩
  nodupKeys := by
    rw [List.NodupKeys, List.keys, List.map_map]
    exact h

omit [DecidableEq K] in
@[simp] theorem toPairs_inOrder (l : List (K × V)) (h : (l.map (·.1)).Nodup) : (inOrder l h).toPairs = l := by
  rw [toPairs, inOrder, List.map_map]
  exact List.map_id _

theorem entries_foldl_insert : ∀ (l : List (K × V)) (m : HashMap K V), (m.keys ++ l.map (·.1)).Nodup →
      ((l.foldl (fun m e => m.insert e.1 e.2) m).entries).Perm
        (m.entries ++ l.map fun e => ⟨e.1, e.2⟩)
  | [], m, _ => by simp
  | e :: l, m, h => by
    have he : e.1 ∉ m := by
      intro hmem
      rw [List.nodup_append] at h
      exact h.2.2 _ hmem _ List.mem_cons_self rfl
    have hkeys : (m.insert e.1 e.2).keys = e.1 :: m.keys := by
      rw [AList.keys_insert, List.erase_of_not_mem he]
    refine (entries_foldl_insert l (m.insert e.1 e.2) ?_).trans ?_
    · rw [hkeys]
      exact List.perm_middle.nodup_iff.mp h
    · rw [AList.entries_insert_of_notMem he]
      exact List.perm_middle.symm

variable {m : HashMap K V} {k : K}

theorem toFinmap_eq_ofPairs_iff {l : List (K × V)} (h : (l.map (·.1)).Nodup) :
    m.toFinmap = (ofPairs l).toFinmap ↔ m.toPairs.Perm l := by
  have hperm : (ofPairs l).entries.Perm (l.map fun e => ⟨e.1, e.2⟩) := by
    have := entries_foldl_insert l (∅ : HashMap K V) (by simpa using h)
    simpa [ofPairs] using this
  rw [AList.toFinmap_eq]
  constructor
  · intro hm
    have := (hm.trans hperm).map fun e : Sigma fun _ : K => V => (e.1, e.2)
    rw [List.map_map] at this
    exact this.trans (List.Perm.of_eq (List.map_id _))
  · intro hm
    refine List.Perm.trans ?_ hperm.symm
    rw [entries_eq_toPairs]
    exact hm.map _

omit [DecidableEq K] in
theorem mem_toPairs {v : V} : (k, v) ∈ m.toPairs ↔ (⟨k, v⟩ : Sigma fun _ : K => V) ∈ m.entries := by
  rw [entries_eq_toPairs]
  constructor
  · exact fun h => List.mem_map.mpr ⟨_, h, rfl⟩
  · intro h
    obtain ⟨⟨k', v'⟩, hmem, heq⟩ := List.mem_map.mp h
    cases heq
    exact hmem

theorem lookup_map_eq_some_iff {W : Type} (m : HashMap K V) (f : V → W) (k : K) (w : W) :
    (m.lookup k).map f = some w ↔ (k, w) ∈ m.toPairs.map fun e => (e.1, f e.2) := by
  rw [Option.map_eq_some_iff, List.mem_map]
  constructor
  · rintro ⟨v, hv, rfl⟩
    exact ⟨(k, v), mem_toPairs.mpr (AList.mem_lookup_iff.mp hv), rfl⟩
  · rintro ⟨⟨k', v⟩, hmem, heq⟩
    cases heq
    exact ⟨v, AList.mem_lookup_iff.mpr (mem_toPairs.mp hmem), rfl⟩

/-- `get_mut`: changes the value of a key in its place. -/
def modify (m : HashMap K V) (k : K) (f : V → V) : HashMap K V where
  entries := m.entries.map (.map id fun k' v => if k' = k then f v else v)
  nodupKeys := by
    rw [List.NodupKeys, List.keys, List.map_map]
    exact m.nodupKeys

theorem lookup_modify (m : HashMap K V) (k : K) (f : V → V) (k' : K) :
    (m.modify k f).lookup k' = (m.lookup k').map fun v => if k' = k then f v else v :=
  List.dlookup_map₂ k'

theorem mem_entries_modify {f : V → V} {e : Sigma fun _ : K => V}
    (h : e ∈ (m.modify k f).entries) : ∃ v, ⟨e.1, v⟩ ∈ m.entries ∧ e.2 = if e.1 = k then f v else v := by
  obtain ⟨⟨k', v⟩, hmem, rfl⟩ := List.mem_map.mp h
  exact ⟨v, hmem, rfl⟩

/-- Renaming the keys of a map along a bijection. -/
def rekey {K' : Type} (e : K ≃ K') : HashMap K V ≃ HashMap K' V where
  toFun m := inOrder (m.toPairs.map fun p => (e p.1, p.2)) (by
    rw [List.map_map]
    have h := m.toPairs_nodup.map e.injective
    rwa [List.map_map] at h)
  invFun m := inOrder (m.toPairs.map fun p => (e.symm p.1, p.2)) (by
    rw [List.map_map]
    have h := m.toPairs_nodup.map e.symm.injective
    rwa [List.map_map] at h)
  left_inv m := by
    refine AList.ext ?_
    rw [entries_eq_toPairs, entries_eq_toPairs]
    simp [Function.comp_def]
  right_inv m := by
    refine AList.ext ?_
    rw [entries_eq_toPairs, entries_eq_toPairs]
    simp [Function.comp_def]

theorem lookup_rekey_symm {K' : Type} [DecidableEq K'] (e : K ≃ K') (m : HashMap K' V) (k : K) :
    ((rekey e).symm m).lookup k = m.lookup (e k) := by
  ext v
  have h := lookup_map_eq_some_iff ((rekey e).symm m) id k v
  have h' := lookup_map_eq_some_iff m id (e k) v
  simp only [Option.map_id, id] at h h'
  rw [h, h']
  simp only [rekey, Equiv.coe_fn_symm_mk, toPairs_inOrder, List.map_map, List.mem_map]
  constructor
  · rintro ⟨p, hp, heq⟩
    cases heq
    exact ⟨p, hp, by simp⟩
  · rintro ⟨p, hp, heq⟩
    obtain ⟨hk, rfl⟩ := Prod.mk.inj heq
    exact ⟨p, hp, by simp [hk]⟩

end HashMap

/-- One iteration over a map: the map with some iteration order. -/
structure Iteration {K V : Type} (m : MapOf K V) where
  map : HashMap K V
  toMap : map.toFinmap = m

theorem Iteration.mem_keys {K V : Type} {m : MapOf K V} (it : Iteration m) (k : K) :
    k ∈ it.map.keys ↔ k ∈ m := by
  have h : k ∈ it.map.toFinmap ↔ k ∈ m := by rw [it.toMap]
  exact h

end Infra

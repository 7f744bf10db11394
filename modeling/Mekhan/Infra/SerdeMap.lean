import Mekhan.Infra.Serde

/-!
# Serializing hash maps

Two ways to write a hash map, both in its current iteration order: as an object, and as the array of
its values where each value holds its own key. Reading either gives the map back with some iteration
order.
-/

namespace Infra.Serde

open Json

variable {impl : MapImpl} {α K V : Type}

variable {c : Codec impl V} {l : List α}

theorem length_le_one_of_reverse_eq (hnodup : l.Nodup) (h : l.reverse = l) : l.length ≤ 1 := by
  rcases l with _ | ⟨a, _ | ⟨b, t⟩⟩
  · exact Nat.zero_le _
  · exact Nat.le_refl _
  · -- The first element is also the last one, so it is in the tail too.
    have hlast := congrArg List.getLast? h
    rw [List.getLast?_reverse, List.head?_cons, List.getLast?_cons_cons] at hlast
    exact absurd (List.mem_of_getLast? hlast.symm) (List.nodup_cons.mp hnodup).1

theorem eq_of_perm_of_length_le_one {l' : List α} (h : l.Perm l') (hlen : l'.length ≤ 1) : l = l' := by
  rcases l' with _ | ⟨a, _ | ⟨b, t⟩⟩
  · exact List.perm_nil.mp h
  · exact List.perm_singleton.mp h
  · simp at hlen

theorem readsAll_length {c : Codec impl α} {as as' : List α}
    (h : ReadsAll c (as.map c.enc) as') : as'.length = as.length := by
  simpa using h.length_eq.symm

/-! ## Objects -/

/-- The entries of a string-keyed map as an object. -/
def mapEntries (c : Codec impl V) (l : List (String × V)) : List (String × Json) :=
  l.map fun e => (e.1, c.enc e.2)

theorem mapEntries_eq_zip (c : Codec impl V) (l : List (String × V)) :
    (mapEntries c l).map (canonEntry impl) = (l.map (·.1)).zip ((l.map (·.2)).map (canon impl ∘ c.enc)) := by
  induction l with
  | nil => rfl
  | cons e l ih =>
    simp only [mapEntries, List.map_cons, List.zip_cons_cons] at ih ⊢
    rw [ih]
    rfl

theorem keys_mapEntries (c : Codec impl V) (l : List (String × V)) :
    (mapEntries c l).map (·.1) = l.map (·.1) := by
  rw [mapEntries, List.map_map]
  rfl

theorem values_mapEntries (c : Codec impl V) (l : List (String × V)) :
    (mapEntries c l).map (·.2) = (l.map (·.2)).map c.enc := by
  rw [mapEntries, List.map_map, List.map_map]
  rfl

/-- The pairs an object's entries may be read as. -/
def ReadsPairs (c : Codec impl V) (es : List (String × Json)) (vs : List (String × V)) : Prop :=
  vs.map (·.1) = es.map (·.1) ∧ ReadsAll c (es.map (·.2)) (vs.map (·.2))

theorem readsPairs_zip {l : List (String × V)} {as : List V} (h : ReadsAll c ((l.map (·.2)).map c.enc) as) :
    ((l.map (·.1)).zip as).map (·.1) = l.map (·.1) ∧ ((l.map (·.1)).zip as).map (·.2) = as ∧
      ReadsPairs c (mapEntries c l) ((l.map (·.1)).zip as) := by
  have hlen : as.length = l.length := by simpa using readsAll_length h
  have hfst : ((l.map (·.1)).zip as).map Prod.fst = l.map (·.1) :=
    List.map_fst_zip (by simp [hlen])
  have hsnd : ((l.map (·.1)).zip as).map Prod.snd = as := List.map_snd_zip (by simp [hlen])
  refine ⟨hfst, hsnd, ?_, ?_⟩
  · rw [keys_mapEntries]
    exact hfst
  · rw [values_mapEntries]
    show ReadsAll c _ (((l.map (·.1)).zip as).map Prod.snd)
    rw [hsnd]
    exact h

section

variable (c : Codec impl V) (m : HashMap String V)

/-- The map is read in any order of its entries. -/
def ReadsMap (j : Json) (m : HashMap String V) : Prop :=
  ∃ es vs, j = .obj es ∧ ReadsPairs c es vs ∧ m.toFinmap = (HashMap.ofPairs vs).toFinmap

theorem readsMap_iff (m' : HashMap String V) : ReadsMap c (.obj (mapEntries c m.toPairs)) m' ↔
      ∃ vs, ReadsPairs c (mapEntries c m.toPairs) vs ∧ m'.toPairs.Perm vs := by
  have hnodup : ∀ {vs}, ReadsPairs c (mapEntries c m.toPairs) vs → (vs.map (·.1)).Nodup := by
    intro vs hvs
    rw [hvs.1, keys_mapEntries]
    exact m.toPairs_nodup
  constructor
  · rintro ⟨es, vs, hes, hvs, hm⟩
    cases hes
    exact ⟨vs, hvs, (HashMap.toFinmap_eq_ofPairs_iff (hnodup hvs)).mp hm⟩
  · rintro ⟨vs, hvs, hm⟩
    exact ⟨_, vs, rfl, hvs, (HashMap.toFinmap_eq_ofPairs_iff (hnodup hvs)).mpr hm⟩

theorem nodup_mapEntries (m : HashMap String V) :
    (((mapEntries c m.toPairs).map (canonEntry impl)).map (·.1)).Nodup := by
  rw [keys_canonEntry, keys_mapEntries]
  exact m.toPairs_nodup

theorem perm_of_readsPairs (hset : ∀ v ∈ m.values, c.Settled v) {m' : HashMap String V}
    {vs : List (String × V)} (hvs : ReadsPairs c (mapEntries c m.toPairs) vs) (hm : m'.toPairs.Perm vs) :
    ((mapEntries c m'.toPairs).map (canonEntry impl)).Perm
      ((mapEntries c m.toPairs).map (canonEntry impl)) := by
  have hread : ReadsAll c (m.values.map c.enc) (vs.map (·.2)) := by
    rw [← m.toPairs_values, ← values_mapEntries]
    exact hvs.2
  have hvalues := (readsAll_stable_iff c m.values).mpr hset _ hread
  have heq : (mapEntries c vs).map (canonEntry impl) =
      (mapEntries c m.toPairs).map (canonEntry impl) := by
    rw [mapEntries_eq_zip, mapEntries_eq_zip, hvs.1, keys_mapEntries, hvalues, m.toPairs_values]
  rw [← heq]
  exact (hm.map _).map _

theorem exists_readsMap {as : List V} (has : ReadsAll c ((m.toPairs.map (·.2)).map c.enc) as)
    {l : List (String × V)} (hl : l.Perm ((m.toPairs.map (·.1)).zip as)) :
    ∃ m', ReadsMap c (.obj (mapEntries c m.toPairs)) m' ∧ m'.toPairs = l := by
  obtain ⟨hfst, -, hread⟩ := readsPairs_zip has
  have hnodup : (l.map (·.1)).Nodup := by
    rw [(hl.map _).nodup_iff, hfst]
    exact m.toPairs_nodup
  refine ⟨HashMap.inOrder l hnodup, (readsMap_iff c m _).mpr ⟨_, hread, ?_⟩, ?_⟩
  · rw [HashMap.toPairs_inOrder]
    exact hl
  · rw [HashMap.toPairs_inOrder]

/-- However the map is read back, it is written as it was. -/
def MapStable : Prop :=
  ∀ m', ReadsMap c (.obj (mapEntries c m.toPairs)) m' →
    canon impl (.obj (mapEntries c m'.toPairs)) = canon impl (.obj (mapEntries c m.toPairs))

theorem MapStable.length_le_one {c : Codec .index V} {m : HashMap String V} (h : MapStable c m) :
    m.toPairs.length ≤ 1 := by
  obtain ⟨as, has⟩ := readsAll_total c (m.toPairs.map (·.2))
  obtain ⟨hfst, -, -⟩ := readsPairs_zip has
  obtain ⟨m', hm', hpairs⟩ := exists_readsMap c m has (List.reverse_perm _)
  have heq := h m' hm'
  rw [canon_obj, canon_obj, Json.obj.injEq] at heq
  have hkeys : ∀ n : HashMap String V, (collect .index
      ((mapEntries c n.toPairs).map (canonEntry .index))).map (·.1) = n.toPairs.map (·.1) := by
    intro n
    rw [collect, foldl_put_of_nodup (m := []) (nodup_mapEntries c n), List.nil_append,
      keys_canonEntry, keys_mapEntries]
  have hback := congrArg (List.map (·.1)) heq
  rw [hkeys, hkeys, hpairs, List.map_reverse, hfst] at hback
  simpa using length_le_one_of_reverse_eq m.toPairs_nodup hback

theorem MapStable.settled {c : Codec impl V} {m : HashMap String V} (h : MapStable c m) :
    ∀ v ∈ m.values, c.Settled v := by
  rw [← readsAll_stable_iff c m.values]
  intro as has
  rw [← m.toPairs_values] at has ⊢
  obtain ⟨hfst, hsnd, -⟩ := readsPairs_zip has
  obtain ⟨m', hm', hpairs⟩ := exists_readsMap c m has (List.Perm.refl _)
  have hks : ((mapEntries c m'.toPairs).map (·.1)).Sublist (m.toPairs.map (·.1)) := by
    rw [keys_mapEntries, hpairs, hfst]
  have hks' : ((mapEntries c m.toPairs).map (·.1)).Sublist (m.toPairs.map (·.1)) := by
    rw [keys_mapEntries]
  have hentries := (canon_obj_inj m.toPairs_nodup hks hks').mp (h m' hm')
  rw [mapEntries_eq_zip, mapEntries_eq_zip, hpairs, hfst, hsnd] at hentries
  have hlen : as.length = m.toPairs.length := by simpa using readsAll_length has
  have hvals := congrArg (List.map (·.2)) hentries
  rwa [show (fun x : String × Json => x.2) = Prod.snd from rfl,
    List.map_snd_zip (by simp [hlen]), List.map_snd_zip (by simp)] at hvals

theorem mapStable_of_settled (hlen : impl = .index → m.toPairs.length ≤ 1)
    (hset : ∀ v ∈ m.values, c.Settled v) : MapStable c m := by
  intro m' hm'
  obtain ⟨vs, hvs, hperm⟩ := (readsMap_iff c m m').mp hm'
  have hentries := perm_of_readsPairs c m hset hvs hperm
  rw [canon_obj, canon_obj, Json.obj.injEq]
  cases impl with
  | btree => exact collect_btree_perm (nodup_mapEntries c m') hentries
  | index =>
    have hone : ((mapEntries c m.toPairs).map (canonEntry .index)).length ≤ 1 := by
      simpa [mapEntries] using hlen rfl
    rw [eq_of_perm_of_length_le_one hentries hone]

theorem readsMap_stable_iff :
    MapStable c m ↔ (impl = .index → m.toPairs.length ≤ 1) ∧ ∀ v ∈ m.values, c.Settled v := by
  constructor
  · intro h
    refine ⟨?_, h.settled⟩
    rintro rfl
    exact h.length_le_one
  · rintro ⟨hlen, hset⟩
    exact mapStable_of_settled c m hlen hset

end

/-- A string-keyed hash map, written as an object. -/
def Codec.stringMap (c : Codec impl V) : Codec impl (HashMap String V) where
  enc m := .obj (mapEntries c m.toPairs)
  Reads := ReadsMap c
  Settled m := (impl = .index → m.toPairs.length ≤ 1) ∧ ∀ v ∈ m.values, c.Settled v
  total m := by
    obtain ⟨as, has⟩ := readsAll_total c (m.toPairs.map (·.2))
    obtain ⟨m', hm', -⟩ := exists_readsMap c m has (List.Perm.refl _)
    exact ⟨m', hm'⟩
  stable_iff := readsMap_stable_iff c

@[simp] theorem enc_stringMap_ne (c : Codec impl V) (m : HashMap String V) :
    c.stringMap.enc m ≠ .null := nofun

theorem readsAll_map_eq {W : Type} {f g : V → W} (hf : ∀ v v', c.Reads (c.enc v) v' → f v' = g v) :
    ∀ {vs vs' : List V}, ReadsAll c (vs.map c.enc) vs' → vs'.map f = vs.map g
  | [], _, h => by
    cases h
    rfl
  | v :: vs, _, h => by
    cases h with
    | cons hv hvs => rw [List.map_cons, List.map_cons, hf v _ hv, readsAll_map_eq hf hvs]

theorem lookup_of_readsMap {W : Type} {f g : V → W}
    (hf : ∀ v v', c.Reads (c.enc v) v' → f v' = g v) {m m' : HashMap String V}
    (h : c.stringMap.Reads (c.stringMap.enc m) m') (k : String) :
    (m'.lookup k).map f = (m.lookup k).map g := by
  obtain ⟨vs, ⟨hkeys, hvalues⟩, hperm⟩ := (readsMap_iff c m m').mp h
  rw [keys_mapEntries] at hkeys
  rw [values_mapEntries] at hvalues
  have hzip : ∀ (h : V → W) (l : List (String × V)),
      l.map (fun e => (e.1, h e.2)) = (l.map (·.1)).zip ((l.map (·.2)).map h) := by
    intro h l
    rw [List.map_map, List.zip_map']
    rfl
  have hpairs : vs.map (fun e => (e.1, f e.2)) = m.toPairs.map fun e => (e.1, g e.2) := by
    rw [hzip, hzip, hkeys, readsAll_map_eq hf hvalues]
  ext w
  rw [HashMap.lookup_map_eq_some_iff, HashMap.lookup_map_eq_some_iff, ← hpairs]
  exact (hperm.map _).mem_iff

/-! ## Arrays of values -/

/-- A map that keeps each value under the key the value itself names. -/
def Keyed (idOf : V → K) : Type :=
  { m : HashMap K V // ∀ e ∈ m.entries, idOf e.2 = e.1 }

namespace Keyed

variable {idOf : V → K}

theorem toPairs_eq (m : Keyed idOf) : m.1.toPairs = m.1.values.map fun v => (idOf v, v) := by
  rw [HashMap.toPairs, HashMap.values, List.map_map]
  refine List.map_congr_left fun e he => ?_
  exact Prod.ext (m.2 e he).symm rfl

theorem ids_nodup (m : Keyed idOf) : (m.1.values.map idOf).Nodup := by
  have h := m.1.toPairs_nodup
  rwa [m.toPairs_eq, List.map_map] at h

/-- A keyed map that is iterated in the order of a list of values. -/
def inOrder (vs : List V) (h : (vs.map idOf).Nodup) : Keyed idOf :=
  ⟨HashMap.inOrder (vs.map fun v => (idOf v, v)) (by rwa [List.map_map]), by
    intro e he
    obtain ⟨p, hp, rfl⟩ := List.mem_map.mp he
    obtain ⟨v, -, rfl⟩ := List.mem_map.mp hp
    rfl⟩

@[simp] theorem values_inOrder (vs : List V) (h : (vs.map idOf).Nodup) : (inOrder vs h).1.values = vs := by
  rw [← HashMap.toPairs_values, inOrder, HashMap.toPairs_inOrder, List.map_map]
  exact List.map_id _

end Keyed

section

variable [DecidableEq K] {idOf : V → K} (c : Codec impl V)

/-- The keyed map that was read: the array's values, collected by their keys. -/
def ReadsValues (j : Json) (m : Keyed idOf) : Prop :=
  ∃ js vs, j = .arr js ∧ ReadsAll c js vs ∧
    m.1.toFinmap = (HashMap.ofPairs (vs.map fun v => (idOf v, v))).toFinmap

variable {c} (hid : ∀ v v', c.Reads (c.enc v) v' → idOf v' = idOf v)

include hid

theorem readsValues_iff (m m' : Keyed idOf) : ReadsValues c (.arr (m.1.values.map c.enc)) m' ↔
      ∃ vs, ReadsAll c (m.1.values.map c.enc) vs ∧ m'.1.values.Perm vs := by
  have hnodup : ∀ {vs}, ReadsAll c (m.1.values.map c.enc) vs →
      ((vs.map fun v => (idOf v, v)).map (·.1)).Nodup := by
    intro vs hvs
    rw [List.map_map]
    show (vs.map idOf).Nodup
    rw [readsAll_map_eq hid hvs]
    exact m.ids_nodup
  have hperm : ∀ vs : List V,
      m'.1.toPairs.Perm (vs.map fun v => (idOf v, v)) ↔ m'.1.values.Perm vs := by
    intro vs
    rw [m'.toPairs_eq]
    refine ⟨fun h => ?_, fun h => h.map _⟩
    have := h.map Prod.snd
    rw [List.map_map, List.map_map] at this
    exact (List.Perm.of_eq (List.map_id _).symm).trans (this.trans (List.Perm.of_eq (List.map_id _)))
  constructor
  · rintro ⟨js, vs, hjs, hvs, hm⟩
    cases hjs
    exact ⟨vs, hvs, (hperm vs).mp ((HashMap.toFinmap_eq_ofPairs_iff (hnodup hvs)).mp hm)⟩
  · rintro ⟨vs, hvs, hm⟩
    exact ⟨_, vs, rfl, hvs, (HashMap.toFinmap_eq_ofPairs_iff (hnodup hvs)).mpr ((hperm vs).mpr hm)⟩

theorem readsValues_stable_iff
    (hcanon : ∀ v v', canon impl (c.enc v) = canon impl (c.enc v') → idOf v = idOf v') (m : Keyed idOf) :
    (∀ m' : Keyed idOf, ReadsValues c (.arr (m.1.values.map c.enc)) m' →
      canon impl (.arr (m'.1.values.map c.enc)) = canon impl (.arr (m.1.values.map c.enc))) ↔
      m.1.values.length ≤ 1 ∧ ∀ v ∈ m.1.values, c.Settled v := by
  have harr : ∀ l l' : List V, canon impl (.arr (l.map c.enc)) = canon impl (.arr (l'.map c.enc)) ↔
      l.map (canon impl ∘ c.enc) = l'.map (canon impl ∘ c.enc) := by
    intro l l'
    rw [canon_arr, canon_arr, Json.arr.injEq, List.map_map, List.map_map]
  have hnodup : ∀ {vs}, ReadsAll c (m.1.values.map c.enc) vs → (vs.map idOf).Nodup := by
    intro vs hvs
    rw [readsAll_map_eq hid hvs]
    exact m.ids_nodup
  constructor
  · intro hst
    have hsame : ∀ vs, ReadsAll c (m.1.values.map c.enc) vs →
        vs.map (canon impl ∘ c.enc) = m.1.values.map (canon impl ∘ c.enc) := by
      intro vs hvs
      have heq := hst (Keyed.inOrder vs (hnodup hvs)) ((readsValues_iff hid m _).mpr ⟨vs, hvs, by
        rw [Keyed.values_inOrder]⟩)
      rwa [harr, Keyed.values_inOrder] at heq
    refine ⟨?_, (readsAll_stable_iff c _).mp hsame⟩
    -- Two values, read back in the opposite order, are written in the opposite order.
    obtain ⟨vs, hvs⟩ := readsAll_total c m.1.values
    have hrev : (vs.reverse.map idOf).Nodup := by
      rw [List.map_reverse]
      exact List.nodup_reverse.mpr (hnodup hvs)
    have heq := hst (Keyed.inOrder vs.reverse hrev) ((readsValues_iff hid m _).mpr ⟨vs, hvs, by
      rw [Keyed.values_inOrder]
      exact List.reverse_perm vs⟩)
    rw [harr, Keyed.values_inOrder, List.map_reverse, hsame vs hvs] at heq
    have hdistinct : (m.1.values.map (canon impl ∘ c.enc)).Nodup := by
      have hids := m.ids_nodup
      rw [List.Nodup, List.pairwise_map] at hids ⊢
      exact hids.imp fun hne he => hne (hcanon _ _ he)
    simpa using length_le_one_of_reverse_eq hdistinct heq
  · rintro ⟨hlen, hset⟩ m' hm'
    obtain ⟨vs, hvs, hperm⟩ := (readsValues_iff hid m m').mp hm'
    have hsame := (readsAll_stable_iff c _).mpr hset vs hvs
    have hvlen : vs.length ≤ 1 := by
      rw [readsAll_length hvs]
      exact hlen
    rw [harr, eq_of_perm_of_length_le_one hperm hvlen, hsame]

end

/-- A map of values that hold their own keys, written as the array of the values. `hid` and `hcanon`
say that a value keeps its key when it is read back and shows it when it is written. -/
def Codec.valueMap [DecidableEq K] {idOf : V → K} (c : Codec impl V)
    (hid : ∀ v v', c.Reads (c.enc v) v' → idOf v' = idOf v)
    (hcanon : ∀ v v', canon impl (c.enc v) = canon impl (c.enc v') → idOf v = idOf v') :
    Codec impl (Keyed idOf) where
  enc m := .arr (m.1.values.map c.enc)
  Reads := ReadsValues c
  Settled m := m.1.values.length ≤ 1 ∧ ∀ v ∈ m.1.values, c.Settled v
  total m := by
    obtain ⟨vs, hvs⟩ := readsAll_total c m.1.values
    have hnodup : (vs.map idOf).Nodup := by
      rw [readsAll_map_eq hid hvs]
      exact m.ids_nodup
    exact ⟨Keyed.inOrder vs hnodup, (readsValues_iff hid m _).mpr ⟨vs, hvs, by
      rw [Keyed.values_inOrder]⟩⟩
  stable_iff := readsValues_stable_iff hid hcanon

end Infra.Serde

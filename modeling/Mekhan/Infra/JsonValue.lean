import Mekhan.Infra.JsonMap

/-!
# JSON values

A `JsonValue` is a tree that a JSON library can hold: no object has two members of one name, and a
number is a 64-bit integer or a finite double. Two values are the same when they agree up to the order
in which their objects list their members (`Json.Same`); objects are compared member by member
(`Json.same_obj_iff`).
-/

namespace Infra

/-! ## Lists of members -/

section Lookup

variable {α : Type} {es es' : List (String × α)} {k : String}

theorem mem_of_lookup_eq_some {v : α} (h : es.lookup k = some v) : (k, v) ∈ es := by
  obtain ⟨before, after, rfl, -⟩ := List.lookup_eq_some_iff.mp h
  simp

theorem lookup_cons_ite (e : String × α) (es : List (String × α)) (k : String) :
    (e :: es).lookup k = if k = e.1 then some e.2 else es.lookup k := by
  rw [List.lookup_cons]
  by_cases hk : k = e.1
  · rw [if_pos hk, hk, beq_self_eq_true]
  · rw [if_neg hk, beq_eq_false_iff_ne.mpr hk]

theorem lookup_eq_none_iff_notMem : es.lookup k = none ↔ k ∉ es.map (·.1) := by
  rw [List.lookup_eq_none_iff]
  constructor
  · intro h hmem
    obtain ⟨e, he, rfl⟩ := List.mem_map.mp hmem
    simpa using h e he
  · intro h e he
    have hne : k ≠ e.1 := fun heq => h (heq ▸ List.mem_map_of_mem he)
    simpa using hne

theorem lookup_eq_some_iff_mem (h : (es.map (·.1)).Nodup) {v : α} : es.lookup k = some v ↔ (k, v) ∈ es := by
  refine ⟨mem_of_lookup_eq_some, fun hmem => ?_⟩
  cases hlookup : es.lookup k with
  | none => exact absurd (List.mem_map_of_mem hmem) (lookup_eq_none_iff_notMem.mp hlookup)
  | some w =>
    have heq := List.inj_on_of_nodup_map h (mem_of_lookup_eq_some hlookup) hmem rfl
    rw [(Prod.mk.inj heq).2]

theorem lookup_map_snd {β : Type} (f : α → β) (es : List (String × α)) (k : String) :
    (es.map fun e => (e.1, f e.2)).lookup k = (es.lookup k).map f := by
  induction es with
  | nil => rfl
  | cons e es ih =>
    rw [List.map_cons, lookup_cons_ite, lookup_cons_ite, ih]
    split <;> rfl

theorem lookup_perm (h : (es.map (·.1)).Nodup) (hperm : es.Perm es') (k : String) :
    es.lookup k = es'.lookup k := by
  have h' : (es'.map (·.1)).Nodup := (hperm.map _).nodup_iff.mp h
  refine Option.ext fun v => ?_
  rw [lookup_eq_some_iff_mem h, lookup_eq_some_iff_mem h', hperm.mem_iff]

theorem perm_of_lookup (h : (es.map (·.1)).Nodup) (h' : (es'.map (·.1)).Nodup)
    (heq : ∀ k, es.lookup k = es'.lookup k) : es.Perm es' := by
  refine (List.perm_ext_iff_of_nodup h.of_map h'.of_map).mpr fun e => ?_
  rw [← lookup_eq_some_iff_mem h, ← lookup_eq_some_iff_mem h', heq]

theorem lookup_collect (impl : MapImpl) (h : (es.map (·.1)).Nodup) (k : String) :
    (collect impl es).lookup k = es.lookup k :=
  (lookup_perm h (collect_perm impl h).symm k).symm

theorem lookup_append_of_notMem {e : String × α} (h : e.1 ∉ es.map (·.1)) (k : String) :
    (es ++ [e]).lookup k = if k = e.1 then some e.2 else es.lookup k := by
  rw [List.lookup_append, lookup_cons_ite]
  by_cases hk : k = e.1
  · rw [if_pos hk, if_pos hk, hk, lookup_eq_none_iff_notMem.mpr h, Option.none_or]
  · rw [if_neg hk, if_neg hk, List.lookup_nil, Option.or_none]

theorem lookup_put (e : String × α) (k : String) :
    ∀ es : List (String × α), (put es e).lookup k = if k = e.1 then some e.2 else es.lookup k
  | [] => lookup_cons_ite e [] k
  | (k', v) :: es => by
    rw [put, lookup_cons_ite]
    by_cases hk' : k' = e.1
    · rw [if_pos hk', lookup_cons_ite, hk']
      split <;> rfl
    · rw [if_neg hk', lookup_cons_ite, lookup_put e k es]
      by_cases hk : k = k'
      · rw [if_pos hk, if_pos hk, if_neg fun he => hk' (hk.symm.trans he)]
      · rw [if_neg hk, if_neg hk]

theorem put_map_snd {β : Type} (f : α → β) (e : String × α) : ∀ es : List (String × α),
    put (es.map fun e => (e.1, f e.2)) (e.1, f e.2) = (put es e).map fun e => (e.1, f e.2)
  | [] => rfl
  | (k, v) :: es => by
    rw [put, List.map_cons, put]
    split
    · rfl
    · rw [put_map_snd f e es, List.map_cons]

theorem foldl_put_map_snd {β : Type} (f : α → β) : ∀ es m : List (String × α),
    (es.map fun e => (e.1, f e.2)).foldl put (m.map fun e => (e.1, f e.2)) =
      (es.foldl put m).map fun e => (e.1, f e.2)
  | [], _ => rfl
  | e :: es, m => by
    rw [List.map_cons, List.foldl_cons, List.foldl_cons, put_map_snd, foldl_put_map_snd f es]

theorem collect_map_snd {β : Type} (impl : MapImpl) (f : α → β) (es : List (String × α)) :
    collect impl (es.map fun e => (e.1, f e.2)) = (collect impl es).map fun e => (e.1, f e.2) := by
  have hfold := foldl_put_map_snd f es []
  cases impl with
  | index => exact hfold
  | btree =>
    rw [List.map_nil] at hfold
    rw [collect, collect, hfold]
    exact (List.map_insertionSort keyLe keyLe (fun e : String × α => (e.1, f e.2)) _ fun a _ b _ => Iff.rfl).symm

theorem collect_sorted (impl : MapImpl) (h : (es.map (·.1)).Nodup) (hsorted : es.Pairwise keyLe) :
    collect impl es = es := by
  have hput : es.foldl put [] = es := foldl_put_of_nodup h
  cases impl with
  | index => exact hput
  | btree =>
    rw [collect, hput]
    exact hsorted.insertionSort_eq

theorem lookup_eraseP (h : (es.map (·.1)).Nodup) (key k : String) :
    (es.eraseP (·.1 = key)).lookup k = if k = key then none else es.lookup k := by
  induction es with
  | nil => simp
  | cons e es ih =>
    obtain ⟨he, hes⟩ := List.nodup_cons.mp h
    by_cases hkey : e.1 = key
    · rw [List.eraseP_cons_of_pos (by simpa using hkey), lookup_cons_ite, hkey]
      by_cases hk : k = key
      · rw [if_pos hk, lookup_eq_none_iff_notMem, hk, ← hkey]
        exact he
      · rw [if_neg hk, if_neg hk]
    · rw [List.eraseP_cons_of_neg (by simpa using hkey), lookup_cons_ite, lookup_cons_ite, ih hes]
      by_cases hk : k = e.1
      · rw [if_pos hk, if_pos hk, if_neg fun h => hkey (hk.symm.trans h)]
      · rw [if_neg hk, if_neg hk]

end Lookup

/-! ## What a value can hold -/

/-- A number of a JSON value: an `i64`, a `u64` or a finite double. -/
def Number.Valid : Number → Prop
  | .posInt n => n < 2 ^ 64
  | .negInt n => n < 2 ^ 63
  | .float bits => bits.toNat % 2 ^ 63 < 0x7FF0000000000000

namespace Json

/-- The entries of a value that is an object, none of any other. -/
def entries : Json → List (String × Json)
  | .obj entries => entries
  | _ => []

@[elab_as_elim]
theorem memInduction {P : Json → Prop} (null : P .null) (bool : ∀ b, P (.bool b)) (num : ∀ n, P (.num n))
    (str : ∀ s, P (.str s)) (arr : ∀ xs, (∀ x ∈ xs, P x) → P (.arr xs))
    (obj : ∀ es, (∀ e ∈ es, P e.2) → P (.obj es)) (j : Json) : P j := by
  cases j with
  | null => exact null
  | bool b => exact bool b
  | num n => exact num n
  | str s => exact str s
  | arr xs => exact arr xs fun x hx => memInduction null bool num str arr obj x
  | obj es => exact obj es fun e he => memInduction null bool num str arr obj e.2
termination_by sizeOf j
decreasing_by
  · have hx := List.sizeOf_lt_of_mem hx
    rw [Json.arr.sizeOf_spec]
    omega
  · have he := List.sizeOf_lt_of_mem he
    have hpair : sizeOf e.2 < sizeOf e := by
      cases e
      simp only [Prod.mk.sizeOf_spec]
      omega
    rw [Json.obj.sizeOf_spec]
    omega

mutual

/-- Distinct names in every object and valid numbers everywhere. -/
def Valid : Json → Prop
  | .arr elems => ValidList elems
  | .obj entries => (entries.map (·.1)).Nodup ∧ ValidEntries entries
  | .num n => n.Valid
  | .null => True
  | .bool _ => True
  | .str _ => True

def ValidList : List Json → Prop
  | [] => True
  | x :: xs => Valid x ∧ ValidList xs

def ValidEntries : List (String × Json) → Prop
  | [] => True
  | (_, x) :: xs => Valid x ∧ ValidEntries xs

end

variable {xs : List Json} {es : List (String × Json)}

theorem validList_iff : ValidList xs ↔ ∀ x ∈ xs, Valid x := by
  induction xs with
  | nil => simp [ValidList]
  | cons x xs ih => rw [ValidList, ih, List.forall_mem_cons]

theorem validEntries_iff : ValidEntries es ↔ ∀ e ∈ es, Valid e.2 := by
  induction es with
  | nil => simp [ValidEntries]
  | cons e es ih => rw [ValidEntries, ih, List.forall_mem_cons]

@[simp] theorem valid_null : Valid .null := trivial

@[simp] theorem valid_num {n : Number} : Valid (.num n) ↔ n.Valid := Iff.rfl

@[simp] theorem valid_arr : Valid (.arr xs) ↔ ∀ x ∈ xs, Valid x := by
  rw [Valid, validList_iff]

@[simp] theorem valid_obj : Valid (.obj es) ↔ (es.map (·.1)).Nodup ∧ ∀ e ∈ es, Valid e.2 := by
  rw [Valid, validEntries_iff]

/-! ## The same value -/

/-- The same value, up to the order of the members of objects. -/
def Same (a b : Json) : Prop := canon .btree a = canon .btree b

instance (a b : Json) : Decidable (Same a b) := inferInstanceAs (Decidable (_ = _))

theorem Same.refl (a : Json) : Same a a := rfl

theorem Same.symm {a b : Json} (h : Same a b) : Same b a := Eq.symm h

theorem Same.trans {a b c : Json} (h : Same a b) (h' : Same b c) : Same a c := Eq.trans h h'

theorem same_obj_iff {es' : List (String × Json)} (h : (es.map (·.1)).Nodup)
    (h' : (es'.map (·.1)).Nodup) : Same (.obj es) (.obj es') ↔
      ∀ k, (es.lookup k).map (canon .btree) = (es'.lookup k).map (canon .btree) := by
  have hkeys : ((es.map (canonEntry .btree)).map (·.1)).Nodup := by rwa [keys_canonEntry]
  have hkeys' : ((es'.map (canonEntry .btree)).map (·.1)).Nodup := by rwa [keys_canonEntry]
  have hlookup : ∀ (es : List (String × Json)) k,
      (es.map (canonEntry .btree)).lookup k = (es.lookup k).map (canon .btree) :=
    lookup_map_snd (canon .btree)
  rw [Same, canon_obj, canon_obj, Json.obj.injEq]
  constructor
  · intro heq k
    rw [← hlookup, ← hlookup, ← lookup_collect .btree hkeys, heq, lookup_collect .btree hkeys']
  · intro heq
    refine collect_btree_perm hkeys (perm_of_lookup hkeys hkeys' fun k => ?_)
    rw [hlookup, hlookup, heq]

theorem same_arr_iff {ys : List Json} :
    Same (.arr xs) (.arr ys) ↔ xs.map (canon .btree) = ys.map (canon .btree) := by
  rw [Same, canon_arr, canon_arr, Json.arr.injEq]

end Json

/-- A value whose objects have each key once. -/
structure JsonValue where
  tree : Json
  valid : tree.Valid

end Infra

/-!
## Containment of JSON values

`Json.contains d fragment` is the order `@>` of `jsonb`: a document has every member and every element that a
fragment lists, at any depth. What two fragments ask for, they ask for one after the other
(`contains_arr_append`, `contains_obj_append`).
-/

namespace Infra

namespace Json

mutual

/-- Objects by their keys, arrays element by element, in any order, scalars by equality. -/
def contains (d : Json) : Json → Bool
  | .obj es =>
    match d with
    | .obj ds => containsMembers ds es
    | _ => false
  | .arr xs =>
    match d with
    | .arr ds => containsElems ds xs
    | _ => false
  | s => eqv d s

def containsMembers (ds : List (String × Json)) : List (String × Json) → Bool
  | [] => true
  | (k, x) :: es => (ds.lookup k).any (contains · x) && containsMembers ds es

def containsElems (ds : List Json) : List Json → Bool
  | [] => true
  | x :: xs => ds.any (contains · x) && containsElems ds xs

end

variable {d : Json} {es es' : List (String × Json)} {xs xs' : List Json}

theorem contains_obj : contains d (.obj es) = match d with
    | .obj ds => containsMembers ds es
    | _ => false := by
  cases d <;> rfl

theorem contains_arr : contains d (.arr xs) = match d with
    | .arr ds => containsElems ds xs
    | _ => false := by
  cases d <;> rfl

variable {ds : List (String × Json)}

theorem containsMembers_eq_all : ∀ {es : List (String × Json)},
    containsMembers ds es = es.all fun e => (ds.lookup e.1).any (contains · e.2)
  | [] => rfl
  | _ :: _ => congrArg (_ && ·) containsMembers_eq_all

theorem containsElems_eq_all {ds : List Json} : containsElems ds xs = xs.all fun x => ds.any (contains · x) := by
  induction xs with
  | nil => rfl
  | cons _ _ ih => exact congrArg (_ && ·) ih

theorem containsMembers_iff :
    containsMembers ds es = true ↔ ∀ e ∈ es, (ds.lookup e.1).any (contains · e.2) = true := by
  rw [containsMembers_eq_all, List.all_eq_true]

theorem containsElems_iff {ds : List Json} :
    containsElems ds xs = true ↔ ∀ x ∈ xs, ds.any (contains · x) = true := by
  rw [containsElems_eq_all, List.all_eq_true]

theorem contains_arr_append : contains d (.arr (xs ++ xs')) = true ↔
    contains d (.arr xs) = true ∧ contains d (.arr xs') = true := by
  cases d <;> simp only [contains_arr, containsElems_iff, List.forall_mem_append, Bool.false_eq_true, and_self]

theorem contains_obj_append : contains d (.obj (es ++ es')) = true ↔
    contains d (.obj es) = true ∧ contains d (.obj es') = true := by
  cases d <;> simp only [contains_obj, containsMembers_iff, List.forall_mem_append, Bool.false_eq_true, and_self]

theorem contains_obj_singleton {k : String} {x : Json} :
    contains d (.obj [(k, x)]) = true ↔ ∃ v, d.get? k = some v ∧ contains v x = true := by
  cases d <;>
    simp only [contains_obj, containsMembers_iff, List.forall_mem_singleton, get?, Option.any_eq_true, Bool.false_eq_true,
      reduceCtorEq, false_and, exists_false]

theorem contains_obj_perm (h : es.Perm es') : contains d (.obj es) = true ↔ contains d (.obj es') = true := by
  cases d <;> simp only [contains_obj, containsMembers_iff, h.mem_iff]

theorem contains_obj_nil_of (h : contains d (.obj es) = true) : contains d (.obj []) = true := by
  cases d with
  | obj ds => rfl
  | _ => cases h

end Json

end Infra

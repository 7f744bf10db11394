import Mathlib.Data.List.Sort
import Mathlib.Data.String.Basic
import Mekhan.Infra.Json

/-!
# The objects of a JSON value

A JSON value keeps each object in a map. There are two implementations of that map: one sorts its
keys, one keeps them in insertion order. `collect` is what either makes of a list of pairs, and
`canon` what reading a whole tree into a value makes of it.
-/

namespace Infra

/-- The map behind an object of a JSON value. -/
inductive MapImpl where
  | btree
  | index

section

variable {α : Type}

/-- Insertion in insertion order: the value of a key that is there is replaced in place. -/
def put : List (String × α) → String × α → List (String × α)
  | [], e => [e]
  | (k, v) :: rest, e => if k = e.1 then (k, e.2) :: rest else (k, v) :: put rest e

/-- Entries are sorted by their keys. -/
def keyLe (a b : String × α) : Prop := a.1 ≤ b.1

instance : DecidableRel (keyLe (α := α)) := fun a b => inferInstanceAs (Decidable (a.1 ≤ b.1))

instance : Std.Total (keyLe (α := α)) := ⟨fun a b => le_total a.1 b.1⟩

instance : IsTrans (String × α) keyLe := ⟨fun _ _ _ hab hbc => le_trans hab hbc⟩

/-- The entries of a map after inserting pairs one after the other. -/
def collect (impl : MapImpl) (es : List (String × α)) : List (String × α) :=
  match impl with
  | .index => es.foldl put []
  | .btree => (es.foldl put []).insertionSort keyLe

/-! ## Insertion -/

variable {e x : String × α} {es : List (String × α)}

theorem keys_put_of_notMem : ∀ {m : List (String × α)}, e.1 ∉ m.map (·.1) → put m e = m ++ [e]
  | [], _ => rfl
  | (k, v) :: rest, h => by
    rw [List.map_cons, List.mem_cons, not_or] at h
    rw [put, if_neg (Ne.symm h.1), keys_put_of_notMem h.2]
    rfl

theorem keys_put_of_mem : ∀ {m : List (String × α)}, e.1 ∈ m.map (·.1) → (put m e).map (·.1) = m.map (·.1)
  | (k, v) :: rest, h => by
    by_cases hk : k = e.1
    · rw [put, if_pos hk]
      rfl
    · have hrest : e.1 ∈ rest.map (·.1) := (List.mem_cons.mp h).resolve_left (Ne.symm hk)
      rw [put, if_neg hk, List.map_cons, keys_put_of_mem hrest]
      rfl

theorem nodup_put {m : List (String × α)} (h : (m.map (·.1)).Nodup) (e : String × α) :
    ((put m e).map (·.1)).Nodup := by
  by_cases he : e.1 ∈ m.map (·.1)
  · rw [keys_put_of_mem he]
    exact h
  · rw [keys_put_of_notMem he, List.map_append, List.nodup_append]
    refine ⟨h, List.nodup_singleton _, ?_⟩
    intro a ha b hb hab
    rw [hab, List.mem_singleton.mp hb] at ha
    exact he ha

theorem nodup_foldl_put : ∀ (es : List (String × α)) {m : List (String × α)},
    (m.map (·.1)).Nodup → ((es.foldl put m).map (·.1)).Nodup
  | [], _, h => h
  | e :: es, _, h => nodup_foldl_put es (nodup_put h e)

theorem foldl_put_of_nodup : ∀ {es m : List (String × α)}, ((m ++ es).map (·.1)).Nodup →
    es.foldl put m = m ++ es
  | [], m, _ => (List.append_nil m).symm
  | e :: es, m, h => by
    have he : e.1 ∉ m.map (·.1) := by
      rw [List.map_append, List.nodup_append] at h
      intro hmem
      exact h.2.2 _ hmem _ List.mem_cons_self rfl
    rw [List.foldl_cons, keys_put_of_notMem he, foldl_put_of_nodup]
    · exact List.append_assoc ..
    · rw [List.append_assoc]
      exact h

theorem mem_put : ∀ {m : List (String × α)}, x ∈ put m e → x.2 = e.2 ∨ x ∈ m
  | [], h => Or.inl (congrArg Prod.snd (List.mem_singleton.mp h))
  | (k, v) :: rest, h => by
    rw [put] at h
    split at h
    · rcases List.mem_cons.mp h with rfl | h
      · exact Or.inl rfl
      · exact Or.inr (List.mem_cons_of_mem _ h)
    · rcases List.mem_cons.mp h with rfl | h
      · exact Or.inr List.mem_cons_self
      · exact (mem_put h).imp id (List.mem_cons_of_mem _)

theorem mem_foldl_put : ∀ {es m : List (String × α)}, x ∈ es.foldl put m → (∃ e ∈ es, x.2 = e.2) ∨ x ∈ m
  | [], _, h => Or.inr h
  | e :: es, m, h => by
    rw [List.foldl_cons] at h
    rcases mem_foldl_put h with ⟨e', he', hx⟩ | h
    · exact Or.inl ⟨e', List.mem_cons_of_mem _ he', hx⟩
    · rcases mem_put h with hx | h
      · exact Or.inl ⟨e, List.mem_cons_self .., hx⟩
      · exact Or.inr h

/-! ## What a map keeps -/

variable (impl : MapImpl)

theorem nodup_collect (es : List (String × α)) : ((collect impl es).map (·.1)).Nodup := by
  have h := nodup_foldl_put es (m := []) List.nodup_nil
  cases impl with
  | index => exact h
  | btree => exact ((List.perm_insertionSort keyLe _).map _).nodup_iff.mpr h

theorem mem_collect (h : x ∈ collect impl es) : ∃ e ∈ es, x.2 = e.2 := by
  have h' : x ∈ es.foldl put [] := by
    cases impl with
    | index => exact h
    | btree => exact (List.perm_insertionSort keyLe _).mem_iff.mp h
  rcases mem_foldl_put h' with hx | hx
  · exact hx
  · exact absurd hx (List.not_mem_nil)

theorem collect_perm (h : (es.map (·.1)).Nodup) : (collect impl es).Perm es := by
  have hput : es.foldl put [] = es := foldl_put_of_nodup h
  cases impl with
  | index => exact List.Perm.of_eq hput
  | btree =>
    rw [collect, hput]
    exact List.perm_insertionSort keyLe es

theorem collect_collect (es : List (String × α)) : collect impl (collect impl es) = collect impl es := by
  have hput : (collect impl es).foldl put [] = collect impl es :=
    foldl_put_of_nodup (nodup_collect impl es)
  cases impl with
  | index => exact hput
  | btree =>
    show ((collect .btree es).foldl put []).insertionSort keyLe = _
    rw [hput]
    exact (List.pairwise_insertionSort keyLe _).insertionSort_eq

theorem collect_btree_perm {es' : List (String × α)} (hnodup : (es.map (·.1)).Nodup)
    (hperm : es.Perm es') : collect .btree es = collect .btree es' := by
  have hnodup' : (es'.map (·.1)).Nodup := (hperm.map _).nodup_iff.mp hnodup
  rw [collect, collect, foldl_put_of_nodup (m := []) hnodup, foldl_put_of_nodup (m := []) hnodup']
  have hsorted : ∀ l : List (String × α), (l.insertionSort keyLe).Pairwise keyLe :=
    List.pairwise_insertionSort keyLe
  refine List.Perm.eq_of_pairwise ?_ (hsorted _) (hsorted _) ?_
  · intro a b ha hb hab hba
    have hkey : a.1 = b.1 := le_antisymm hab hba
    have ha' : a ∈ es := (List.perm_insertionSort keyLe _).mem_iff.mp ha
    have hb' : b ∈ es := hperm.mem_iff.mpr ((List.perm_insertionSort keyLe _).mem_iff.mp hb)
    exact List.inj_on_of_nodup_map hnodup ha' hb' hkey
  · exact (List.perm_insertionSort keyLe _).trans
      (hperm.trans (List.perm_insertionSort keyLe _).symm)

end

/-! ## Whole trees -/

namespace Json

variable (impl : MapImpl)

mutual

/-- The tree of the value that a tree is read into. -/
def canon : Json → Json
  | .arr elems => .arr (canonList elems)
  | .obj entries => .obj (collect impl (canonEntries entries))
  | .null => .null
  | .bool b => .bool b
  | .num n => .num n
  | .str s => .str s

def canonList : List Json → List Json
  | [] => []
  | x :: xs => canon x :: canonList xs

def canonEntries : List (String × Json) → List (String × Json)
  | [] => []
  | (k, x) :: xs => (k, canon x) :: canonEntries xs

end

/-- `canon` on the value of an entry. -/
def canonEntry (e : String × Json) : String × Json := (e.1, canon impl e.2)

theorem canonList_eq : ∀ xs : List Json, canonList impl xs = xs.map (canon impl)
  | [] => rfl
  | x :: xs => by rw [canonList, canonList_eq xs, List.map_cons]

theorem canonEntries_eq : ∀ es : List (String × Json), canonEntries impl es = es.map (canonEntry impl)
  | [] => rfl
  | (k, x) :: es => by rw [canonEntries, canonEntries_eq es, List.map_cons, canonEntry]

@[simp] theorem canon_arr (xs : List Json) : canon impl (.arr xs) = .arr (xs.map (canon impl)) := by
  rw [canon, canonList_eq]

@[simp] theorem canon_obj (es : List (String × Json)) :
    canon impl (.obj es) = .obj (collect impl (es.map (canonEntry impl))) := by
  rw [canon, canonEntries_eq]

@[simp] theorem keys_canonEntry (es : List (String × Json)) :
    (es.map (canonEntry impl)).map (·.1) = es.map (·.1) := by
  rw [List.map_map]
  rfl

mutual

/-- **Reading a value's own tree gives that value.** -/
theorem canon_canon : ∀ j : Json, canon impl (canon impl j) = canon impl j
  | .null => rfl
  | .bool _ => rfl
  | .num _ => rfl
  | .str _ => rfl
  | .arr xs => by
    rw [canon, canon, canonList_canonList xs]
  | .obj es => by
    have hfix := canonEntries_canonEntries es
    rw [canon, canon, canonEntries_eq impl (collect impl _), Json.obj.injEq]
    have hvalues : ∀ e ∈ canonEntries impl es, canonEntry impl e = e := by
      rw [canonEntries_eq impl (canonEntries impl es)] at hfix
      exact List.map_inj_left.mp (hfix.trans (List.map_id _).symm)
    -- The map has no other values than those just collected.
    have hmap : (collect impl (canonEntries impl es)).map (canonEntry impl) =
        collect impl (canonEntries impl es) := by
      refine (List.map_inj_left.mpr fun x hx => ?_).trans (List.map_id _)
      obtain ⟨e, he, hxe⟩ := mem_collect impl hx
      have hcanon : canon impl e.2 = e.2 := congrArg Prod.snd (hvalues e he)
      show (x.1, canon impl x.2) = x
      rw [hxe, hcanon, ← hxe]
    rw [hmap, collect_collect]

theorem canonList_canonList : ∀ xs : List Json, canonList impl (canonList impl xs) = canonList impl xs
  | [] => rfl
  | x :: xs => by rw [canonList, canonList, canon_canon x, canonList_canonList xs]

theorem canonEntries_canonEntries : ∀ es : List (String × Json),
    canonEntries impl (canonEntries impl es) = canonEntries impl es
  | [] => rfl
  | (k, x) :: es => by rw [canonEntries, canonEntries, canon_canon x, canonEntries_canonEntries es]

end

/-! ## Doubles -/

section

variable (f : BitVec 64 → BitVec 64)

mutual

/-- The tree with what `f` makes of each double. -/
def mapDoubles : Json → Json
  | .arr elems => .arr (mapDoublesList elems)
  | .obj entries => .obj (mapDoublesEntries entries)
  | .num (.float bits) => .num (.float (f bits))
  | .null => .null
  | .bool b => .bool b
  | .num n => .num n
  | .str s => .str s

def mapDoublesList : List Json → List Json
  | [] => []
  | x :: xs => mapDoubles x :: mapDoublesList xs

def mapDoublesEntries : List (String × Json) → List (String × Json)
  | [] => []
  | (k, x) :: xs => (k, mapDoubles x) :: mapDoublesEntries xs

end

end

end Json

end Infra

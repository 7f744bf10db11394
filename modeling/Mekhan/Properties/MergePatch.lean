import Mekhan.Domain.Dispatch
import Mekhan.Infra.MergePatch

/-!
# Merge patches and RFC 7396

`apply_merge_patch` against the `MergePatch` of the RFC, for both maps behind an object. The two go apart where
the patch brings in a member that the base lacks: the code inserts a clone of the patch's value, `null` members
included, where the RFC merges the value into an empty object.
-/

namespace Mekhan

open Infra Infra.MergePatch

/-! ## What the code leaves under a key -/

theorem takeOut_index_append (before after : List (String × Json)) (e : String × Json) :
    (((before ++ e :: after).set before.length ((before ++ e :: after).getLast (by simp))).dropLast).Perm
      (before ++ after) := by
  rcases List.eq_nil_or_concat after with rfl | ⟨init, last, rfl⟩
  · simp
  · have hset : (before ++ e :: init.concat last).set before.length last = before ++ last :: init ++ [last] := by
      simp
    simp only [List.concat_eq_append] at hset ⊢
    rw [List.getLast_append_of_ne_nil _ (by simp), List.getLast_cons (by simp), List.getLast_append_of_ne_nil _ (by simp),
      List.getLast_singleton, hset, List.dropLast_concat]
    exact (List.perm_append_singleton last init).symm.append_left before

theorem takeOut_perm (impl : MapImpl) (es : List (String × Json)) (key : String) :
    (takeOut impl es key).Perm (es.eraseP (·.1 = key)) := by
  cases impl with
  | btree => exact .refl _
  | index =>
    unfold takeOut
    cases hidx : es.findIdx? (·.1 = key) with
    | none => rw [List.eraseP_of_forall_not fun e he => by simpa using List.findIdx?_eq_none_iff.mp hidx e he]
    | some i =>
      obtain ⟨hi, hkey, hbefore⟩ := List.findIdx?_eq_some_iff_getElem.mp hidx
      obtain ⟨before, e, after, rfl, rfl⟩ : ∃ before e after, es = before ++ e :: after ∧ before.length = i :=
        ⟨es.take i, es[i], es.drop (i + 1), by simp, by simp [Nat.le_of_lt hi]⟩
      have hfirst : ∀ x ∈ before, ¬ decide (x.1 = key) = true := by
        intro x hx
        obtain ⟨j, hj, rfl⟩ := List.mem_iff_getElem.mp hx
        simpa [List.getElem_append_left hj] using hbefore j hj
      have he : e.1 = key := by simpa using hkey
      have herase : (e :: after).eraseP (·.1 = key) = after := by simp [he]
      rw [List.eraseP_append_right _ hfirst, herase,
        List.getLast?_eq_some_getLast (List.append_ne_nil_of_right_ne_nil _ (List.cons_ne_nil e after))]
      exact takeOut_index_append before after e

theorem lookup_takeOut (impl : MapImpl) {es : List (String × Json)} (h : (es.map (·.1)).Nodup) (key k : String) :
    (takeOut impl es key).lookup k = if k = key then none else es.lookup k := by
  have hperm := takeOut_perm impl es key
  have hnodup : ((es.eraseP (·.1 = key)).map (·.1)).Nodup := h.sublist (List.eraseP_sublist.map _)
  rw [lookup_perm ((hperm.map _).nodup_iff.mpr hnodup) hperm, lookup_eraseP h]

theorem nodup_takeOut (impl : MapImpl) {es : List (String × Json)} (h : (es.map (·.1)).Nodup) (key : String) :
    ((takeOut impl es key).map (·.1)).Nodup :=
  (((takeOut_perm impl es key).map _).nodup_iff).mpr (h.sublist (List.eraseP_sublist.map _))

def patchEntry (impl : MapImpl) (base : List (String × Json)) (key : String) (value : Json) : List (String × Json) :=
  if value = .null then takeOut impl base key
  else
    match base.lookup key with
    | some existing => put base (key, applyMergePatch impl existing value)
    | none => collect impl (base ++ [(key, value)])

/-- The member of a patched object under a key. -/
def patched (impl : MapImpl) (existing : Option Json) : Option Json → Option Json
  | none => existing
  | some value =>
    if value = .null then none
    else
      match existing with
      | some existing => some (applyMergePatch impl existing value)
      | none => some value

theorem patchEntry_spec (impl : MapImpl) {base : List (String × Json)} (h : (base.map (·.1)).Nodup) (key : String)
    (value : Json) : ((patchEntry impl base key value).map (·.1)).Nodup ∧
      ∀ k, (patchEntry impl base key value).lookup k =
        if k = key then patched impl (base.lookup key) (some value) else base.lookup k := by
  by_cases hnull : value = .null
  · have hentry : patchEntry impl base key value = takeOut impl base key := if_pos hnull
    have hpatched : patched impl (base.lookup key) (some value) = none := if_pos hnull
    rw [hentry, hpatched]
    exact ⟨nodup_takeOut impl h key, lookup_takeOut impl h key⟩
  · unfold patchEntry patched
    dsimp only
    rw [if_neg hnull, if_neg hnull]
    cases hlookup : base.lookup key with
    | some existing => exact ⟨nodup_put h _, fun k => lookup_put _ k base⟩
    | none =>
      have hkey := lookup_eq_none_iff_notMem.mp hlookup
      have hnodup : ((base ++ [(key, value)]).map (·.1)).Nodup := by
        rw [List.map_append, List.nodup_append]
        refine ⟨h, List.nodup_singleton _, ?_⟩
        rintro a ha b hb rfl
        rw [List.mem_singleton.mp hb] at ha
        exact hkey ha
      refine ⟨nodup_collect impl _, fun k => ?_⟩
      rw [lookup_collect impl hnodup, lookup_append_of_notMem hkey]

theorem applyPatchEntries_spec (impl : MapImpl) : ∀ {patch base : List (String × Json)}, (patch.map (·.1)).Nodup →
    (base.map (·.1)).Nodup → ((applyPatchEntries impl base patch).map (·.1)).Nodup ∧
      ∀ k, (applyPatchEntries impl base patch).lookup k = patched impl (base.lookup k) (patch.lookup k)
  | [], _, _, hbase => ⟨hbase, fun _ => rfl⟩
  | (key, value) :: rest, base, h, hbase => by
    obtain ⟨hkey, hrest⟩ := List.nodup_cons.mp h
    obtain ⟨hnodup, hlookup⟩ := patchEntry_spec impl hbase key value
    obtain ⟨hnodup', hlookup'⟩ := applyPatchEntries_spec impl hrest hnodup
    have hstep : applyPatchEntries impl base ((key, value) :: rest) =
        applyPatchEntries impl (patchEntry impl base key value) rest := by
      rw [applyPatchEntries]
      rfl
    rw [hstep]
    refine ⟨hnodup', fun k => ?_⟩
    rw [hlookup', hlookup, List.lookup_cons]
    by_cases hk : k = key
    · rw [hk, if_pos rfl, lookup_eq_none_iff_notMem.mpr hkey, beq_self_eq_true]
      rfl
    · rw [if_neg hk, beq_eq_false_iff_ne.mpr hk]

/-! ## Where the two agree -/

mutual

/-- Every value that the patch adds to the base is free of `null` members. -/
def AddsNoNulls (base : Json) : Json → Prop
  | .obj patch => EntriesAddNoNulls base.entries patch
  | .null => True
  | .bool _ => True
  | .num _ => True
  | .str _ => True
  | .arr _ => True

/-- Key by key; where the base has no such key, the value is free of `null`. -/
def EntriesAddNoNulls (base : List (String × Json)) : List (String × Json) → Prop
  | [] => True
  | (key, value) :: rest =>
    (match base.lookup key with
    | some existing => AddsNoNulls existing value
    | none => NullFree value) ∧ EntriesAddNoNulls base rest

end

/-- The same for what is under one name, if anything is. -/
def MemberAddsNoNulls : Option Json → Json → Prop
  | some existing, value => AddsNoNulls existing value
  | none, value => NullFree value

theorem addsNoNulls_obj {base : Json} {patch : List (String × Json)} :
    AddsNoNulls base (.obj patch) ↔ ∀ e ∈ patch, MemberAddsNoNulls (base.entries.lookup e.1) e.2 := by
  rw [AddsNoNulls]
  induction patch with
  | nil => simp [EntriesAddNoNulls]
  | cons e patch ih =>
    rw [EntriesAddNoNulls, ih, List.forall_mem_cons]
    cases base.entries.lookup e.1 <;> rfl

theorem valid_entries {base : Json} (h : base.Valid) :
    (base.entries.map (·.1)).Nodup ∧ ∀ e ∈ base.entries, e.2.Valid := by
  cases base with
  | obj es => exact Json.valid_obj.mp h
  | _ => exact ⟨List.nodup_nil, fun _ he => absurd he List.not_mem_nil⟩

theorem same_member_iff {impl : MapImpl} {existing : Option Json} {value : Json} (hvalue : value.Valid)
    (ih : ∀ base : Json, existing = some base →
      (Json.Same (applyMergePatch impl base value) (mergePatch base value) ↔ AddsNoNulls base value)) :
    ((patched impl existing (some value)).map (Json.canon .btree) =
        (merged existing (some value)).map (Json.canon .btree)) ↔ MemberAddsNoNulls existing value := by
  unfold patched merged
  dsimp only
  by_cases hnull : value = .null
  · rw [if_pos hnull, if_pos hnull, hnull]
    cases existing <;> simp [MemberAddsNoNulls, AddsNoNulls, NullFree]
  · rw [if_neg hnull, if_neg hnull]
    cases existing with
    | some base => simpa [Json.Same, MemberAddsNoNulls] using ih base rfl
    | none => simpa [Json.Same, MemberAddsNoNulls] using same_mergePatch_null_iff hvalue

/-- **The merge patch of the code is that of RFC 7396 exactly when every value that the patch adds to the base is free
of `null` members.** -/
theorem applyMergePatch_eq_rfc_iff (impl : MapImpl) (base patch : JsonValue) :
    Json.Same (applyMergePatch impl base.tree patch.tree) (mergePatch base.tree patch.tree) ↔
      AddsNoNulls base.tree patch.tree := by
  obtain ⟨base, hbase⟩ := base
  obtain ⟨patch, hpatch⟩ := patch
  dsimp only
  induction patch using Json.memInduction generalizing base with
  | obj es ih =>
    obtain ⟨hnodup, hvalid⟩ := Json.valid_obj.mp hpatch
    obtain ⟨hbaseNodup, hbaseValid⟩ := valid_entries hbase
    obtain ⟨hresult, hlookup⟩ := applyPatchEntries_spec impl hnodup hbaseNodup
    have hmember : ∀ e ∈ es, ((patched impl (base.entries.lookup e.1) (some e.2)).map (Json.canon .btree) =
        (merged (base.entries.lookup e.1) (some e.2)).map (Json.canon .btree)) ↔
          MemberAddsNoNulls (base.entries.lookup e.1) e.2 := fun e he =>
      same_member_iff (hvalid e he) fun b hb => ih e he b (hbaseValid _ (mem_of_lookup_eq_some hb)) (hvalid e he)
    show Json.Same (.obj (applyPatchEntries impl base.entries es)) (.obj (mergeMembers base.entries es)) ↔ _
    rw [Json.same_obj_iff hresult (nodup_mergeMembers es hbaseNodup), addsNoNulls_obj]
    simp only [hlookup, lookup_mergeMembers hnodup hbaseNodup]
    constructor
    · intro heq e he
      have hk := heq e.1
      rw [(lookup_eq_some_iff_mem hnodup).mpr he] at hk
      exact (hmember e he).mp hk
    · intro hadds k
      cases hk : es.lookup k with
      | none => rfl
      | some value => exact (hmember _ (mem_of_lookup_eq_some hk)).mpr (hadds _ (mem_of_lookup_eq_some hk))
  | _ => simp [applyMergePatch, mergePatch, AddsNoNulls, Json.Same]

/-- **A `null` below a key that the base lacks is kept**: the RFC makes `{"retry": {}}` of it. -/
theorem nestedNull_inserted :
    let base : JsonValue := ⟨.obj [], by simp⟩
    let patch : JsonValue := ⟨.obj [("retry", .obj [("backoff_ms", .null)])], by simp⟩
    ¬ Json.Same (applyMergePatch .btree base.tree patch.tree) (mergePatch base.tree patch.tree) ∧
      ¬ Json.Same (applyMergePatch .index base.tree patch.tree) (mergePatch base.tree patch.tree) := by
  decide

end Mekhan

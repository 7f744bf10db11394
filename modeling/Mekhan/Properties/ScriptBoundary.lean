import Mekhan.Application.Dynamic
import Mekhan.Application.RhaiRuntime
import Mekhan.Infra.JsonValue

/-!
# Token data across the script boundary

`json_to_dynamic` and back through `dynamic_to_json`. The interpreter has no integers beyond `i64`: the larger ones
of a JSON value go in as floats and come back as floats.
-/

namespace Mekhan

open Infra Infra.Json

/-! ## What comes back -/

theorem jsonsToDynamics_eq (xs : List Json) : jsonsToDynamics xs = xs.map jsonToDynamic := by
  induction xs with
  | nil => rfl
  | cons x xs ih => rw [jsonsToDynamics, ih, List.map_cons]

theorem entriesToDynamics_eq (es : List (String × Json)) :
    entriesToDynamics es = es.map fun e => (e.1, jsonToDynamic e.2) := by
  induction es with
  | nil => rfl
  | cons e es ih => rw [entriesToDynamics, ih, List.map_cons]

theorem dynamicToJsonValues_eq (xs : List Json) :
    Rhai.dynamicToJsonValues xs = xs.map Rhai.dynamicToJsonValue := by
  induction xs with
  | nil => rfl
  | cons x xs ih => rw [Rhai.dynamicToJsonValues, ih, List.map_cons]

theorem dynamicToJsonEntries_eq (es : List (String × Json)) :
    Rhai.dynamicToJsonEntries es = es.map fun e => (e.1, Rhai.dynamicToJsonValue e.2) := by
  induction es with
  | nil => rfl
  | cons e es ih => rw [Rhai.dynamicToJsonEntries, ih, List.map_cons]

theorem dynamicsToJsons_map {impl : MapImpl} {f : Json → Dynamic} {g : Json → Json} : ∀ {xs : List Json},
    (∀ x ∈ xs, dynamicToJson impl (f x) = .ok (g x)) → dynamicsToJsons impl (xs.map f) = .ok (xs.map g)
  | [], _ => rfl
  | x :: xs, h => by
    obtain ⟨hx, hxs⟩ := List.forall_mem_cons.mp h
    rw [List.map_cons, dynamicsToJsons, hx, dynamicsToJsons_map hxs]
    rfl

theorem entriesToJsons_map {impl : MapImpl} (f : Json → Dynamic) (g : Json → Json) :
    ∀ {es : List (String × Json)}, (∀ e ∈ es, dynamicToJson impl (f e.2) = .ok (g e.2)) →
      entriesToJsons impl (es.map fun e => (e.1, f e.2)) = .ok (es.map fun e => (e.1, g e.2))
  | [], _ => rfl
  | e :: es, h => by
    obtain ⟨he, hes⟩ := List.forall_mem_cons.mp h
    rw [List.map_cons, entriesToJsons, he, entriesToJsons_map f g hes]
    rfl

theorem dynamicToJson_number (impl : MapImpl) {n : Number} (h : n.Valid) :
    dynamicToJson impl (jsonToDynamic (.num n)) = .ok (Rhai.dynamicToJsonValue (.num n)) := by
  rw [jsonToDynamic, Rhai.dynamicToJsonValue]
  cases hi : n.asI64 with
  | some i => rfl
  | none =>
    -- An integer above `i64` rounds to a finite double, and a double of a value is finite.
    have hfinite : isFinite n.asF64 = true := by
      cases n with
      | posInt n =>
        have hlarge : 2 ^ 63 ≤ n := by
          by_contra hsmall
          rw [Number.asI64, if_pos (by omega)] at hi
          cases hi
        have hn : n < 2 ^ 64 := h
        obtain ⟨-, hbound⟩ := F64.magnitudeOfNat_bounds (by omega) hn
        have hbits : (F64.ofInt (Int.ofNat n)).bits.toNat = F64.magnitudeOfNat n := by
          show (BitVec.ofNat 64 (F64.magnitudeOfNat n)).toNat = _
          rw [BitVec.toNat_ofNat]
          omega
        rw [isFinite, Number.asF64, hbits, decide_eq_true_eq]
        omega
      | negInt n => exact absurd hi (by simp [Number.asI64])
      | float bits => exact decide_eq_true h
    rw [dynamicToJson, if_pos hfinite]

/-- **A value comes back with its objects sorted and its large integers as floats.** -/
theorem dynamicToJson_jsonToDynamic (impl : MapImpl) {j : Json} (h : j.Valid) :
    dynamicToJson impl (jsonToDynamic j) = .ok (canon .btree (Rhai.dynamicToJsonValue j)) := by
  induction j using Json.memInduction with
  | num n =>
    rw [dynamicToJson_number impl h]
    rw [Rhai.dynamicToJsonValue]
    split <;> rfl
  | arr xs ih =>
    rw [valid_arr] at h
    rw [jsonToDynamic, dynamicToJson, jsonsToDynamics_eq,
      dynamicsToJsons_map (g := fun x => canon .btree (Rhai.dynamicToJsonValue x)) fun x hx => ih x hx (h x hx),
      Rhai.dynamicToJsonValue, dynamicToJsonValues_eq, canon_arr, List.map_map]
    rfl
  | obj es ih =>
    obtain ⟨hnodup, hvalid⟩ := valid_obj.mp h
    have hperm := collect_perm .btree hnodup
    have hentries : entriesToJsons impl ((collect .btree es).map fun e => (e.1, jsonToDynamic e.2)) =
        .ok ((collect .btree es).map fun e => (e.1, canon .btree (Rhai.dynamicToJsonValue e.2))) :=
      entriesToJsons_map jsonToDynamic (fun x => canon .btree (Rhai.dynamicToJsonValue x)) fun e he =>
        ih e (hperm.mem_iff.mp he) (hvalid e (hperm.mem_iff.mp he))
    have hkeys : ((collect .btree es).map fun e => (e.1, canon .btree (Rhai.dynamicToJsonValue e.2))).map (·.1) =
        (collect .btree es).map (·.1) := by
      rw [List.map_map]
      rfl
    have hsorted : ((collect .btree es).map fun e => (e.1, canon .btree (Rhai.dynamicToJsonValue e.2))).Pairwise
        keyLe := by
      rw [List.pairwise_map]
      exact List.pairwise_insertionSort keyLe _
    have hcollect := collect_sorted impl (hkeys ▸ nodup_collect .btree es) hsorted
    rw [jsonToDynamic, dynamicToJson, entriesToDynamics_eq, collect_map_snd, hentries, Except.map, hcollect,
      Rhai.dynamicToJsonValue, dynamicToJsonEntries_eq, canon_obj, List.map_map]
    exact congrArg (fun l => Except.ok (Json.obj l))
      (collect_map_snd .btree (fun x => canon .btree (Rhai.dynamicToJsonValue x)) es).symm
  | _ => rfl

/-! ## What comes back unchanged -/

mutual

/-- Every integer of the value fits an `i64`. -/
def IntegersFit : Json → Prop
  | .num (.posInt n) => n < 2 ^ 63
  | .num _ => True
  | .arr elems => IntegersFitList elems
  | .obj entries => IntegersFitEntries entries
  | .null => True
  | .bool _ => True
  | .str _ => True

def IntegersFitList : List Json → Prop
  | [] => True
  | x :: xs => IntegersFit x ∧ IntegersFitList xs

/-- The values of an object; keys are not converted. -/
def IntegersFitEntries : List (String × Json) → Prop
  | [] => True
  | (_, x) :: xs => IntegersFit x ∧ IntegersFitEntries xs

end

theorem integersFit_arr {xs : List Json} : IntegersFit (.arr xs) ↔ ∀ x ∈ xs, IntegersFit x := by
  rw [IntegersFit]
  induction xs with
  | nil => simp [IntegersFitList]
  | cons x xs ih => rw [IntegersFitList, ih, List.forall_mem_cons]

theorem integersFit_obj {es : List (String × Json)} : IntegersFit (.obj es) ↔ ∀ e ∈ es, IntegersFit e.2 := by
  rw [IntegersFit]
  induction es with
  | nil => simp [IntegersFitEntries]
  | cons e es ih => rw [IntegersFitEntries, ih, List.forall_mem_cons]

theorem same_number_iff {n : Number} : Same (Rhai.dynamicToJsonValue (.num n)) (.num n) ↔ IntegersFit (.num n) := by
  cases n with
  | posInt n =>
    rw [Rhai.dynamicToJsonValue, IntegersFit, Number.asI64]
    by_cases hn : n < 2 ^ 63
    · rw [if_pos hn]
      exact iff_of_true rfl hn
    · rw [if_neg hn]
      exact iff_of_false (by simp [Same, canon]) hn
  | negInt n => exact iff_of_true rfl trivial
  | float bits => exact iff_of_true rfl trivial

theorem same_dynamicToJsonValue_iff {j : Json} (h : j.Valid) :
    Same (Rhai.dynamicToJsonValue j) j ↔ IntegersFit j := by
  induction j using Json.memInduction with
  | num n => exact same_number_iff
  | arr xs ih =>
    rw [valid_arr] at h
    rw [Rhai.dynamicToJsonValue, dynamicToJsonValues_eq, same_arr_iff, List.map_map, List.map_inj_left,
      integersFit_arr]
    exact forall₂_congr fun x hx => ih x hx (h x hx)
  | obj es ih =>
    obtain ⟨hnodup, hvalid⟩ := valid_obj.mp h
    have hkeys : ((es.map fun e => (e.1, Rhai.dynamicToJsonValue e.2)).map (·.1)).Nodup := by
      rw [List.map_map]
      exact hnodup
    rw [Rhai.dynamicToJsonValue, dynamicToJsonEntries_eq, same_obj_iff hkeys hnodup, integersFit_obj]
    simp only [lookup_map_snd]
    constructor
    · intro heq e he
      have hk := heq e.1
      rw [(lookup_eq_some_iff_mem hnodup).mpr he] at hk
      exact (ih e he (hvalid e he)).mp (Option.some.inj hk)
    · intro hfit k
      cases hk : es.lookup k with
      | none => rfl
      | some v =>
        have hmem := mem_of_lookup_eq_some hk
        exact congrArg some ((ih _ hmem (hvalid _ hmem)).mpr (hfit _ hmem))
  | _ => exact iff_of_true rfl trivial

/-- **A value survives the way into a script and back exactly when all its integers fit an `i64`.** -/
theorem scriptBoundary_keeps_iff (impl : MapImpl) (v : JsonValue) :
    (∃ w, dynamicToJson impl (jsonToDynamic v.tree) = .ok w ∧ Same w v.tree) ↔ IntegersFit v.tree := by
  rw [dynamicToJson_jsonToDynamic impl v.valid, ← same_dynamicToJsonValue_iff v.valid]
  constructor
  · rintro ⟨w, hw, hsame⟩
    rw [← Except.ok.inj hw] at hsame
    exact (canon_canon .btree _).symm.trans hsame
  · intro hsame
    exact ⟨_, rfl, (canon_canon .btree _).trans hsame⟩

/-- **The number `2^63 + 1` of a token comes back as the float `2^63`.** -/
theorem largeInteger_altered :
    let v : JsonValue := ⟨.obj [("id", .num (.posInt (2 ^ 63 + 1)))], by simp [Number.Valid]⟩
    ¬ ∃ w, dynamicToJson .btree (jsonToDynamic v.tree) = .ok w ∧ Same w v.tree := by
  rintro v ⟨w, hw, hsame⟩
  cases hw
  revert hsame
  decide

end Mekhan

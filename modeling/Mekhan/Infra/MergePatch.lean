import Mekhan.Infra.JsonValue

/-!
# JSON merge patches

`MergePatch(Target, Patch)` of RFC 7396, on trees. A target that is not an object counts as an empty one, also
where there is no target at all; a `null` member of the patch removes a member of the target and is never put
into it. So a patch for nothing gives the patch back only when it has no `null` member (`same_mergePatch_null_iff`).
-/

namespace Infra

namespace MergePatch

mutual

/-- A `null` removes, an object goes in depth, and anything else replaces. -/
def mergePatch (target : Json) : Json → Json
  | .obj patch => .obj (mergeMembers target.entries patch)
  | .null => .null
  | .bool b => .bool b
  | .num n => .num n
  | .str s => .str s
  | .arr elems => .arr elems

/-- The loop over the name/value pairs of the patch. -/
def mergeMembers (target : List (String × Json)) : List (String × Json) → List (String × Json)
  | [] => target
  | (name, value) :: rest =>
    let merged :=
      if value = .null then target.eraseP (·.1 = name)
      else put target (name, mergePatch ((target.lookup name).getD .null) value)
    mergeMembers merged rest

end

/-! ## What a patch leaves under a name -/

theorem nodup_mergeMembers : ∀ (patch : List (String × Json)) {target : List (String × Json)},
    (target.map (·.1)).Nodup → ((mergeMembers target patch).map (·.1)).Nodup
  | [], _, h => h
  | (name, value) :: rest, target, h => by
    rw [mergeMembers]
    refine nodup_mergeMembers rest ?_
    split
    · exact h.sublist (List.eraseP_sublist.map _)
    · exact nodup_put h _

/-- The member of a merged object under a name. -/
def merged (existing : Option Json) : Option Json → Option Json
  | none => existing
  | some value => if value = .null then none else some (mergePatch (existing.getD .null) value)

theorem lookup_mergeMembers : ∀ {patch target : List (String × Json)}, (patch.map (·.1)).Nodup →
    (target.map (·.1)).Nodup → ∀ k, (mergeMembers target patch).lookup k = merged (target.lookup k) (patch.lookup k)
  | [], _, _, _, k => rfl
  | (name, value) :: rest, target, h, htarget, k => by
    obtain ⟨hname, hrest⟩ := List.nodup_cons.mp h
    rw [mergeMembers, lookup_mergeMembers hrest ?_ k, List.lookup_cons]
    · by_cases hk : k = name
      · -- No later pair has this name.
        rw [hk, lookup_eq_none_iff_notMem.mpr hname, beq_self_eq_true, merged, merged]
        split
        · rw [lookup_eraseP htarget, if_pos rfl]
        · rw [lookup_put, if_pos rfl]
      · rw [beq_eq_false_iff_ne.mpr hk]
        congr 1
        split
        · rw [lookup_eraseP htarget, if_neg hk]
        · rw [lookup_put, if_neg hk]
    · split
      · exact htarget.sublist (List.eraseP_sublist.map _)
      · exact nodup_put htarget _

/-! ## A patch for nothing -/

mutual

/-- No member is `null`, in the object and in the objects nested in it. -/
def NullFree : Json → Prop
  | .obj entries => NullFreeEntries entries
  | .null => True
  | .bool _ => True
  | .num _ => True
  | .str _ => True
  | .arr _ => True

/-- No member is `null`, at any depth. -/
def NullFreeEntries : List (String × Json) → Prop
  | [] => True
  | (_, value) :: rest => value ≠ .null ∧ NullFree value ∧ NullFreeEntries rest

end

@[simp] theorem nullFree_obj {es : List (String × Json)} :
    NullFree (.obj es) ↔ ∀ e ∈ es, e.2 ≠ .null ∧ NullFree e.2 := by
  rw [NullFree]
  induction es with
  | nil => simp [NullFreeEntries]
  | cons e es ih => rw [NullFreeEntries, ih, List.forall_mem_cons, and_assoc]

/-- **A patch for an absent member gives the patch itself exactly when it has no `null` member.** -/
theorem same_mergePatch_null_iff {value : Json} (h : value.Valid) :
    Json.Same value (mergePatch .null value) ↔ NullFree value := by
  induction value using Json.memInduction with
  | obj es ih =>
    obtain ⟨hnodup, hvalid⟩ := Json.valid_obj.mp h
    have hempty : (([] : List (String × Json)).map (·.1)).Nodup := List.nodup_nil
    show Json.Same (.obj es) (.obj (mergeMembers [] es)) ↔ _
    rw [Json.same_obj_iff hnodup (nodup_mergeMembers es hempty), nullFree_obj]
    simp only [lookup_mergeMembers hnodup hempty, List.lookup_nil]
    constructor
    · intro heq e he
      have hk := heq e.1
      rw [(lookup_eq_some_iff_mem hnodup).mpr he, merged] at hk
      split at hk
      · cases hk
      · next hne => exact ⟨hne, (ih e he (hvalid e he)).mp (Option.some.inj hk)⟩
    · intro hfree k
      cases hk : es.lookup k with
      | none => rfl
      | some v =>
        have hmem := mem_of_lookup_eq_some hk
        obtain ⟨hne, hv⟩ := hfree _ hmem
        rw [merged, if_neg hne]
        exact congrArg some ((ih _ hmem (hvalid _ hmem)).mpr hv)
  | _ => simp [mergePatch, NullFree, Json.Same]

end MergePatch

end Infra

import Mekhan.Domain.Net
import Mekhan.Infra.JsonValue

/-!
# Dispatch options

`domain/src/dispatch.rs`: what a run may override of a net, and the merge patch it does it with.
-/

namespace Infra

/-- Takes a key out of the entries of an object. The insertion-ordered map moves its last entry to
the gap. -/
def takeOut (impl : MapImpl) (entries : List (String × Json)) (key : String) :
    List (String × Json) :=
  match impl with
  | .btree => entries.eraseP (·.1 = key)
  | .index =>
    match entries.findIdx? (·.1 = key), entries.getLast? with
    | some i, some last => (entries.set i last).dropLast
    | _, _ => entries

end Infra

namespace Mekhan

open Infra

mutual

def applyMergePatch (impl : MapImpl) (base : Json) : Json → Json
  | .obj patch => .obj (applyPatchEntries impl base.entries patch)
  | .null => .null
  | .bool b => .bool b
  | .num n => .num n
  | .str s => .str s
  | .arr elems => .arr elems

/-- The loop of `apply_merge_patch` over the entries of the patch. -/
def applyPatchEntries (impl : MapImpl) (base : List (String × Json)) :
    List (String × Json) → List (String × Json)
  | [] => base
  | (key, value) :: rest =>
    let merged :=
      if value = .null then takeOut impl base key
      else
        match base.lookup key with
        | some existing => put base (key, applyMergePatch impl existing value)
        | none => collect impl (base ++ [(key, value)])
    applyPatchEntries impl merged rest

end

structure DispatchOptions where
  skipMask : List String
  stageOverrides : HashMap String Json

def DispatchOptions.default : DispatchOptions := ⟨[], ∅⟩

/-- `apply_stage_override`: the configuration of an effect after the patch of this run. -/
def applyStageOverride (impl : MapImpl) (base : Option Json) (options : DispatchOptions)
    (transitionId : String) : Option Json :=
  match options.stageOverrides.lookup transitionId with
  | none => base
  | some patch => some (applyMergePatch impl (base.getD (.obj [])) patch)

end Mekhan

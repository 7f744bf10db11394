import Mekhan.Application.Executor
import Mekhan.Infra.JsonMap

/-!
# Token data in a script

The two converters of `application/src/rhai_runtime.rs` between JSON values and the values of the interpreter, and
the run of a guard on the values of its ports.
-/

namespace Mekhan

open Infra

/-- A value of the interpreter. `map` lists a `BTreeMap` in the order of its keys; `other` is a value of any other
type (a character, a timestamp, a function pointer) by its text. -/
inductive Dynamic where
  | unit
  | bool (b : Bool)
  | int (i : Int)
  | float (f : F64)
  | string (s : String)
  | array (elems : List Dynamic)
  | map (entries : List (String × Dynamic))
  | other (text : String)

mutual

def jsonToDynamic : Json → Dynamic
  | .null => .unit
  | .bool b => .bool b
  | .num n =>
    match n.asI64 with
    | some i => .int i
    | none => .float n.asF64
  | .str s => .string s
  | .arr elems => .array (jsonsToDynamics elems)
  | .obj entries => .map (collect .btree (entriesToDynamics entries))

def jsonsToDynamics : List Json → List Dynamic
  | [] => []
  | x :: xs => jsonToDynamic x :: jsonsToDynamics xs

def entriesToDynamics : List (String × Json) → List (String × Dynamic)
  | [] => []
  | (k, x) :: xs => (k, jsonToDynamic x) :: entriesToDynamics xs

end

def isFinite (f : F64) : Bool := f.bits.toNat % 2 ^ 63 < 0x7FF0000000000000

/-- The text of a float that is not finite. -/
def nonFiniteText (f : F64) : String :=
  if f.isNaN then "NaN" else if f.bits.toNat < 2 ^ 63 then "inf" else "-inf"

mutual

/-- `dynamic_to_json`, into the map behind the objects of a JSON value. -/
def dynamicToJson (impl : MapImpl) : Dynamic → Except ServiceError Json
  | .unit => .ok .null
  | .bool b => .ok (.bool b)
  | .int i => .ok (.num (.ofInt i))
  | .float f =>
    if isFinite f then .ok (.num (.float f.bits))
    else .error (.scriptError "conversion" s!"Cannot convert float {nonFiniteText f} to JSON")
  | .string s => .ok (.str s)
  | .array elems => (dynamicsToJsons impl elems).map .arr
  | .map entries => (entriesToJsons impl entries).map fun es => .obj (collect impl es)
  | .other text => .ok (.str text)

def dynamicsToJsons (impl : MapImpl) : List Dynamic → Except ServiceError (List Json)
  | [] => .ok []
  | x :: xs => do
    let j ← dynamicToJson impl x
    let js ← dynamicsToJsons impl xs
    return j :: js

def entriesToJsons (impl : MapImpl) : List (String × Dynamic) → Except ServiceError (List (String × Json))
  | [] => .ok []
  | (k, x) :: xs => do
    let j ← dynamicToJson impl x
    let js ← entriesToJsons impl xs
    return (k, j) :: js

end

/-! ## Guards -/

/-- The variables of a script, in the order in which they were pushed. -/
abbrev Scope := List (String × Dynamic)

/-- The variable of a name is the one pushed last. -/
def Scope.value (scope : Scope) (name : String) : Option Dynamic := scope.reverse.lookup name

def buildScope (inputs : HashMap String Json) : Scope := inputs.toPairs.map fun e => (e.1, jsonToDynamic e.2)

/-- The Rhai engine: `eval_with_scope::<bool>`, with the scope as the script leaves it, and the properties
that its packages give to values that are not object maps. -/
structure RhaiEngine where
  evalWithScope : Scope → String → Except String Bool × Scope
  property : Dynamic → String → Option Dynamic

def RhaiEngine.evaluateGuard (engine : RhaiEngine) (script : String) (inputs : HashMap String Json) :
    Except ScriptFailure Bool :=
  match (engine.evalWithScope (buildScope inputs) script).1 with
  | .ok b => .ok b
  | .error message => .error ⟨"guard", message⟩

end Mekhan

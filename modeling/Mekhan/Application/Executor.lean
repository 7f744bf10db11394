import Mekhan.Application.Errors
import Mekhan.Domain.Net

/-!
# Scripts, schemas and token data

The two engines the application layer calls into, the Rhai interpreter behind `TransitionExecutor`
and the JSON Schema validator behind `SchemaRegistry`, are parameters: structures of the functions
the code calls. What surrounds them (`rhai_runtime.rs`'s conversions, the registry's lookup of a
reference) is the code's own.
-/

namespace Mekhan

open Infra

/-! ## The interpreter -/

/-- What an interpreter run that fails reports; `message` is the engine's text. -/
structure ScriptFailure where
  scriptType : String
  message : String

def ScriptFailure.toServiceError (f : ScriptFailure) : ServiceError :=
  .scriptError f.scriptType f.message

/-- The Rhai engine as `TransitionExecutor` uses it. -/
structure TransitionExecutor where
  evaluateGuard : String → HashMap String Json → Except ScriptFailure Bool
  evaluatePriority : String → HashMap String Json → Option F64
  executeScript : String → HashMap String Json → Except ScriptFailure (HashMap String Json)

/-! ## Schemas -/

/-- `SchemaRegistry`: the names it has validators for and what each says of a value, `none` for
valid data and the validator's text otherwise. -/
structure SchemaRegistry where
  validators : HashMap String (Json → Option String)

/-- Removes a prefix of characters if it is there. -/
def stripPrefix (pre s : String) : String :=
  if pre.toList.isPrefixOf s.toList then String.ofList (s.toList.drop pre.length) else s

/-- `validate`, by `"#/definitions/Foo"` or plain `"Foo"`. -/
def SchemaRegistry.validate (r : SchemaRegistry) (schemaRef : String) (data : Json) :
    Except SchemaValidationError Unit :=
  match r.validators.lookup (stripPrefix "#/definitions/" schemaRef) with
  | none => .error (.unknownSchemaRef schemaRef)
  | some validator =>
    match validator data with
    | some message => .error (.validationFailed schemaRef message)
    | none => .ok ()

/-! ## Token data -/

def jsonToTokenColor : Json → TokenColor
  | .null => .unit
  | .num n =>
    match n.asI64 with
    | some i => .integer i
    | none => .data (.num n)
  | v => .data v

def tokenColorToJson : TokenColor → Json
  | .unit => .null
  | .integer i => .num (.ofInt i)
  | .data v => v

end Mekhan

import Mekhan.Compiler.HumanTask
import Mekhan.Infra.SortedEntries

/-!
# Token shapes

`service/src/compiler/token_shape/`: the shape of a token (`types.rs`), of a JSON schema (`schema_parse.rs`)
and of a port (`port.rs`), and what each kind of node makes of the shape that arrives at it (`analyze.rs`).

An object holds its fields in the order of their names, as the map of the code is walked.
Of a field's provenance nothing is kept.
-/

namespace Mekhan

namespace TokenShapes

open Infra HumanTask

/-- The scalar types the compiler tells apart. -/
inductive ScalarTy where
  | string | number | bool | fileRef | timestamp | json
  deriving DecidableEq

/-- What the compiler knows statically of a token's colour. -/
inductive TokenShape where
  | object (fields : List (String × TokenShape))
  | array (elem : TokenShape)
  | scalar (ty : ScalarTy)
  | any
  /-- `Opaque`. -/
  | unexpanded (note : String)
  /-- A JSON schema, and the shape it is read as. -/
  | schema (raw : Json) (structural : TokenShape)

namespace TokenShape

/-- `insert`: nothing happens to what is no object. -/
def insert (o : TokenShape) (key : String) (shape : TokenShape) : TokenShape :=
  match o with
  | .object fields => .object (insertEntry key shape fields)
  | other => other

def isObject : TokenShape → Bool
  | .object _ => true
  | _ => false

mutual

/-- Merges a shape into a slot; `deep` also where both sides are objects. -/
def mergeFrom (deep : Bool) (slot : TokenShape) : TokenShape → TokenShape
  | .object b =>
    match slot with
    | .object a => .object (mergeFields deep a b)
    | _ => .object b
  | other => other

/-- The loop over the fields of the other object. -/
def mergeFields (deep : Bool) (a : List (String × TokenShape)) :
    List (String × TokenShape) → List (String × TokenShape)
  | [] => a
  | (k, v) :: b =>
    let merged :=
      match a.lookup k with
      | some (.object x) => if deep && v.isObject then mergeFrom true (.object x) v else v
      | _ => v
    mergeFields deep (insertEntry k merged a) b

end

/-- The shape behind a schema. -/
def structuralOf : TokenShape → TokenShape
  | .schema _ structural => structural
  | other => other

/-- Follows a path of field names. -/
def resolve : TokenShape → List String → Option TokenShape
  | shape, [] => some shape.structuralOf
  | shape, seg :: segs =>
    match shape.structuralOf with
    | .object fields => (fields.lookup seg).bind fun s => s.resolve segs
    | _ => none

mutual

/-- The keys on the way to the first field with a name, depth first. -/
def findLeaf (name : String) : TokenShape → Option (List String)
  | .object fields => findIn name fields
  | .schema _ (.object fields) => findIn name fields
  | _ => none

/-- The first field of the name in document order, in depth first. -/
def findIn (name : String) : List (String × TokenShape) → Option (List String)
  | [] => none
  | (k, s) :: rest =>
    if k = name then some [k]
    else
      match findLeaf name s with
      | some path => some (k :: path)
      | none => findIn name rest

end

def dotted : List String → String
  | [] => ""
  | [k] => k
  | k :: path => k ++ "." ++ dotted path

/-- The dotted path of the first field of that name. -/
def findByLeaf (shape : TokenShape) (name : String) : Option String := (shape.findLeaf name).map dotted

end TokenShape

/-! ## Schemas -/

/-- An `enum` has the type of its first constant. -/
def enumScalar : List Json → ScalarTy
  | .num _ :: _ => .number
  | .bool _ :: _ => .bool
  | _ => .string

/-- `resolve_ref` of a pointer to a definition. -/
def resolvePointer (pointer : String) (definitions : List (String × Json)) : Option Json := do
  let name ← (pointer.dropPrefix? "#/definitions/").orElse fun _ => pointer.dropPrefix? "#/$defs/"
  let name := name.toString
  if name.isEmpty || name.contains '/' then none
  else definitions.lookup ((name.replace "~1" "/").replace "~0" "~")

/-- How deep schemas are followed, so that recursive references end. -/
def depthCap : Nat := 64

/-- `walk`, with what is left of the depth. -/
def schemaWalk (definitions : List (String × Json)) : Nat → Json → TokenShape
  | 0, _ => .any
  | fuel + 1, .obj entries =>
    let enumerated : TokenShape :=
      match entries.lookup "enum" with
      | some (.arr values) => .scalar (enumScalar values)
      | _ => .any
    match entries.lookup "$ref" with
    | some (.str pointer) =>
      match resolvePointer pointer definitions with
      | some target => schemaWalk definitions fuel target
      | none => .any
    | _ =>
      if ["oneOf", "anyOf", "allOf", "not"].any fun k => (entries.lookup k).isSome then .any
      else
        match entries.lookup "type" with
        | some (.str "object") =>
          match entries.lookup "properties" with
          | some (.obj props) => .object (insertAll [] (props.map fun p => (p.1, schemaWalk definitions fuel p.2)))
          | _ => .object []
        | some (.str "array") =>
          .array (match entries.lookup "items" with
            | some items => schemaWalk definitions fuel items
            | none => .any)
        | some (.str "string") => .scalar .string
        | some (.str "integer") | some (.str "number") => .scalar .number
        | some (.str "boolean") => .scalar .bool
        | _ => enumerated
  | _ + 1, _ => .any

/-- The structure a JSON schema describes. -/
def jsonSchemaToTokenShape (definitions : List (String × Json)) (schema : Json) : TokenShape :=
  schemaWalk definitions (depthCap + 1) schema

/-! ## Ports -/

/-- The kinds of a port's fields. -/
inductive FieldKind where
  | text | textarea | number | bool | select | file | signature | timestamp | json | object | array
  deriving DecidableEq

/-- `ScalarTy::from_kind`. -/
def ScalarTy.ofKind : FieldKind → ScalarTy
  | .text | .textarea | .select | .signature => .string
  | .number => .number
  | .bool => .bool
  | .file => .fileRef
  | .timestamp => .timestamp
  | .json | .object | .array => .json

/-- `FieldKind::from` a form field's kind. -/
def FieldKind.ofTask : TaskFieldKind → FieldKind
  | .text | .date => .text
  | .textarea => .textarea
  | .number | .range | .rating => .number
  | .select | .radio => .select
  | .checkbox => .bool
  | .file => .file
  | .signature => .signature

/-- A field that a port declares, with a schema where one is given. -/
structure PortField where
  name : String
  kind : FieldKind
  schema : Option Json

/-- What a node declares to take or give. -/
structure Port where
  fields : List PortField

/-- A file is referred to by an object of three texts. -/
def fileShape : TokenShape :=
  .object (insertAll [] [("url", .scalar .string), ("filename", .scalar .string), ("content_type", .scalar .string)])

/-- A schema wins over the kind. -/
def PortField.shape (definitions : List (String × Json)) (f : PortField) : TokenShape :=
  match f.schema with
  | some schema => .schema schema (jsonSchemaToTokenShape definitions schema)
  | none =>
    match f.kind with
    | .file => fileShape
    | .object => .object []
    | .array => .array .any
    | k => .scalar (.ofKind k)

/-- The fields of `port_to_shape`. -/
def portFields (definitions : List (String × Json)) (port : Port) : List (String × TokenShape) :=
  insertAll [] (port.fields.map fun f => (f.name, f.shape definitions))

/-! ## Forms -/

/-- The loop of `derive_human_task_output_port`: the first field of a name counts. -/
def deriveFields : List String → List TaskFieldConfig → List PortField
  | _, [] => []
  | seen, f :: fs =>
    if f.name ∈ seen then deriveFields seen fs
    else ⟨f.name, .ofTask f.kind, none⟩ :: deriveFields (f.name :: seen) fs

def inputField? : TaskBlockConfig → Option TaskFieldConfig
  | .input f => some f
  | _ => none

/-- A task gives what its input fields ask. -/
def deriveHumanTaskOutputPort (steps : List TaskStepConfig) : Port :=
  ⟨deriveFields [] ((steps.flatMap (·.blocks)).filterMap inputField?)⟩

/-- An item of a repeater is an object of the block's fields. -/
def repeaterElementToShape (blocks : List TaskBlockConfig) : TokenShape :=
  .object (insertAll [] ((blocks.filterMap inputField?).map fun f =>
    (f.name, (⟨f.name, .ofTask f.kind, none⟩ : PortField).shape [])))

/-- A repeater with an output slug gives an array under it. -/
def repeaterEntry? : TaskBlockConfig → Option (String × TokenShape)
  | .repeater _ _ blocks outputSlug =>
    let key := trim outputSlug.toList
    if key.isEmpty then none else some (String.ofList key, .array (repeaterElementToShape blocks))
  | _ => none

/-- The fields of the form: those of its port, and its repeaters. -/
def formFields (definitions : List (String × Json)) (steps : List TaskStepConfig) : List (String × TokenShape) :=
  insertAll (portFields definitions (deriveHumanTaskOutputPort steps))
    ((steps.flatMap (·.blocks)).filterMap repeaterEntry?)

/-! ## Nodes -/

/-- What a channel carries. -/
inductive ElementType where
  | json (schema : Json)
  | binary (contentType : String)
  | any

/-- A named stream of a node. -/
structure Channel where
  name : String
  isData : Bool
  element : ElementType

/-- The node data, as far as shapes depend on it. Of an automated step and an agent the port is the first one
of `output_ports`. -/
inductive NodeData where
  | start (initial : Port) (processName : Option String)
  | humanTask (steps : List TaskStepConfig) (stepsRef : Option String)
  | automatedStep (output : Port) (pooled : Bool) (channels : List Channel)
  | agent (output : Port)
  | subWorkflow (output : Port)
  | loop (accumulators : List String)
  | leaseScope
  | map (itemVar : String) (output : Option Port)
  | join (deepMerge : Bool)
  | streamSource (channels : List Channel)
  | streamSink (channels : List Channel)
  | end | decision | parallelSplit | scope | phaseUpdate | progressUpdate | failure | delay | timeout | trigger

/-- A node of the graph, with the data of its kind. -/
structure WorkflowNode where
  id : String
  /-- `node.slug()`. -/
  slug : String
  parentId : Option String
  data : NodeData

namespace NodeData

/-- The kind, as the borrow resolution tells nodes apart. -/
def kind : NodeData → Borrow.NodeKind
  | .start _ _ => .start
  | .humanTask _ _ => .humanTask
  | .automatedStep _ _ _ => .automatedStep
  | .agent _ => .agent
  | .subWorkflow _ => .subWorkflow
  | .loop _ => .loop
  | .leaseScope => .leaseScope
  | .map _ _ => .map
  | .join _ => .join
  | .streamSource _ => .streamSource
  | .streamSink _ => .streamSink
  | .end => .end
  | .decision => .decision
  | .parallelSplit => .parallelSplit
  | .scope => .scope
  | .phaseUpdate => .phaseUpdate
  | .progressUpdate => .progressUpdate
  | .failure => .failure
  | .delay => .delay
  | .timeout => .timeout
  | .trigger => .trigger

/-- The channels a node publishes. -/
def channels : NodeData → List Channel
  | .automatedStep _ _ channels | .streamSource channels | .streamSink channels => channels
  | _ => []

/-- The first port of `output_ports`, of the kinds whose fields can be referred to by `<slug>.<field>`. -/
def firstOutputPort : NodeData → Option Port
  | .start initial _ => some initial
  | .humanTask steps stepsRef => some (if stepsRef.isSome then ⟨[]⟩ else deriveHumanTaskOutputPort steps)
  | .automatedStep output _ _ | .agent output | .subWorkflow output => some output
  | _ => none

/-- Where the node's output sits in its parked token. -/
def hoistPath : NodeData → List String
  | .humanTask _ _ => ["data"]
  | .automatedStep _ _ _ | .agent _ => ["detail", "outputs"]
  | _ => []

end NodeData

/-! ## What a node emits -/

section

variable (definitions : List (String × Json))

/-- A start gives its port's fields and the instance's own ids. -/
def outShapeStart (initial : Port) (processName : Option String) : TokenShape :=
  let o := (TokenShape.object (portFields definitions initial)).insert "_instance_id" (.scalar .string)
  if processName.isSome then o.insert "_process_name" (.scalar .string) else o

/-- `out_shape_human_task`, where the steps come from another node. -/
def outShapeDynamicTask (inShape : TokenShape) : TokenShape :=
  ((((((inShape.insert "task_id" (.scalar .string)).insert "status" (.scalar .string)).insert "data" .any).insert
    "title" .any).insert "instructions_mdsvex" .any).insert "steps" (.array .any))

/-- The keys of a completed task beside its data. -/
def taskEnvelope : List String :=
  ["title", "instructions_mdsvex", "place", "net_id", "response_subject", "completed_at"]

/-- `out_shape_human_task` of static steps. -/
def outShapeStaticTask (steps : List TaskStepConfig) (inShape : TokenShape) : TokenShape :=
  let o := (inShape.insert "task_id" (.scalar .string)).insert "status" (.scalar .string)
  let o := o.insert "data" (.object (formFields definitions steps))
  let o := taskEnvelope.foldl (fun o k => o.insert k (.scalar .string)) o
  o.insert "steps" (.array .any)

/-- `out_shape_automated_step`, of an agent too. -/
def outShapeAutomatedStep (output : Port) (holdsLease : Bool) : TokenShape :=
  let outputs : TokenShape :=
    if output.fields.isEmpty then .unexpanded "executor outputs (undeclared)" else .object (portFields definitions output)
  let detail := ((TokenShape.object []).insert "outputs" outputs).insert "exit_code" (.scalar .number)
  let o := ((((((TokenShape.object []).insert "execution_id" (.scalar .string)).insert "job_id" (.scalar .string)).insert
    "run" (.scalar .number)).insert "status" (.scalar .string)).insert "source" (.scalar .string)).insert "detail" detail
  if holdsLease then o.insert "lease" (.unexpanded "typed pool lease (Lease__<backend>)") else o

/-- Without a declared output, what came in passes through. -/
def outShapeSubWorkflow (output : Port) (inShape : TokenShape) : TokenShape :=
  if output.fields.isEmpty then inShape else .object (portFields definitions output)

/-- A loop adds its counter and its accumulators under its slug. -/
def outShapeLoop (slug : String) (accumulators : List String) (inShape : TokenShape) : TokenShape :=
  inShape.insert slug (accumulators.foldl (fun ns v => ns.insert v .any)
    ((TokenShape.object []).insert "iteration" (.scalar .number)))

/-- The scope adds the lease under its slug. -/
def outShapeLeaseScope (slug : String) (inShape : TokenShape) : TokenShape :=
  inShape.insert slug ((TokenShape.object []).insert "lease" .any)

/-- A map adds an array of its results under its slug. -/
def outShapeMap (slug : String) (output : Option Port) (inShape : TokenShape) : TokenShape :=
  inShape.insert slug (.array (match output with
    | some port => if port.fields.isEmpty then .any else .object (portFields definitions port)
    | none => .any))

/-- What a node puts out, given what came in. -/
def outShape (node : WorkflowNode) (inShape : TokenShape) : TokenShape :=
  match node.data with
  | .start initial processName => outShapeStart definitions initial processName
  | .humanTask steps stepsRef =>
    if stepsRef.isSome then outShapeDynamicTask inShape else outShapeStaticTask definitions steps inShape
  | .automatedStep output pooled _ => outShapeAutomatedStep definitions output pooled
  | .agent output => outShapeAutomatedStep definitions output false
  | .subWorkflow output => outShapeSubWorkflow definitions output inShape
  | .loop accumulators => outShapeLoop node.slug accumulators inShape
  | .leaseScope => outShapeLeaseScope node.slug inShape
  | .map _ output => outShapeMap definitions node.slug output inShape
  | .join _ | .streamSource _ | .streamSink _ | .end | .decision | .parallelSplit | .scope | .phaseUpdate
  | .progressUpdate | .failure | .delay | .timeout | .trigger => inShape

end

end TokenShapes

end Mekhan

import Mekhan.Compiler.BorrowCheck
import Mekhan.Compiler.Placeholders

/-!
# Human tasks

The texts of a human task (`service/src/models/template/human_task.rs`), the script that stages them
(`build_human_task_injection_logic` of `service/src/compiler/rhai_gen.rs`), the references that are reported
of them (`service/src/compiler/human_task_refs.rs`), and how a report becomes a read arc
(`borrow/planners/human_task.rs`, `borrow/apply/human_task.rs`).
-/

namespace Mekhan

namespace HumanTask

open Infra Placeholder QueryDsl

/-! ## Steps and blocks -/

/-- The kinds of a form's fields. -/
inductive TaskFieldKind where
  | text | textarea | number | select | checkbox | file | signature | radio | date | range | rating

/-- The kind as serde writes it. -/
def TaskFieldKind.wireStr : TaskFieldKind → String
  | .text => "text"
  | .textarea => "textarea"
  | .number => "number"
  | .select => "select"
  | .checkbox => "checkbox"
  | .file => "file"
  | .signature => "signature"
  | .radio => "radio"
  | .date => "date"
  | .range => "range"
  | .rating => "rating"

structure SelectOption where
  value : String
  label : String

/-- A field of the form, with the checks and hints of its kind. -/
structure TaskFieldConfig where
  name : String
  label : String
  kind : TaskFieldKind
  required : Option Bool
  placeholder : Option String
  descriptionMdsvex : Option String
  options : Option (List SelectOption)
  accept : Option String
  maxFileSize : Option Nat
  maxFiles : Option Nat
  signatureMode : Option String
  penColor : Option String
  min : Option F64
  max : Option F64
  step : Option F64
  maxRating : Option Nat
  includeTime : Option Bool

/-- How urgent a callout is. -/
inductive CalloutSeverity where
  | info | warning | error | success

def CalloutSeverity.wireStr : CalloutSeverity → String
  | .info => "info"
  | .warning => "warning"
  | .error => "error"
  | .success => "success"

inductive TableAlignment where
  | left | center | right

def TableAlignment.wireStr : TableAlignment → String
  | .left => "left"
  | .center => "center"
  | .right => "right"

inductive ImageDisplay where
  | single | grid | gallery

def ImageDisplay.wireStr : ImageDisplay → String
  | .single => "single"
  | .grid => "grid"
  | .gallery => "gallery"

/-- A file that the form offers. -/
structure DownloadItemConfig where
  url : String
  filename : String
  size : Option Nat
  mimeType : Option String
  thumbnailUrl : Option String
  description : Option String

/-- A block of a step; a repeater nests blocks, one copy for each item. -/
inductive TaskBlockConfig where
  | input (field : TaskFieldConfig)
  | mdsvex (content : String)
  | callout (severity : CalloutSeverity) (title : Option String) (content : String)
  | divider
  | image (filenames : List String) (display : ImageDisplay) (url alt caption : Option String)
  | file (filename : String)
  | pdf (filename url caption height : Option String)
  | download (downloads : List DownloadItemConfig)
  | table (headers : List String) (rows : List (List String)) (rowsRef : Option String)
      (alignments : Option (List TableAlignment)) (caption : Option String)
  | repeater (itemsRef : String) (itemLabelRef : Option String) (blocks : List TaskBlockConfig) (outputSlug : String)

/-- A page of the form. -/
structure TaskStepConfig where
  id : String
  title : String
  descriptionMdsvex : Option String
  blocks : List TaskBlockConfig

/-- What `WorkflowNodeData::HumanTask` says about the form. -/
structure HumanTaskData where
  taskTitle : String
  instructionsMdsvex : Option String
  steps : List TaskStepConfig
  stepsRef : Option String

/-! ## The steps as JSON -/

def strsJson (l : List String) : Json := .arr (l.map .str)

def natJson (n : Nat) : Json := .num (.posInt n)

/-- A double that is no number is written as `null`. -/
def doubleJson (x : F64) : Json := if 0x7FF0000000000000 ≤ x.bits.toNat % 2 ^ 63 then .null else .num (.float x.bits)

/-- An entry that is skipped where the field is absent. -/
def optEntry {α : Type} (key : String) (toJson : α → Json) (v : Option α) : List (String × Json) :=
  v.toList.map fun x => (key, toJson x)

/-- An entry that is skipped where the list is empty. -/
def vecEntry {α : Type} (key : String) (toJson : List α → Json) (l : List α) : List (String × Json) :=
  if l.isEmpty then [] else [(key, toJson l)]

def SelectOption.toJson (o : SelectOption) : Json := .obj [("value", .str o.value), ("label", .str o.label)]

/-- Absent options leave no key. -/
def TaskFieldConfig.toJson (f : TaskFieldConfig) : Json :=
  .obj ([("name", .str f.name), ("label", .str f.label), ("kind", .str f.kind.wireStr)] ++
    optEntry "required" .bool f.required ++ optEntry "placeholder" .str f.placeholder ++
    optEntry "description_mdsvex" .str f.descriptionMdsvex ++
    optEntry "options" (fun l => .arr (l.map (·.toJson))) f.options ++ optEntry "accept" .str f.accept ++
    optEntry "max_file_size" natJson f.maxFileSize ++ optEntry "max_files" natJson f.maxFiles ++
    optEntry "signature_mode" .str f.signatureMode ++ optEntry "pen_color" .str f.penColor ++
    optEntry "min" doubleJson f.min ++ optEntry "max" doubleJson f.max ++ optEntry "step" doubleJson f.step ++
    optEntry "max_rating" natJson f.maxRating ++ optEntry "include_time" .bool f.includeTime)

def DownloadItemConfig.toJson (d : DownloadItemConfig) : Json :=
  .obj ([("url", .str d.url), ("filename", .str d.filename)] ++ optEntry "size" natJson d.size ++
    optEntry "mime_type" .str d.mimeType ++ optEntry "thumbnail_url" .str d.thumbnailUrl ++
    optEntry "description" .str d.description)

mutual

/-- Tagged by `type`, as the form's renderer reads it. -/
def TaskBlockConfig.toJson : TaskBlockConfig → Json
  | .input field => .obj [("type", .str "input"), ("field", field.toJson)]
  | .mdsvex content => .obj [("type", .str "mdsvex"), ("content", .str content)]
  | .callout severity title content =>
    .obj ([("type", .str "callout"), ("severity", .str severity.wireStr)] ++ optEntry "title" .str title ++
      [("content", .str content)])
  | .divider => .obj [("type", .str "divider")]
  | .image filenames display url alt caption =>
    .obj ([("type", .str "image")] ++ vecEntry "filenames" strsJson filenames ++
      [("display", .str display.wireStr)] ++ optEntry "url" .str url ++ optEntry "alt" .str alt ++
      optEntry "caption" .str caption)
  | .file filename => .obj [("type", .str "file"), ("filename", .str filename)]
  | .pdf filename url caption height =>
    .obj ([("type", .str "pdf")] ++ optEntry "filename" .str filename ++ optEntry "url" .str url ++
      optEntry "caption" .str caption ++ optEntry "height" .str height)
  | .download downloads => .obj [("type", .str "download"), ("downloads", .arr (downloads.map (·.toJson)))]
  | .table headers rows rowsRef alignments caption =>
    .obj ([("type", .str "table"), ("headers", strsJson headers)] ++
      vecEntry "rows" (fun l => .arr (l.map strsJson)) rows ++ optEntry "rows_ref" .str rowsRef ++
      optEntry "alignments" (fun l => strsJson (l.map (·.wireStr))) alignments ++ optEntry "caption" .str caption)
  | .repeater itemsRef itemLabelRef blocks outputSlug =>
    .obj ([("type", .str "repeater"), ("items_ref", .str itemsRef)] ++
      optEntry "item_label_ref" .str itemLabelRef ++
      [("blocks", .arr (blocksToJson blocks)), ("output_slug", .str outputSlug)])

def blocksToJson : List TaskBlockConfig → List Json
  | [] => []
  | b :: bs => b.toJson :: blocksToJson bs

end

/-- The keys are the wire's, in camel case where the source renames them. -/
def TaskStepConfig.toJson (s : TaskStepConfig) : Json :=
  .obj ([("id", .str s.id), ("title", .str s.title)] ++ optEntry "descriptionMdsvex" .str s.descriptionMdsvex ++
    [("blocks", .arr (blocksToJson s.blocks))])

/-! ## References without braces -/

/-- The segments of a reference to whole steps, which has no wildcard. -/
def parseStepsRefSegments (raw : String) : Option (List String) :=
  let t := trim raw.toList
  if t.isEmpty || (splitOnce ['[', '*', ']'] t).isSome then none
  else
    let segs := t.splitOn '.'
    if segs.length < 2 || segs.any (·.isEmpty) then none else some (segs.map String.ofList)

/-- The producer and the path of the array before the wildcard. -/
def parseRepeaterItemsRef (raw : String) : Option (String × List String) := do
  let (before, _) ← splitOnce ['[', '*', ']'] (trim raw.toList)
  let (head, preStr) ← splitOnce ['.'] before
  let pre := preStr.splitOn '.'
  if head.isEmpty || preStr.isEmpty || pre.any (·.isEmpty) then none
  else return (String.ofList head, pre.map String.ofList)

/-- What the validator accepts of a reference to steps. -/
def isWellFormedStepsRef (raw : String) : Bool :=
  let t := trim raw.toList
  if t.isEmpty || (splitOnce ['[', '*', ']'] t).isSome then false
  else
    let segs := t.splitOn '.'
    2 ≤ segs.length && !segs.any (·.isEmpty)

/-- The first attribute behind the producer, at which the placeholder is checked. -/
def parseRepeaterRefHeadAttr (raw : String) : Option PlaceholderRef := do
  let (head, after) ← splitOnce ['.'] (trim raw.toList)
  let attr := after.takeWhile fun c => !(c = '.' || c = '[')
  if head.isEmpty || attr.isEmpty then none else return ⟨String.ofList head, String.ofList attr⟩

/-! ## The script -/

/-- `d.payload = __set_path(d.payload, [path], 0, value)`. -/
structure Staging where
  path : List String
  value : Pluck

/-- The assignments of the script, from the first one to the last. -/
structure InjectionLogic where
  title : Rhai
  instructionsMdsvex : Rhai
  steps : Rhai
  payload : List Staging

/-- A path read off the task's input token. -/
def inputPluck (segs : List String) : Pluck := ⟨"input", segs.map .field⟩

/-- The array a block iterates over, if it names one. -/
def stagedPath : TaskBlockConfig → Option (String × List String)
  | .repeater itemsRef _ _ _ => parseRepeaterItemsRef itemsRef
  | .table _ _ (some rowsRef) _ _ =>
    match parseStepsRefSegments rowsRef with
    | some (head :: pre) => some (head, pre)
    | _ => none
  | _ => none

/-- Every array that a block iterates over is staged once. -/
def buildRepeaterPayloadBlock (steps : List TaskStepConfig) : List Staging :=
  ((steps.flatMap (·.blocks)).filterMap stagedPath).eraseDups.map fun (head, pre) =>
    ⟨head :: pre, inputPluck (head :: pre)⟩

/-- `build_human_task_injection_logic` of a human task. -/
def buildHumanTaskInjectionLogic (data : HumanTaskData) : InjectionLogic where
  title := interpolateToRhaiExpr data.taskTitle
  instructionsMdsvex := interpolateToRhaiExpr (data.instructionsMdsvex.getD "")
  steps := match data.stepsRef.bind parseStepsRefSegments with
    | some segs => .pluck (inputPluck segs)
    | none => jsonToRhaiInterpolated (.arr (data.steps.map (·.toJson)))
  payload := buildRepeaterPayloadBlock data.steps

namespace InjectionLogic

/-- The calls of `__pluck` in the script. -/
def calls (logic : InjectionLogic) : List Pluck :=
  logic.title.calls ++ logic.instructionsMdsvex.calls ++ logic.steps.calls ++ logic.payload.map (·.value)

/-- Rewrites every read of the injection, the staged ones included. -/
def mapCalls (f : Pluck → Pluck) (logic : InjectionLogic) : InjectionLogic where
  title := logic.title.mapCalls f
  instructionsMdsvex := logic.instructionsMdsvex.mapCalls f
  steps := logic.steps.mapCalls f
  payload := logic.payload.map fun s => { s with value := f s.value }

theorem calls_mapCalls (f : Pluck → Pluck) (logic : InjectionLogic) :
    (logic.mapCalls f).calls = logic.calls.map f := by
  simp only [calls, mapCalls, Rhai.calls_mapCalls, List.map_append, List.map_map]
  rfl

end InjectionLogic

/-! ## The report -/

/-- What is reported of a whole reference: it is scanned as if it stood in a text. -/
def scanWholeRef (raw : String) : List PlaceholderRef :=
  if isWellFormedStepsRef raw then
    scanPlaceholders (String.ofList ("\x7b\x7b ".toList ++ trim raw.toList ++ " \x7d\x7d".toList))
  else []

def scanOpt (s : Option String) : List PlaceholderRef := s.toList.flatMap scanPlaceholders

mutual

/-- The placeholders of a block, those of nested blocks included. -/
def scanBlock : TaskBlockConfig → List PlaceholderRef
  | .input _ | .divider | .file _ => []
  | .mdsvex content => scanPlaceholders content
  | .callout _ title content => scanOpt title ++ scanPlaceholders content
  | .image _ _ url _ caption => scanOpt url ++ scanOpt caption
  | .pdf _ url caption _ => scanOpt url ++ scanOpt caption
  | .download downloads =>
    downloads.flatMap fun d => scanPlaceholders d.url ++ scanPlaceholders d.filename ++ scanOpt d.description
  | .table headers rows rowsRef _ caption =>
    headers.flatMap scanPlaceholders ++ rows.flatMap (·.flatMap scanPlaceholders) ++ scanOpt caption ++
      rowsRef.toList.flatMap scanWholeRef
  | .repeater itemsRef itemLabelRef blocks _ =>
    (parseRepeaterRefHeadAttr itemsRef).toList ++ (itemLabelRef.bind parseRepeaterRefHeadAttr).toList ++
      scanBlocks blocks

def scanBlocks : List TaskBlockConfig → List PlaceholderRef
  | [] => []
  | b :: bs => scanBlock b ++ scanBlocks bs

end

/-- The placeholders of a step. -/
def scanStep (s : TaskStepConfig) : List PlaceholderRef :=
  scanPlaceholders s.title ++ scanOpt s.descriptionMdsvex ++ scanBlocks s.blocks

/-- `extract_human_task_refs` of a human task. -/
def extractHumanTaskRefs (data : HumanTaskData) : List PlaceholderRef :=
  scanPlaceholders data.taskTitle ++ scanOpt data.instructionsMdsvex ++ data.steps.flatMap scanStep ++
    data.stepsRef.toList.flatMap scanWholeRef

/-! ## The plan -/

/-- The slugs of the nodes; no node has two. -/
structure SlugIndex where
  nodeFor : String → Option String
  inj : ∀ {s s' n}, nodeFor s = some n → nodeFor s' = some n → s = s'

/-- What a plan is made from: the graph, the order it was sorted in and the slugs. -/
structure BorrowContext where
  graph : Borrow.WorkflowGraph
  order : List String
  slugs : SlugIndex

/-- The node a reference of a node is borrowed from. -/
def BorrowContext.producerOf (ctx : BorrowContext) (nodeId head : String) : Option String := do
  let producer ← ctx.slugs.nodeFor head
  if producer = nodeId then none
  else if !Borrow.sortsBefore (Borrow.topoPos ctx.order) producer nodeId then none
  else if !Borrow.isParkedProducer ctx.graph producer then none
  else return producer

/-- A producer whose output the task reads from its parked place. -/
structure HumanTaskDataBorrow where
  slug : String
  producerNode : String

/-- The loop of `human_task_borrow_plan` over what is reported of one node. -/
def planLoop (ctx : BorrowContext) (nodeId : String) : List String → List PlaceholderRef → List HumanTaskDataBorrow
  | _, [] => []
  | seen, r :: rs =>
    match ctx.producerOf nodeId r.head with
    | none => planLoop ctx nodeId seen rs
    | some producer =>
      if producer ∈ seen then planLoop ctx nodeId seen rs
      else ⟨r.head, producer⟩ :: planLoop ctx nodeId (producer :: seen) rs

/-- `human_task_borrow_plan`, as far as it is about one node. -/
def humanTaskBorrowPlan (ctx : BorrowContext) (nodeId : String) (data : HumanTaskData) : List HumanTaskDataBorrow :=
  planLoop ctx nodeId [] (extractHumanTaskRefs data)

/-! ## The transition -/

/-- The transition into the task: its ports, the places its read arcs come from and its script. -/
structure WireEdge where
  inputPorts : List String
  readPlaces : List String
  logic : InjectionLogic

/-- What the interfaces say about the nodes: where their data is parked, and where in it their fields are. -/
structure Interfaces where
  dataPort : String → Option String
  hoistPath : String → List String

/-- The script's variable for a producer. -/
def readVar (producerNode : String) : String :=
  String.ofList ("d_".toList ++ producerNode.toList.map fun c => if c = '-' then '_' else c)

/-- The needle: a call on the control token whose path starts with the slug and goes on. -/
def isNeedle (slug : String) (call : Pluck) : Bool :=
  match call with
  | ⟨"input", .field head :: _ :: _⟩ => head = slug
  | _ => false

/-- A read of the slug becomes a read of the borrowed variable, below the place's hoist. -/
def retarget (slug var : String) (hoist : List String) (call : Pluck) : Pluck :=
  if isNeedle slug call then ⟨var, hoist.map .field ++ call.segs.tail⟩ else call

def insertNew (x : String) (l : List String) : List String := if x ∈ l then l else l ++ [x]

/-- The body of the loop of `apply_human_task_borrows`, with `wire_read_arc`. -/
def applyBorrow (ifaces : Interfaces) (t : WireEdge) (b : HumanTaskDataBorrow) : WireEdge :=
  if !t.logic.calls.any (isNeedle b.slug) then t
  else
    match ifaces.dataPort b.producerNode with
    | none => t
    | some place =>
      let var := readVar b.producerNode
      { inputPorts := insertNew var t.inputPorts
        readPlaces := insertNew place t.readPlaces
        logic := t.logic.mapCalls (retarget b.slug var (ifaces.hoistPath b.producerNode)) }

/-- `apply_human_task_borrows` on the transition into the task. -/
def applyHumanTaskBorrows (ifaces : Interfaces) (t : WireEdge) (borrows : List HumanTaskDataBorrow) : WireEdge :=
  borrows.foldl (applyBorrow ifaces) t

end HumanTask

end Mekhan

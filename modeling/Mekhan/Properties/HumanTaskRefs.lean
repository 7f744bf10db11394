import Mekhan.Compiler.HumanTask
import Mathlib.Data.List.DropRight

/-!
# The references of a human task

The script of a human task plucks what its texts refer to; another walk over the task reports the references
that read arcs are wired for. The two differ in the fields they walk, in what they take for a path, and in
where they go on after a body that is none.
-/

namespace Mekhan

namespace HumanTaskRefs

open Infra Placeholder HumanTask QueryDsl

/-! ## What is plucked and what is reported -/

/-- The head of a call on the control token whose path has more segments. -/
def inputHead? (call : Pluck) : Option String :=
  match call with
  | ⟨"input", .field head :: _ :: _⟩ => some head
  | _ => none

def pluckedHeads (data : HumanTaskData) : List String :=
  (buildHumanTaskInjectionLogic data).calls.filterMap inputHead?

def reportedHeads (data : HumanTaskData) : List String := (extractHumanTaskRefs data).map (·.head)

/-- The slug of a producer that is upstream of a node and parks its data. -/
def Upstream (ctx : BorrowContext) (nodeId slug : String) : Prop := ∃ p, ctx.producerOf nodeId slug = some p

/-- The transition into the task as it is lowered. -/
def loweredEdge (data : HumanTaskData) (inputPorts readPlaces : List String) : WireEdge :=
  ⟨inputPorts, readPlaces, buildHumanTaskInjectionLogic data⟩

/-- The reports are right, and the read arcs leave nothing on the control token that is upstream. -/
structure Borrowed (ctx : BorrowContext) (ifaces : Interfaces) (nodeId : String) (data : HumanTaskData) : Prop where
  same : ∀ slug, Upstream ctx nodeId slug → (slug ∈ pluckedHeads data ↔ slug ∈ reportedHeads data)
  retargeted : ∀ ports places slug, Upstream ctx nodeId slug →
    slug ∉ (applyHumanTaskBorrows ifaces (loweredEdge data ports places)
      (humanTaskBorrowPlan ctx nodeId data)).logic.calls.filterMap inputHead?

/-! ## Bodies -/

/-- A body both readers take for a reference to the data of its head. -/
def sharedHead (body : List Char) : Option String :=
  match parsePlaceholderSegments body with
  | some (.field head :: .field _ :: rest) => if .indexAll ∈ rest then none else some head
  | _ => none

/-- An index after the head, or a path after further braces inside a body that is none. -/
def pluckedOnlyHead (body : List Char) : Option String :=
  match placeholderToAccessor body with
  | some ⟨_, .field head :: .index _ :: _⟩ => some head
  | some _ => none
  | none => (braces.readNested placeholderToAccessor body).bind inputHead?

/-- A field of the head, and later a `[*]`. -/
def reportedOnlyHead (body : List Char) : Option String :=
  match parsePlaceholderSegments body with
  | some (.field head :: .field _ :: rest) => if .indexAll ∈ rest then some head else none
  | _ => none

def pluckedHead (body : List Char) : Option String :=
  (braces.readInside placeholderToAccessor body).bind inputHead?

def reportedHead (body : List Char) : Option String := (scanBody body).map (·.head)

/-! ## Places -/

/-- A place of a task where a reader looks for references. -/
inductive Place where
  | text (s : String)
  /-- A string that only the script interpolates. -/
  | hiddenText (s : String)
  /-- A text of the static steps of a task whose steps are dynamic. -/
  | unusedText (s : String)
  /-- A reference without braces that the script plucks as a whole. -/
  | wholeRef (r : String)
  | unstagedRef (r : String)
  | itemsRef (r : String)
  /-- The items of a repeater in a repeater, and the labels of items. -/
  | unstagedItems (r : String)

def textPlaces (isDynamic : Bool) (l : List String) : List Place :=
  l.map fun s => if isDynamic then .unusedText s else .text s

def hiddenPlaces (isDynamic : Bool) (l : List String) : List Place := if isDynamic then [] else l.map .hiddenText

def optionStrings (o : Option (List SelectOption)) : List String := (o.getD []).flatMap fun o => [o.value, o.label]

def fieldStrings (f : TaskFieldConfig) : List String :=
  [f.name, f.label] ++ f.placeholder.toList ++ f.descriptionMdsvex.toList ++ optionStrings f.options ++
    f.accept.toList ++ f.signatureMode.toList ++ f.penColor.toList

mutual

/-- The places of a block: one of the step itself, or one in a repeater. -/
def blockPlaces (isDynamic isTop : Bool) : TaskBlockConfig → List Place
  | .input f => hiddenPlaces isDynamic (fieldStrings f)
  | .mdsvex content => textPlaces isDynamic [content]
  | .callout _ title content => textPlaces isDynamic (title.toList ++ [content])
  | .divider => []
  | .image filenames _ url alt caption =>
    textPlaces isDynamic (url.toList ++ caption.toList) ++ hiddenPlaces isDynamic (filenames ++ alt.toList)
  | .file filename => hiddenPlaces isDynamic [filename]
  | .pdf filename url caption height =>
    textPlaces isDynamic (url.toList ++ caption.toList) ++
      hiddenPlaces isDynamic (filename.toList ++ height.toList)
  | .download downloads => downloads.flatMap fun d =>
    textPlaces isDynamic ([d.url, d.filename] ++ d.description.toList) ++
      hiddenPlaces isDynamic (d.mimeType.toList ++ d.thumbnailUrl.toList)
  | .table headers rows rowsRef _ caption =>
    textPlaces isDynamic (headers ++ rows.flatten ++ caption.toList) ++ hiddenPlaces isDynamic rowsRef.toList ++
      rowsRef.toList.map fun r => if isTop then .wholeRef r else .unstagedRef r
  | .repeater itemsRef itemLabelRef blocks outputSlug =>
    hiddenPlaces isDynamic (itemsRef :: itemLabelRef.toList ++ [outputSlug]) ++
      [if isTop then .itemsRef itemsRef else .unstagedItems itemsRef] ++ itemLabelRef.toList.map .unstagedItems ++
      blocksPlaces isDynamic false blocks

def blocksPlaces (isDynamic isTop : Bool) : List TaskBlockConfig → List Place
  | [] => []
  | b :: bs => blockPlaces isDynamic isTop b ++ blocksPlaces isDynamic isTop bs

end

def stepPlaces (isDynamic : Bool) (s : TaskStepConfig) : List Place :=
  hiddenPlaces isDynamic [s.id] ++ textPlaces isDynamic (s.title :: s.descriptionMdsvex.toList) ++
    blocksPlaces isDynamic true s.blocks

def isDynamic (data : HumanTaskData) : Bool := (data.stepsRef.bind parseStepsRefSegments).isSome

def places (data : HumanTaskData) : List Place :=
  .text data.taskTitle :: data.instructionsMdsvex.toList.map .text ++
    data.steps.flatMap (stepPlaces (isDynamic data)) ++ data.stepsRef.toList.map .wholeRef

/-- A reference as a whole is a path: a head and a field, and what follows. -/
def pathHead (r : String) : Option String :=
  match parsePlaceholderSegments r.toList with
  | some (.field head :: .field _ :: _) => some head
  | _ => none

def textHeads (read : List Char → Option String) (s : String) : List String :=
  (braces.bodies s.toList).filterMap read

namespace Place

/-- The slugs a place names for both readers. -/
def shared : Place → List String
  | .text s => textHeads sharedHead s
  | .wholeRef r => if isWellFormedStepsRef r then (pathHead r).toList else []
  | .itemsRef r => if (parseRepeaterRefHeadAttr r).isSome then (parseRepeaterItemsRef r).toList.map (·.1) else []
  | .hiddenText _ | .unusedText _ | .unstagedRef _ | .unstagedItems _ => []

/-- The slugs a place names for the script only. -/
def pluckedOnly : Place → List String
  | .text s => textHeads pluckedOnlyHead s
  | .hiddenText s => textHeads pluckedHead s
  | .wholeRef r => if (pathHead r).isSome then [] else ((parseStepsRefSegments r).bind (·.head?)).toList
  | .itemsRef r => if (parseRepeaterRefHeadAttr r).isSome then [] else (parseRepeaterItemsRef r).toList.map (·.1)
  | .unusedText _ | .unstagedRef _ | .unstagedItems _ => []

/-- The slugs a place names for the report only. -/
def reportedOnly : Place → List String
  | .text s => textHeads reportedOnlyHead s
  | .unusedText s => textHeads reportedHead s
  | .wholeRef r => if (pathHead r).isSome then [] else (scanWholeRef r).map (·.head)
  | .unstagedRef r => (scanWholeRef r).map (·.head)
  | .itemsRef r => if (parseRepeaterItemsRef r).isSome then [] else (parseRepeaterRefHeadAttr r).toList.map (·.head)
  | .unstagedItems r => (parseRepeaterRefHeadAttr r).toList.map (·.head)
  | .hiddenText _ => []

/-- What the script plucks because of a place. -/
def plucked : Place → List String
  | .text s | .hiddenText s => textHeads pluckedHead s
  | .wholeRef r => ((parseStepsRefSegments r).bind (·.head?)).toList
  | .itemsRef r => (parseRepeaterItemsRef r).toList.map (·.1)
  | .unusedText _ | .unstagedRef _ | .unstagedItems _ => []

def reported : Place → List String
  | .text s | .unusedText s => textHeads reportedHead s
  | .wholeRef r | .unstagedRef r => (scanWholeRef r).map (·.head)
  | .itemsRef r | .unstagedItems r => (parseRepeaterRefHeadAttr r).toList.map (·.head)
  | .hiddenText _ => []

end Place

/-- Each upstream slug named at a place only one of the two reads is named at a place both read, or at places
for both. -/
def NamedForBoth (ctx : BorrowContext) (nodeId : String) (data : HumanTaskData) : Prop :=
  ∀ slug, Upstream ctx nodeId slug → (∀ p ∈ places data, slug ∉ p.shared) →
    ((∃ p ∈ places data, slug ∈ p.pluckedOnly) ↔ ∃ p ∈ places data, slug ∈ p.reportedOnly)

/-! ## One body -/

variable {body : List Char} {head : String}

theorem pluckedHead_iff : pluckedHead body = some head ↔
    sharedHead body = some head ∨ pluckedOnlyHead body = some head := by
  unfold pluckedHead sharedHead pluckedOnlyHead
  rw [Delimiters.readInside_eq]
  unfold placeholderToAccessor
  cases hparse : parsePlaceholderSegments body with
  | none => simp
  | some segs =>
    by_cases hall : .indexAll ∈ segs
    · -- What has a `[*]` is no accessor.
      match segs, hall with
      | [], _ | [.field _], _ | .index _ :: _, _ | .indexAll :: _, _ | .field _ :: .index _ :: _, _
      | .field _ :: .indexAll :: _, _ => simp_all
      | .field _ :: .field _ :: _, _ => simp_all
    · match segs, hall with
      | [], _ | [.field _], _ | .index _ :: _, _ | .indexAll :: _, _ | .field _ :: .index _ :: _, _
      | .field _ :: .indexAll :: _, _ => simp_all [inputHead?]
      | .field _ :: .field _ :: _, _ => simp_all [inputHead?]

theorem reportedHead_iff : reportedHead body = some head ↔
    sharedHead body = some head ∨ reportedOnlyHead body = some head := by
  unfold reportedHead scanBody sharedHead reportedOnlyHead
  cases parsePlaceholderSegments body with
  | none => simp
  | some segs =>
    match segs with
    | [] | [_] | .index _ :: _ :: _ | .indexAll :: _ :: _ | .field _ :: .index _ :: _
    | .field _ :: .indexAll :: _ => simp
    | .field _ :: .field _ :: rest => by_cases hall : .indexAll ∈ rest <;> simp [hall]

variable {r s slug : String}

theorem mem_textHeads {read : List Char → Option String} :
    head ∈ textHeads read s ↔ ∃ b ∈ braces.bodies s.toList, read b = some head := List.mem_filterMap

theorem mem_textHeads_or {read shared only : List Char → Option String}
    (hread : ∀ {b}, read b = some head ↔ shared b = some head ∨ only b = some head) :
    head ∈ textHeads read s ↔ head ∈ textHeads shared s ∨ head ∈ textHeads only s := by
  simp only [mem_textHeads, hread, and_or_left, exists_or]

/-! ## References without braces -/

theorem trim_eq (v : List Char) : trim v = (v.dropWhile isWhitespace).rdropWhile isWhitespace := rfl

theorem dropWhile_trim (v : List Char) : (trim v).dropWhile isWhitespace = trim v := by
  cases htrim : trim v with
  | nil => rfl
  | cons c w =>
    obtain ⟨rest, hrest⟩ : trim v <+: v.dropWhile isWhitespace := List.rdropWhile_prefix _ _
    rw [htrim] at hrest
    have hhead := List.head?_dropWhile_not isWhitespace v
    rw [← hrest] at hhead
    exact List.dropWhile_cons_of_neg (by simpa using hhead)

theorem trim_pad (v : List Char) : trim (' ' :: (trim v ++ [' '])) = trim v := by
  have hspace : isWhitespace ' ' = true := by decide
  rw [trim_eq, List.dropWhile_cons_of_pos hspace, List.dropWhile_append, dropWhile_trim]
  split
  · next hempty =>
    rw [List.isEmpty_iff.mp hempty, List.dropWhile_cons_of_pos hspace]
    rfl
  · rw [List.rdropWhile_concat_pos _ _ _ hspace, trim_eq, List.rdropWhile_idempotent]

theorem parse_pad (r : List Char) :
    parsePlaceholderSegments (' ' :: (trim r ++ [' '])) = parsePlaceholderSegments r := by
  unfold parsePlaceholderSegments
  rw [trim_pad]

theorem parseStepsRefSegments_eq (r : String) : parseStepsRefSegments r =
    if isWellFormedStepsRef r then some (((trim r.toList).splitOn '.').map String.ofList) else none := by
  unfold parseStepsRefSegments isWellFormedStepsRef
  dsimp only
  split
  · rfl
  · by_cases hlen : ((trim r.toList).splitOn '.').length < 2
    · rw [decide_eq_true hlen, decide_eq_false (by omega)]
      rfl
    · rw [decide_eq_false hlen, decide_eq_true (by omega)]
      cases ((trim r.toList).splitOn '.').any (·.isEmpty) <;> rfl

theorem scanWholeRef_of_path {head : String} (hpath : pathHead r = some head) (hwell : isWellFormedStepsRef r = true) :
    (scanWholeRef r).map (·.head) = [head] := by
  unfold pathHead at hpath
  split at hpath
  · next h attr rest hparse =>
    obtain rfl := Option.some.inj hpath
    have hbrace : '}' ∉ ' ' :: (trim r.toList ++ [' ']) := by
      simpa using notMem_of_parse hparse
    have hbodies : braces.bodies ("\x7b\x7b ".toList ++ trim r.toList ++ " \x7d\x7d".toList) =
        [' ' :: (trim r.toList ++ [' '])] := by
      rw [← Delimiters.bodies_delimited (d := braces) rfl hbrace]
      congr 1
      simp [braces]
    have hbody : scanBody (' ' :: (trim r.toList ++ [' '])) = some ⟨h, attr⟩ := by
      rw [scanBody, parse_pad, hparse]
    rw [scanWholeRef, if_pos hwell, scanPlaceholders, String.toList_ofList, hbodies, List.filterMap_cons, hbody]
    rfl
  · cases hpath

theorem parseStepsRefSegments_of_path {head : String} (hpath : pathHead r = some head)
    (hwell : isWellFormedStepsRef r = true) : (parseStepsRefSegments r).bind (·.head?) = some head := by
  unfold pathHead at hpath
  split at hpath
  · next h attr rest hparse =>
    cases hpath
    obtain ⟨first, rest', more, hident, hmore, hsegs⟩ := parsePlaceholderSegments_eq_some hparse
    obtain ⟨hhead, rfl⟩ := List.cons.inj hsegs
    obtain ⟨cs, rfl⟩ := eq_cons_of_moreSegments hmore
    obtain ⟨htrim, _, hfirst⟩ := eq_of_ident hident
    have hdot : '.' ∉ first := fun hmem => absurd (hfirst _ hmem) (by decide)
    rw [parseStepsRefSegments_eq, if_pos hwell, htrim, List.splitOn_append_cons_self_of_not_mem hdot]
    simpa using (PathSegment.field.inj hhead).symm
  · cases hpath

variable {pre segs : List String}

theorem head_of_parseRepeaterItemsRef {head : String} {ref : PlaceholderRef}
    (hitems : parseRepeaterItemsRef r = some (head, pre)) (href : parseRepeaterRefHeadAttr r = some ref) :
    ref.head = head := by
  unfold parseRepeaterItemsRef at hitems
  unfold parseRepeaterRefHeadAttr at href
  simp only [Option.bind_eq_bind, Option.bind_eq_some_iff, Prod.exists, Option.pure_def] at hitems href
  obtain ⟨before, after, hstar, head₁, preStr, hdot, hif⟩ := hitems
  obtain ⟨head₂, rest, hdot', hif'⟩ := href
  have hwhole : splitOnce ['.'] (trim r.toList) = some (head₁, preStr ++ ['[', '*', ']'] ++ after) := by
    rw [eq_of_splitOnce hstar, List.append_assoc, List.cons_append, splitOnce_append_cons (by decide) (by decide), hdot]
    simp
  rw [hwhole] at hdot'
  obtain ⟨rfl, _⟩ := Prod.mk.inj (Option.some.inj hdot')
  split at hif
  · cases hif
  · split at hif'
    · cases hif'
    · cases hif'
      exact (Prod.mk.inj (Option.some.inj hif)).1

/-! ## One place -/

theorem plucked_iff (p : Place) : head ∈ p.plucked ↔ head ∈ p.shared ∨ head ∈ p.pluckedOnly := by
  cases p with
  | text s => exact mem_textHeads_or pluckedHead_iff
  | hiddenText s | unusedText s | unstagedRef r | unstagedItems r =>
    simp [Place.plucked, Place.shared, Place.pluckedOnly]
  | wholeRef r =>
    simp only [Place.plucked, Place.shared, Place.pluckedOnly]
    cases hpath : pathHead r with
    | none => simp
    | some h =>
      cases hwell : isWellFormedStepsRef r with
      | false => simp [parseStepsRefSegments_eq, hwell]
      | true => simp [parseStepsRefSegments_of_path hpath hwell]
  | itemsRef r =>
    simp only [Place.plucked, Place.shared, Place.pluckedOnly]
    split <;> simp

theorem reported_iff (p : Place) : head ∈ p.reported ↔ head ∈ p.shared ∨ head ∈ p.reportedOnly := by
  cases p with
  | text s => exact mem_textHeads_or reportedHead_iff
  | hiddenText s | unusedText s | unstagedRef r | unstagedItems r =>
    simp [Place.reported, Place.shared, Place.reportedOnly]
  | wholeRef r =>
    simp only [Place.reported, Place.shared, Place.reportedOnly]
    cases hpath : pathHead r with
    | none => simp
    | some h =>
      cases hwell : isWellFormedStepsRef r with
      | false => simp [scanWholeRef, hwell]
      | true => simp [scanWholeRef_of_path hpath hwell]
  | itemsRef r =>
    simp only [Place.reported, Place.shared, Place.reportedOnly]
    cases hitems : parseRepeaterItemsRef r with
    | none => simp
    | some p =>
      cases href : parseRepeaterRefHeadAttr r with
      | none => simp
      | some ref => simp [head_of_parseRepeaterItemsRef hitems href]

/-! ## The script, place by place -/

/-- The heads of what a JSON tree is interpolated with. -/
def jsonHeads (v : Json) : List String := (jsonToRhaiInterpolated v).calls.filterMap inputHead?

theorem heads_interpolateToRhaiExpr (s : String) :
    (interpolateToRhaiExpr s).calls.filterMap inputHead? = textHeads pluckedHead s := by
  rw [calls_interpolateToRhaiExpr, List.filterMap_filterMap]
  rfl

theorem jsonHeads_str (s : String) : jsonHeads (.str s) = textHeads pluckedHead s := heads_interpolateToRhaiExpr s

theorem jsonHeads_arr (l : List Json) : jsonHeads (.arr l) = l.flatMap jsonHeads := by
  change (Rhai.elemsCalls (elemsToRhai l)).filterMap inputHead? = _
  induction l with
  | nil => rfl
  | cons v l ih => rw [elemsToRhai, Rhai.elemsCalls, List.filterMap_append, ih, List.flatMap_cons]; rfl

theorem jsonHeads_obj (l : List (String × Json)) : jsonHeads (.obj l) = l.flatMap fun e => jsonHeads e.2 := by
  change (Rhai.entriesCalls (entriesToRhai l)).filterMap inputHead? = _
  induction l with
  | nil => rfl
  | cons e l ih => rw [entriesToRhai, Rhai.entriesCalls, List.filterMap_append, ih, List.flatMap_cons]; rfl

theorem jsonHeads_bool (b : Bool) : jsonHeads (.bool b) = [] := rfl

theorem jsonHeads_nat (n : Nat) : jsonHeads (natJson n) = [] := rfl

theorem jsonHeads_double (x : F64) : jsonHeads (doubleJson x) = [] := by
  unfold doubleJson
  split <;> rfl

theorem jsonHeads_strs (l : List String) : jsonHeads (strsJson l) = l.flatMap (textHeads pluckedHead) := by
  rw [strsJson, jsonHeads_arr, List.flatMap_map]
  simp only [jsonHeads_str]

theorem flatMap_flatten {α β : Type} (f : α → List β) (l : List (List α)) :
    l.flatten.flatMap f = l.flatMap fun x => x.flatMap f := by
  rw [← List.flatMap_id, List.flatMap_assoc]
  rfl

theorem jsonHeads_cells (rows : List (List String)) :
    jsonHeads (.arr (rows.map strsJson)) = rows.flatten.flatMap (textHeads pluckedHead) := by
  rw [jsonHeads_arr, List.flatMap_map, flatMap_flatten]
  simp only [jsonHeads_strs]

theorem textHeads_word {read : List Char → Option String} (h : '{' ∉ s.toList) : textHeads read s = [] := by
  rw [textHeads, Delimiters.bodies_of_notMem (y := '{') (by decide) h]
  rfl

theorem heads_optEntry {α : Type} (key : String) (toJson : α → Json) (v : Option α) :
    ((optEntry key toJson v).flatMap fun e => jsonHeads e.2) = v.toList.flatMap fun x => jsonHeads (toJson x) := by
  rw [optEntry, List.flatMap_map]

theorem heads_vecEntry {α : Type} (key : String) (toJson : List α → Json) (l : List α)
    (hnil : jsonHeads (toJson []) = []) :
    ((vecEntry key toJson l).flatMap fun e => jsonHeads e.2) = jsonHeads (toJson l) := by
  cases l with
  | nil => exact hnil.symm
  | cons x l => simp [vecEntry]

theorem plucked_textPlaces (isDynamic : Bool) (l : List String) : (textPlaces isDynamic l).flatMap Place.plucked =
    if isDynamic then [] else l.flatMap (textHeads pluckedHead) := by
  rw [textPlaces, List.flatMap_map]
  cases isDynamic with
  | false => rfl
  | true => exact List.flatMap_eq_nil_iff.mpr fun _ _ => rfl

theorem plucked_hiddenPlaces (isDynamic : Bool) (l : List String) :
    (hiddenPlaces isDynamic l).flatMap Place.plucked =
      if isDynamic then [] else l.flatMap (textHeads pluckedHead) := by
  unfold hiddenPlaces
  cases isDynamic with
  | false => exact List.flatMap_map _ _ l
  | true => rfl

theorem kind_heads (k : TaskFieldKind) : textHeads pluckedHead k.wireStr = [] :=
  textHeads_word (by cases k <;> decide)

theorem severity_heads (s : CalloutSeverity) : textHeads pluckedHead s.wireStr = [] :=
  textHeads_word (by cases s <;> decide)

theorem display_heads (d : ImageDisplay) : textHeads pluckedHead d.wireStr = [] :=
  textHeads_word (by cases d <;> decide)

theorem alignment_heads (a : TableAlignment) : textHeads pluckedHead a.wireStr = [] :=
  textHeads_word (by cases a <;> decide)

theorem heads_field (f : TaskFieldConfig) :
    head ∈ jsonHeads f.toJson ↔ head ∈ (fieldStrings f).flatMap (textHeads pluckedHead) := by
  have hoptions : (f.options.toList.flatMap fun l => jsonHeads (.arr (l.map (·.toJson)))) =
      (optionStrings f.options).flatMap (textHeads pluckedHead) := by
    cases f.options with
    | none => rfl
    | some l =>
      simp [optionStrings, jsonHeads_arr, List.flatMap_map, List.flatMap_assoc, SelectOption.toJson, jsonHeads_obj,
        jsonHeads_str]
  simp only [TaskFieldConfig.toJson, fieldStrings, jsonHeads_obj, List.flatMap_append, heads_optEntry, hoptions,
    jsonHeads_bool, jsonHeads_nat, jsonHeads_double, jsonHeads_str, kind_heads, List.flatMap_cons, List.flatMap_nil,
    List.append_nil, List.mem_append, List.mem_flatMap, List.not_mem_nil, and_false, exists_false, or_false]

theorem heads_download (d : DownloadItemConfig) : head ∈ jsonHeads d.toJson ↔
    head ∈ ([d.url, d.filename] ++ d.description.toList ++ (d.mimeType.toList ++ d.thumbnailUrl.toList)).flatMap
      (textHeads pluckedHead) := by
  simp only [DownloadItemConfig.toJson, jsonHeads_obj, List.flatMap_append, heads_optEntry, jsonHeads_nat, jsonHeads_str,
    List.flatMap_cons, List.flatMap_nil, List.append_nil, List.mem_append, List.mem_flatMap, List.not_mem_nil,
    and_false, exists_false, or_false]
  simp only [or_assoc, or_comm, or_left_comm]

/-- What the payload block stages of a block. -/
def stagedHeads (isTop : Bool) (b : TaskBlockConfig) : List String :=
  if isTop then (stagedPath b).toList.map (·.1) else []

theorem heads_staged_table (isTop : Bool) (headers : List String) (rows : List (List String)) (rowsRef : Option String)
    (alignments : Option (List TableAlignment)) (caption : Option String) :
    stagedHeads isTop (.table headers rows rowsRef alignments caption) =
      (rowsRef.toList.map fun r => if isTop then Place.wholeRef r else .unstagedRef r).flatMap Place.plucked := by
  cases rowsRef with
  | none => cases isTop <;> rfl
  | some r =>
    cases isTop with
    | false => rfl
    | true =>
      simp only [stagedHeads, stagedPath, Option.toList_some, List.map_cons, List.map_nil, List.flatMap_cons,
        List.flatMap_nil, List.append_nil, Place.plucked, if_true]
      cases parseStepsRefSegments r with
      | none => rfl
      | some segs => cases segs <;> rfl

mutual

/-- The calls for a block: those its JSON is interpolated with, unless the steps are dynamic, and what is staged. -/
theorem plucked_block (isDynamic isTop : Bool) : ∀ b : TaskBlockConfig,
    head ∈ (blockPlaces isDynamic isTop b).flatMap Place.plucked ↔
      (isDynamic = false ∧ head ∈ jsonHeads b.toJson) ∨ head ∈ stagedHeads isTop b
  | .input f => by
    have hf := @heads_field head f
    cases isDynamic <;>
      simp [blockPlaces, plucked_hiddenPlaces, TaskBlockConfig.toJson, jsonHeads_obj, jsonHeads_str, textHeads_word,
        stagedHeads, stagedPath, hf]
  | .mdsvex content => by
    cases isDynamic <;>
      simp [blockPlaces, plucked_textPlaces, TaskBlockConfig.toJson, jsonHeads_obj, jsonHeads_str, textHeads_word,
        stagedHeads, stagedPath]
  | .callout severity title content => by
    cases isDynamic <;>
      simp [blockPlaces, plucked_textPlaces, TaskBlockConfig.toJson, jsonHeads_obj, jsonHeads_str, textHeads_word,
        severity_heads, heads_optEntry, stagedHeads, stagedPath]
  | .divider => by
    simp [blockPlaces, TaskBlockConfig.toJson, jsonHeads_obj, jsonHeads_str, textHeads_word, stagedHeads, stagedPath]
  | .image filenames display url alt caption => by
    have hfilenames := heads_vecEntry "filenames" strsJson filenames (by rw [jsonHeads_strs]; rfl)
    cases isDynamic <;>
      simp [blockPlaces, plucked_textPlaces, plucked_hiddenPlaces, TaskBlockConfig.toJson, jsonHeads_obj,
        jsonHeads_str, jsonHeads_strs, textHeads_word, display_heads, heads_optEntry, hfilenames, stagedHeads,
        stagedPath]
    simp only [or_assoc, or_comm, or_left_comm]
  | .file filename => by
    cases isDynamic <;>
      simp [blockPlaces, plucked_hiddenPlaces, TaskBlockConfig.toJson, jsonHeads_obj, jsonHeads_str, textHeads_word,
        stagedHeads, stagedPath]
  | .pdf filename url caption height => by
    cases isDynamic <;>
      simp [blockPlaces, plucked_textPlaces, plucked_hiddenPlaces, TaskBlockConfig.toJson, jsonHeads_obj,
        jsonHeads_str, textHeads_word, heads_optEntry, stagedHeads, stagedPath]
    simp only [or_left_comm]
  | .download downloads => by
    have hd := @heads_download head
    cases isDynamic <;>
      simp [blockPlaces, plucked_textPlaces, plucked_hiddenPlaces, TaskBlockConfig.toJson, jsonHeads_obj,
        jsonHeads_str, jsonHeads_arr, textHeads_word, List.flatMap_assoc, hd, stagedHeads, stagedPath]
  | .table headers rows rowsRef alignments caption => by
    have hrows := heads_vecEntry "rows" (fun l => .arr (l.map strsJson)) rows rfl
    have hcells := jsonHeads_cells rows
    have haligned : ∀ l : List TableAlignment, jsonHeads (strsJson (l.map (·.wireStr))) = [] := by
      simp [jsonHeads_strs, List.flatMap_map, alignment_heads]
    have hstaged := heads_staged_table isTop headers rows rowsRef alignments caption
    cases isDynamic <;>
      simp [blockPlaces, plucked_textPlaces, plucked_hiddenPlaces, TaskBlockConfig.toJson, jsonHeads_obj,
        jsonHeads_str, jsonHeads_strs, textHeads_word, heads_optEntry, hrows, hcells, haligned, hstaged]
    simp only [or_assoc, or_comm, or_left_comm]
  | .repeater itemsRef itemLabelRef blocks outputSlug => by
    have hblocks := plucked_blocks isDynamic false blocks
    cases isDynamic <;> cases isTop <;>
      simp [blockPlaces, plucked_hiddenPlaces, TaskBlockConfig.toJson, jsonHeads_obj, jsonHeads_str, jsonHeads_arr,
        textHeads_word, heads_optEntry, stagedHeads, stagedPath, Place.plucked, hblocks] <;>
      simp only [or_assoc, or_comm, or_left_comm]

theorem plucked_blocks (isDynamic isTop : Bool) : ∀ bs : List TaskBlockConfig,
    head ∈ (blocksPlaces isDynamic isTop bs).flatMap Place.plucked ↔
      (isDynamic = false ∧ head ∈ (blocksToJson bs).flatMap jsonHeads) ∨ head ∈ bs.flatMap (stagedHeads isTop)
  | [] => by simp [blocksPlaces, blocksToJson]
  | b :: bs => by
    rw [blocksPlaces, List.flatMap_append, List.mem_append, plucked_block, plucked_blocks, blocksToJson,
      List.flatMap_cons, List.mem_append, List.flatMap_cons, List.mem_append]
    simp only [and_or_left, or_assoc, or_comm, or_left_comm]

end

theorem two_le_of_parseStepsRefSegments (h : parseStepsRefSegments r = some segs) : 2 ≤ segs.length := by
  unfold parseStepsRefSegments at h
  dsimp only at h
  split at h
  · cases h
  · split at h
    · cases h
    · next hif =>
      cases h
      simp only [Bool.or_eq_true, decide_eq_true_eq, not_or] at hif
      rw [List.length_map]
      omega

theorem inputHead?_inputPluck (h : 2 ≤ segs.length) : inputHead? (inputPluck segs) = segs.head? := by
  match segs, h with
  | _ :: _ :: _, _ => rfl

theorem pre_ne_of_stagedPath {b : TaskBlockConfig} {h : String} (hb : stagedPath b = some (h, pre)) :
    pre ≠ [] := by
  cases b with
  | table headers rows rowsRef alignments caption =>
    cases rowsRef with
    | none => cases hb
    | some r =>
      simp only [stagedPath] at hb
      split at hb
      · next hparse =>
        obtain ⟨_, rfl⟩ := Prod.mk.inj (Option.some.inj hb)
        have hlen := two_le_of_parseStepsRefSegments hparse
        rw [List.length_cons] at hlen
        exact List.ne_nil_of_length_pos (by omega)
      · cases hb
  | repeater itemsRef itemLabelRef blocks outputSlug =>
    simp only [stagedPath, parseRepeaterItemsRef, Option.bind_eq_bind, Option.bind_eq_some_iff, Prod.exists,
      Option.pure_def] at hb
    obtain ⟨_, _, _, _, preStr, _, hif⟩ := hb
    split at hif
    · cases hif
    · obtain ⟨_, rfl⟩ := Prod.mk.inj (Option.some.inj hif)
      simp
  | input _ | mdsvex _ | callout _ _ _ | divider | image _ _ _ _ _ | file _ | pdf _ _ _ _ | download _ => cases hb

theorem heads_payload (steps : List TaskStepConfig) :
    head ∈ ((buildRepeaterPayloadBlock steps).map (·.value)).filterMap inputHead? ↔
      ∃ s ∈ steps, head ∈ s.blocks.flatMap (stagedHeads true) := by
  have hplucked : ∀ p : String × List String, p.2 ≠ [] → inputHead? (inputPluck (p.1 :: p.2)) = some p.1 := by
    rintro ⟨h, _ | ⟨x, pre⟩⟩ hpre
    · exact absurd rfl hpre
    · rfl
  simp only [buildRepeaterPayloadBlock, List.map_map, List.mem_filterMap, List.mem_map, List.mem_eraseDups,
    List.mem_flatMap, stagedHeads, if_true, Option.mem_toList]
  constructor
  · rintro ⟨_, ⟨p, ⟨b, ⟨s, hs, hb⟩, hstaged⟩, rfl⟩, hhead⟩
    refine ⟨s, hs, b, hb, p, hstaged, ?_⟩
    exact Option.some.inj ((hplucked p (pre_ne_of_stagedPath hstaged)).symm.trans hhead)
  · rintro ⟨s, hs, b, hb, p, hstaged, rfl⟩
    exact ⟨_, ⟨p, ⟨b, ⟨s, hs, hb⟩, hstaged⟩, rfl⟩, hplucked p (pre_ne_of_stagedPath hstaged)⟩

theorem plucked_step (isDynamic : Bool) (s : TaskStepConfig) :
    head ∈ (stepPlaces isDynamic s).flatMap Place.plucked ↔
      (isDynamic = false ∧ head ∈ jsonHeads s.toJson) ∨ head ∈ s.blocks.flatMap (stagedHeads true) := by
  have hblocks := @plucked_blocks head isDynamic true s.blocks
  simp only [stepPlaces, List.flatMap_append, plucked_hiddenPlaces, plucked_textPlaces, List.mem_append, hblocks,
    TaskStepConfig.toJson, jsonHeads_obj, jsonHeads_str, heads_optEntry]
  cases isDynamic <;> simp [jsonHeads_str, jsonHeads_arr, or_assoc]

theorem heads_steps (data : HumanTaskData) :
    head ∈ (buildHumanTaskInjectionLogic data).steps.calls.filterMap inputHead? ↔
      (isDynamic data = false ∧ ∃ s ∈ data.steps, head ∈ jsonHeads s.toJson) ∨
        head ∈ (data.stepsRef.toList.map Place.wholeRef).flatMap Place.plucked := by
  simp only [buildHumanTaskInjectionLogic, isDynamic]
  cases hsegs : data.stepsRef.bind parseStepsRefSegments with
  | none =>
    have hnone : (data.stepsRef.toList.map Place.wholeRef).flatMap Place.plucked = [] := by
      cases href : data.stepsRef with
      | none => rfl
      | some r =>
        rw [href] at hsegs
        simp only [Option.bind_some] at hsegs
        simp [Place.plucked, hsegs]
    have hjson : (jsonToRhaiInterpolated (.arr (data.steps.map (·.toJson)))).calls.filterMap inputHead? =
        data.steps.flatMap fun s => jsonHeads s.toJson := by
      rw [← jsonHeads, jsonHeads_arr, List.flatMap_map]
    simp [hnone, hjson]
  | some segs =>
    obtain ⟨r, href, hparse⟩ := Option.bind_eq_some_iff.mp hsegs
    have hhead := inputHead?_inputPluck (two_le_of_parseStepsRefSegments hparse)
    simp [href, hparse, Place.plucked, Rhai.calls, hhead]

theorem mem_pluckedHeads (data : HumanTaskData) :
    head ∈ pluckedHeads data ↔ ∃ p ∈ places data, head ∈ p.plucked := by
  have hinstructions : textHeads pluckedHead (data.instructionsMdsvex.getD "") =
      data.instructionsMdsvex.toList.flatMap (textHeads pluckedHead) := by
    cases data.instructionsMdsvex with
    | none => exact textHeads_word (by decide)
    | some s => simp
  have hplaces : head ∈ (data.steps.flatMap (stepPlaces (isDynamic data))).flatMap Place.plucked ↔
      (isDynamic data = false ∧ ∃ s ∈ data.steps, head ∈ jsonHeads s.toJson) ∨
        ∃ s ∈ data.steps, head ∈ s.blocks.flatMap (stagedHeads true) := by
    rw [List.flatMap_assoc, List.mem_flatMap]
    simp only [plucked_step, and_or_left, exists_or, ← exists_and_left, and_left_comm]
  have htitle : (Place.text data.taskTitle).plucked = textHeads pluckedHead data.taskTitle := rfl
  have htexts : (data.instructionsMdsvex.toList.map Place.text).flatMap Place.plucked =
      textHeads pluckedHead (data.instructionsMdsvex.getD "") := by
    rw [hinstructions, List.flatMap_map]
    rfl
  rw [← List.mem_flatMap, places, List.flatMap_append, List.cons_append, List.flatMap_cons, List.flatMap_append,
    htitle, htexts]
  simp only [pluckedHeads, InjectionLogic.calls, List.filterMap_append, List.mem_append, heads_steps, hplaces]
  simp only [buildHumanTaskInjectionLogic, heads_interpolateToRhaiExpr, heads_payload, or_assoc]
  exact or_congr_right (or_congr_right (or_congr_right or_comm))

/-! ## The report, place by place -/

theorem heads_scanPlaceholders (s : String) : (scanPlaceholders s).map (·.head) = textHeads reportedHead s := by
  rw [scanPlaceholders, textHeads, List.map_filterMap]
  rfl

theorem heads_scanOpt (s : Option String) : (scanOpt s).map (·.head) = s.toList.flatMap (textHeads reportedHead) := by
  rw [scanOpt, List.map_flatMap]
  simp only [heads_scanPlaceholders]

theorem reported_textPlaces (isDynamic : Bool) (l : List String) :
    (textPlaces isDynamic l).flatMap Place.reported = l.flatMap (textHeads reportedHead) := by
  rw [textPlaces, List.flatMap_map]
  cases isDynamic <;> rfl

theorem reported_hiddenPlaces (isDynamic : Bool) (l : List String) :
    (hiddenPlaces isDynamic l).flatMap Place.reported = [] := by
  unfold hiddenPlaces
  cases isDynamic with
  | false =>
    apply List.flatMap_eq_nil_iff.mpr
    intro p hp
    obtain ⟨s, _, rfl⟩ := List.mem_map.mp hp
    rfl
  | true => rfl

mutual

theorem reported_block (isDynamic isTop : Bool) : ∀ b : TaskBlockConfig,
    (blockPlaces isDynamic isTop b).flatMap Place.reported = (scanBlock b).map (·.head)
  | .input _ | .divider | .file _ => by simp [blockPlaces, reported_hiddenPlaces, scanBlock]
  | .mdsvex content => by simp [blockPlaces, reported_textPlaces, scanBlock, heads_scanPlaceholders]
  | .callout _ title content => by
    simp [blockPlaces, reported_textPlaces, scanBlock, heads_scanPlaceholders, heads_scanOpt]
  | .image _ _ url _ caption | .pdf _ url caption _ => by
    simp [blockPlaces, reported_textPlaces, reported_hiddenPlaces, scanBlock, heads_scanOpt]
  | .download downloads => by
    simp [blockPlaces, reported_textPlaces, reported_hiddenPlaces, scanBlock, heads_scanPlaceholders, heads_scanOpt,
      List.flatMap_assoc, List.map_flatMap]
  | .table headers rows rowsRef _ caption => by
    cases isTop <;>
      simp [blockPlaces, reported_textPlaces, reported_hiddenPlaces, scanBlock, heads_scanPlaceholders, heads_scanOpt,
        flatMap_flatten, List.flatMap_map, List.map_flatMap, Place.reported]
  | .repeater itemsRef itemLabelRef blocks _ => by
    have hblocks := reported_blocks isDynamic false blocks
    cases isTop <;> cases itemLabelRef <;>
      simp [blockPlaces, reported_hiddenPlaces, scanBlock, Place.reported, hblocks]

theorem reported_blocks (isDynamic isTop : Bool) : ∀ bs : List TaskBlockConfig,
    (blocksPlaces isDynamic isTop bs).flatMap Place.reported = (scanBlocks bs).map (·.head)
  | [] => rfl
  | b :: bs => by
    rw [blocksPlaces, List.flatMap_append, reported_block, reported_blocks, scanBlocks, List.map_append]

end

theorem reported_step (isDynamic : Bool) (s : TaskStepConfig) :
    (stepPlaces isDynamic s).flatMap Place.reported = (scanStep s).map (·.head) := by
  simp [stepPlaces, reported_hiddenPlaces, reported_textPlaces, reported_blocks, scanStep, heads_scanPlaceholders,
    heads_scanOpt]

theorem reportedHeads_eq (data : HumanTaskData) : reportedHeads data = (places data).flatMap Place.reported := by
  rw [reportedHeads, extractHumanTaskRefs, places]
  simp only [List.map_append, List.map_flatMap, List.flatMap_append, List.cons_append, List.flatMap_cons,
    List.flatMap_assoc, List.flatMap_map, reported_step, heads_scanPlaceholders, heads_scanOpt, Place.reported,
    List.append_assoc]

/-! ## Read arcs -/

theorem inputHead?_eq_some {call : Pluck} : inputHead? call = some head ↔ isNeedle head call = true := by
  unfold inputHead? isNeedle
  split
  · simp
  · simp

theorem inputHead?_retarget {var : String} {hoist : List String} (hvar : var ≠ "input") {call : Pluck}
    (h : inputHead? (retarget slug var hoist call) = some head) : inputHead? call = some head ∧ head ≠ slug := by
  unfold retarget at h
  split at h
  · unfold inputHead? at h
    split at h
    · next heq => exact absurd (congrArg Pluck.root heq) hvar
    · cases h
  · next hneedle =>
    refine ⟨h, ?_⟩
    rintro rfl
    exact hneedle (inputHead?_eq_some.mp h)

theorem readVar_ne (p : String) : readVar p ≠ "input" := by
  intro h
  have h' := congrArg String.toList h
  rw [readVar, String.toList_ofList] at h'
  exact absurd (List.cons.inj h').1 (by decide)

def edgeHeads (t : WireEdge) : List String := t.logic.calls.filterMap inputHead?

variable {ifaces : Interfaces} {t : WireEdge} {b : HumanTaskDataBorrow}

theorem edgeHeads_applyBorrow (h : head ∈ edgeHeads (applyBorrow ifaces t b)) : head ∈ edgeHeads t := by
  unfold applyBorrow at h
  split at h
  · exact h
  · split at h
    · exact h
    · obtain ⟨call, hcall, hhead⟩ := List.mem_filterMap.mp h
      rw [InjectionLogic.calls_mapCalls] at hcall
      obtain ⟨call', hcall', rfl⟩ := List.mem_map.mp hcall
      exact List.mem_filterMap.mpr ⟨call', hcall', (inputHead?_retarget (readVar_ne _) hhead).1⟩

theorem slug_notMem_applyBorrow (hport : (ifaces.dataPort b.producerNode).isSome) :
    b.slug ∉ edgeHeads (applyBorrow ifaces t b) := by
  intro h
  unfold applyBorrow at h
  split at h
  · next hany =>
    obtain ⟨call, hcall, hhead⟩ := List.mem_filterMap.mp h
    exact absurd (List.any_eq_true.mpr ⟨call, hcall, inputHead?_eq_some.mp hhead⟩) (by simpa using hany)
  · split at h
    · next hnone => rw [hnone] at hport; cases hport
    · obtain ⟨call, hcall, hhead⟩ := List.mem_filterMap.mp h
      rw [InjectionLogic.calls_mapCalls] at hcall
      obtain ⟨call', _, rfl⟩ := List.mem_map.mp hcall
      exact (inputHead?_retarget (readVar_ne _) hhead).2 rfl

theorem edgeHeads_applyAll : ∀ {borrows : List HumanTaskDataBorrow} {t : WireEdge},
    head ∈ edgeHeads (applyHumanTaskBorrows ifaces t borrows) → head ∈ edgeHeads t
  | [], _, h => h
  | _ :: _, _, h => edgeHeads_applyBorrow (edgeHeads_applyAll h)

theorem slug_notMem_applyAll : ∀ {borrows : List HumanTaskDataBorrow} {t : WireEdge},
    (∀ b ∈ borrows, (ifaces.dataPort b.producerNode).isSome) → ∀ b ∈ borrows,
      b.slug ∉ edgeHeads (applyHumanTaskBorrows ifaces t borrows)
  | b :: borrows, t, hports, b', hb', h => by
    rcases List.mem_cons.mp hb' with rfl | hb'
    · exact slug_notMem_applyBorrow (hports _ List.mem_cons_self) (edgeHeads_applyAll h)
    · exact slug_notMem_applyAll (fun b hb => hports b (List.mem_cons_of_mem _ hb)) b' hb' h

/-! ## The plan -/

variable {ctx : BorrowContext} {nodeId : String}

theorem producerOf_eq_some {p : String} (h : ctx.producerOf nodeId slug = some p) :
    ctx.slugs.nodeFor slug = some p ∧ Borrow.isParkedProducer ctx.graph p = true := by
  unfold BorrowContext.producerOf at h
  simp only [Option.bind_eq_bind, Option.bind_eq_some_iff] at h
  obtain ⟨p', hnode, hif⟩ := h
  split at hif
  · cases hif
  · split at hif
    · cases hif
    · split at hif
      · cases hif
      · next hparked =>
        cases hif
        exact ⟨hnode, by simpa using hparked⟩

theorem producerOf_of_mem_planLoop : ∀ {refs : List PlaceholderRef} {seen : List String},
    ∀ b ∈ planLoop ctx nodeId seen refs, ctx.producerOf nodeId b.slug = some b.producerNode
  | [], _, b, hb => absurd hb List.not_mem_nil
  | r :: refs, seen, b, hb => by
    rw [planLoop] at hb
    split at hb
    · exact producerOf_of_mem_planLoop b hb
    · next p hp =>
      split at hb
      · exact producerOf_of_mem_planLoop b hb
      · rcases List.mem_cons.mp hb with rfl | hb
        · exact hp
        · exact producerOf_of_mem_planLoop b hb

theorem mem_planLoop : ∀ {refs : List PlaceholderRef} {seen : List String} {r : PlaceholderRef} {p : String},
    r ∈ refs → ctx.producerOf nodeId r.head = some p → p ∉ seen →
      ∃ b ∈ planLoop ctx nodeId seen refs, b.producerNode = p
  | r' :: refs, seen, r, p, hr, hp, hseen => by
    rw [planLoop]
    rcases List.mem_cons.mp hr with rfl | hr
    · rw [hp]
      dsimp only
      rw [if_neg hseen]
      exact ⟨_, List.mem_cons_self, rfl⟩
    · split
      · exact mem_planLoop hr hp hseen
      · next p' hp' =>
        split
        · exact mem_planLoop hr hp hseen
        · by_cases heq : p = p'
          · exact ⟨_, List.mem_cons_self, heq.symm⟩
          · obtain ⟨b, hb, hbp⟩ := mem_planLoop hr hp (fun hmem => (List.mem_cons.mp hmem).elim heq hseen)
            exact ⟨b, List.mem_cons_of_mem _ hb, hbp⟩

theorem exists_borrow {data : HumanTaskData} (hup : Upstream ctx nodeId slug)
    (hreported : slug ∈ reportedHeads data) : ∃ b ∈ humanTaskBorrowPlan ctx nodeId data, b.slug = slug := by
  obtain ⟨p, hp⟩ := hup
  obtain ⟨r, hr, rfl⟩ := List.mem_map.mp hreported
  obtain ⟨b, hb, rfl⟩ := mem_planLoop hr hp List.not_mem_nil
  have hb' := producerOf_of_mem_planLoop b hb
  exact ⟨b, hb, ctx.slugs.inj (producerOf_eq_some hb').1 (producerOf_eq_some hp).1⟩

/-! ## The result -/

theorem same_iff (slug : String) (data : HumanTaskData) : (slug ∈ pluckedHeads data ↔ slug ∈ reportedHeads data) ↔
    ((∀ p ∈ places data, slug ∉ p.shared) →
      ((∃ p ∈ places data, slug ∈ p.pluckedOnly) ↔ ∃ p ∈ places data, slug ∈ p.reportedOnly)) := by
  rw [mem_pluckedHeads, reportedHeads_eq, List.mem_flatMap]
  simp only [plucked_iff, reported_iff, and_or_left, exists_or]
  by_cases hshared : ∃ p ∈ places data, slug ∈ p.shared
  · obtain ⟨p, hp, hslug⟩ := hshared
    have hex : ∃ p ∈ places data, slug ∈ p.shared := ⟨p, hp, hslug⟩
    simp only [hex, true_or, true_iff]
    exact fun hnone => absurd hslug (hnone p hp)
  · have hnone : ∀ p ∈ places data, slug ∉ p.shared := fun p hp hslug => hshared ⟨p, hp, hslug⟩
    simp only [hshared, false_or]
    exact ⟨fun h _ => h, fun h => h hnone⟩

/-- The references of a human task are borrowed exactly where each upstream slug that one of the two readers finds
at a place of its own is found by the other as well. -/
theorem borrowed_iff (hparked : ∀ p, Borrow.isParkedProducer ctx.graph p = true → (ifaces.dataPort p).isSome)
    (data : HumanTaskData) : Borrowed ctx ifaces nodeId data ↔ NamedForBoth ctx nodeId data := by
  constructor
  · exact fun h slug hup => (same_iff slug data).mp (h.same slug hup)
  · intro h
    have hsame : ∀ slug, Upstream ctx nodeId slug → (slug ∈ pluckedHeads data ↔ slug ∈ reportedHeads data) :=
      fun slug hup => (same_iff slug data).mpr (h slug hup)
    refine ⟨hsame, ?_⟩
    intro ports places slug hup hleft
    have hplucked : slug ∈ pluckedHeads data := edgeHeads_applyAll hleft
    obtain ⟨b, hb, rfl⟩ := exists_borrow hup ((hsame slug hup).mp hplucked)
    have hports : ∀ b ∈ humanTaskBorrowPlan ctx nodeId data, (ifaces.dataPort b.producerNode).isSome :=
      fun b hb => hparked _ (producerOf_eq_some (producerOf_of_mem_planLoop b hb)).2
    exact slug_notMem_applyAll hports b hb hleft

/-- A start node and a human task after it. -/
def startAndTask : BorrowContext where
  graph :=
    { nodes := [⟨"start", .start, none⟩, ⟨"review", .humanTask, none⟩]
      edges := [⟨"start", "review", none, "sequence"⟩] }
  order := ["start", "review"]
  slugs :=
    { nodeFor := fun s => if s = "start" ∨ s = "review" then some s else none
      inj := by
        intro s s' n h h'
        split at h
        · split at h'
          · rw [Option.some.inj h, Option.some.inj h']
          · cases h'
        · cases h }

/-- Each node parks its data, and the fields are at the top of it. -/
def parkedPlaces : Interfaces := ⟨fun id => some ("p_" ++ id ++ "_data"), fun _ => []⟩

theorem slug_of_upstream (h : Upstream startAndTask "review" slug) : slug = "start" := by
  obtain ⟨p, hp⟩ := h
  have hnode := (producerOf_eq_some hp).1
  simp only [startAndTask] at hnode
  split at hnode
  · next hslug =>
    rcases hslug with rfl | rfl
    · rfl
    · have hself : startAndTask.producerOf "review" "review" = none := by decide
      rw [hself] at hp
      cases hp
  · cases hnode

def titled : HumanTaskData := ⟨"Review {{ start.name }}", none, [], none⟩

theorem borrowed_iff_titled : Borrowed startAndTask parkedPlaces "review" titled :=
  (borrowed_iff (fun _ _ => rfl) titled).mpr fun slug hup hshared => by
    obtain rfl := slug_of_upstream hup
    exact absurd (by decide +kernel) (hshared (.text "Review {{ start.name }}") (by simp [places, titled]))

/-- The label of a form field refers to it. -/
def labelled : HumanTaskData where
  taskTitle := "Review"
  instructionsMdsvex := none
  steps := [⟨"s1", "Check", none, [.input
    { name := "ok", label := "Is {{ start.name }} right?", kind := .checkbox, required := none, placeholder := none,
      descriptionMdsvex := none, options := none, accept := none, maxFileSize := none, maxFiles := none,
      signatureMode := none, penColor := none, min := none, max := none, step := none, maxRating := none,
      includeTime := none }]⟩]
  stepsRef := none

/-- The label is plucked from the start node's data, and nothing is wired for it. -/
theorem label_not_borrowed : (∀ p, Borrow.isParkedProducer startAndTask.graph p = true → (parkedPlaces.dataPort p).isSome) ∧
    "start" ∈ pluckedHeads labelled ∧ humanTaskBorrowPlan startAndTask "review" labelled = [] ∧
      ¬Borrowed startAndTask parkedPlaces "review" labelled := by
  have hplucked : "start" ∈ pluckedHeads labelled := by decide +kernel
  have hreported : reportedHeads labelled = [] := by decide +kernel
  refine ⟨fun _ _ => rfl, hplucked, ?_, ?_⟩
  · rw [humanTaskBorrowPlan, List.map_eq_nil_iff.mp hreported]
    rfl
  · intro h
    have hmem := (h.same "start" ⟨"start", by decide⟩).mp hplucked
    rw [hreported] at hmem
    cases hmem

end HumanTaskRefs

end Mekhan

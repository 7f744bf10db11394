import Mekhan.Compiler.TokenShape

/-!
# References of guards

`analyze` of `service/src/compiler/token_shape/analyze.rs`, as far as it derives the shapes, and `resolve_ref` of
`service/src/compiler/borrow/planners/guard.rs`, which says where a `<slug>.<field>` of a guard is found in the
data a node has parked. The flattened envelope that a script sees is that of
`service/src/compiler/borrow/apply/envelope.rs`.
-/

namespace Mekhan

namespace TokenShapes

open Infra HumanTask

/-- What an edge out of a channel delivers. -/
inductive ChannelJoin where
  | each | gather

structure WorkflowEdge where
  source : String
  target : String
  sourceHandle : Option String
  targetHandle : Option String
  edgeType : String
  join : Option ChannelJoin

structure WorkflowGraph where
  nodes : List WorkflowNode
  edges : List WorkflowEdge
  definitions : List (String × Json)
  ids_nodup : (nodes.map (·.id)).Nodup

/-- The node as the borrow check sees it. -/
def WorkflowNode.skeleton (n : WorkflowNode) : Borrow.WorkflowNode := ⟨n.id, n.data.kind, n.parentId⟩

def WorkflowEdge.skeleton (e : WorkflowEdge) : Borrow.WorkflowEdge := ⟨e.source, e.target, e.targetHandle, e.edgeType⟩

namespace WorkflowGraph

/-- The graph as the checks of a borrow see it. -/
def skeleton (g : WorkflowGraph) : Borrow.WorkflowGraph where
  nodes := g.nodes.map (·.skeleton)
  edges := g.edges.map (·.skeleton)

def find? (g : WorkflowGraph) (id : String) : Option WorkflowNode := g.nodes.find? (·.id = id)

end WorkflowGraph

/-! ## The shapes that arrive and leave -/

/-- What a channel's edge adds to the shape that comes in. -/
def channelEdgeContribution (definitions : List (String × Json)) (producer : WorkflowNode) (e : WorkflowEdge) :
    Option TokenShape := do
  let handle ← e.sourceHandle
  let ch ← producer.data.channels.find? (·.name = handle)
  if ch.isData then return .object []
  else
    let elem : TokenShape :=
      match ch.element with
      | .json schema => jsonSchemaToTokenShape definitions schema
      | .any => .any
      | .binary contentType => .unexpanded s!"binary channel element ({contentType})"
    match e.join.getD .each with
    | .each => return elem
    | .gather => return .object [("output", .array elem)]

/-- What has been merged so far of a node's incoming edges. -/
structure Inbound where
  shape : TokenShape
  hadPred : Bool
  contributions : Nat
  nonObjectChannel : Option TokenShape

def Inbound.start : Inbound := ⟨.object [], false, 0, none⟩

/-- A predecessor without a shape counts as one all the same. -/
def addEdge (g : WorkflowGraph) (nodeOut : String → Option TokenShape) (deep : Bool) (i : Inbound) (e : WorkflowEdge) :
    Inbound :=
  match (g.find? e.source).bind fun pred => channelEdgeContribution g.definitions pred e with
  | some contrib =>
    let i := { i with hadPred := true, contributions := i.contributions + 1 }
    if contrib.isObject then { i with shape := i.shape.mergeFrom deep contrib }
    else { i with nonObjectChannel := some contrib }
  | none =>
    match nodeOut e.source with
    | some out => { i with shape := i.shape.mergeFrom deep out, hadPred := true, contributions := i.contributions + 1 }
    | none => i

/-- Anything may come in where no predecessor is known. -/
def Inbound.result (i : Inbound) : TokenShape :=
  if !i.hadPred then .any
  else
    match i.nonObjectChannel with
    | some payload => if i.contributions = 1 then payload else .any
    | none => i.shape

/-- The edges of the sorted graph into a node, the last one first. -/
def incoming (g : WorkflowGraph) (id : String) : List WorkflowEdge :=
  (g.edges.filter fun e => !e.skeleton.isBackEdge && e.target = id).reverse

/-- The shapes before and behind each node. -/
structure ShapeReport where
  nodeIn : String → Option TokenShape
  nodeOut : String → Option TokenShape

def ShapeReport.empty : ShapeReport := ⟨fun _ => none, fun _ => none⟩

def isDeepJoin : NodeData → Bool
  | .join deepMerge => deepMerge
  | _ => false

/-- The body of the loop of `analyze` over the order. -/
def analyzeNode (g : WorkflowGraph) (r : ShapeReport) (id : String) : ShapeReport :=
  match g.find? id with
  | none => r
  | some node =>
    let inbound := ((incoming g id).foldl (addEdge g r.nodeOut (isDeepJoin node.data)) .start).result
    { nodeIn := Function.update r.nodeIn id (some inbound)
      nodeOut := Function.update r.nodeOut id (some (outShape g.definitions node inbound)) }

/-- One pass in topological order. -/
def analyze (g : WorkflowGraph) (order : List String) : ShapeReport := order.foldl (analyzeNode g) .empty

/-! ## Resolving a reference -/

/-- A reference is to the input, or is qualified by a name. -/
inductive RefRoot where
  | input
  | qualified (root : String)

/-- A path that a guard reads. -/
structure GuardRef where
  root : RefRoot
  segs : List String

/-- Where a reference is read: on the control token, from a producer, or nowhere. -/
inductive RefResolution where
  | control
  | borrow (producerId producerPath : String)
  | unresolved
  | mapMissingStar (mapSlug : String)
  | namedGlobal (name field : String)
  deriving DecidableEq

/-- `is_control_leaf`, of the first segment. -/
def isControlHead (head : String) : Bool := head.toList.head? = some '_' || head = "task_id" || head = "status"

/-- Below something opaque every path may exist. -/
def resolvesUnderOpaque (shape : TokenShape) (path : List String) : Bool :=
  (List.range path.length).any fun n =>
    0 < n && match shape.resolve (path.take n) with
      | some .any | some (.unexpanded _) => true
      | _ => false

/-- The node runs once for each item of a map, and the root is the item. -/
def isMapItem (g : WorkflowGraph) (consumer : WorkflowNode) (root : String) : Bool :=
  match consumer.parentId with
  | none => false
  | some parent => g.nodes.any fun n => n.id = parent &&
      match n.data with
      | .map itemVar _ => itemVar = root
      | _ => false

/-- The borrow from a loop or a lease scope: its data is keyed by the fields alone. -/
def resolveScoped (root : String) (segs : List String) (prodId : String) (nodeOut : String → Option TokenShape) :
    RefResolution :=
  if segs.isEmpty then .unresolved
  else
    match nodeOut prodId with
    | none => .unresolved
    | some shape =>
      if (shape.resolve (root :: segs)).isNone && !resolvesUnderOpaque shape (root :: segs) then .unresolved
      else .borrow prodId (TokenShape.dotted segs)

/-- The borrow from a map, of the whole array or of a part of each element. -/
def resolveMap (root : String) (segs : List String) (prodId : String) : RefResolution :=
  match segs.findIdx? (· = "[*]") with
  | none => .mapMissingStar root
  | some 0 =>
    let tail := segs.drop 1
    .borrow prodId (if tail.isEmpty then "output" else s!"output.map(|__e| __e.{TokenShape.dotted tail})")
  | some (_ + 1) => .unresolved

/-- The borrow from any other node that parks its data. -/
def resolveParked (segs : List String) (prodId : String) (nodeOut : String → Option TokenShape) : RefResolution :=
  match nodeOut prodId, segs with
  | some shape, first :: extra =>
    match shape.findByLeaf first with
    | some phys => .borrow prodId (extra.foldl (fun path seg => path ++ "." ++ seg) phys)
    | none => .unresolved
  | _, _ => .unresolved

/-- `resolve_ref`; `none` where the walk up the parents does not end. -/
def resolveRef (g : WorkflowGraph) (slugs : SlugIndex) (pos : String → Option Nat) (nodeOut : String → Option TokenShape)
    (knownGlobals : Option (List String)) (inShape : Option TokenShape) (consumer : WorkflowNode) (r : GuardRef) :
    Option RefResolution :=
  match r.root with
  | .input =>
    some (if r.segs.head?.any isControlHead || (inShape.bind fun s => s.resolve r.segs).isSome then .control
      else .unresolved)
  | .qualified root =>
    if isMapItem g consumer root then some .control
    else
      match slugs.nodeFor root with
      | none =>
        some (if (knownGlobals.getD []).contains root then .namedGlobal root (TokenShape.dotted r.segs) else .unresolved)
      | some prodId =>
        if (g.nodes.any fun n => n.id = prodId && (n.data.kind = .loop || n.data.kind = .leaseScope)) then
          some (resolveScoped root r.segs prodId nodeOut)
        else
          match Borrow.checkBorrowableProducer g.skeleton pos prodId consumer.id .guardReachability with
          | none => none
          | some (.error _) => some .unresolved
          | some (.ok ()) =>
            if (g.nodes.any fun n => n.id = prodId && n.data.kind = .map) then some (resolveMap root r.segs prodId)
            else some (resolveParked r.segs prodId nodeOut)

/-! ## The flattened envelope -/

/-- Follows a path of keys. -/
def valueAt : Json → List String → Option Json
  | v, [] => some v
  | v, k :: path => (v.get? k).bind fun w => valueAt w path

def entriesOf : Json → List (String × Json)
  | .obj entries => entries
  | _ => []

/-- The map that `build_hoisted_envelope_expr` builds of a parked token: first its own keys but for the top of the
path, then over them those at the end of the path. -/
def hoistedEnvelope (hoistPath : List String) (token : Json) : Json :=
  match hoistPath with
  | [] => token
  | top :: _ =>
    let business := (valueAt token hoistPath).elim [] entriesOf
    .obj (business ++ (entriesOf token).filter fun e => e.1 ≠ top && (business.lookup e.1).isNone)

end TokenShapes

end Mekhan

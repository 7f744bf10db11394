import Mekhan.Infra.TopoOrder

/-!
# Who may borrow from whom

`service/src/compiler/borrow/resolve_core.rs`, with the graph of `service/src/compiler/graph.rs` and
`topo_pos` and `is_parked_producer` of `service/src/compiler/token_shape/analyze.rs`.

The topological sort is that of a library: any order in which the edges go forward may be what it returns.
Of a node only what decides a borrow is kept. The walks up the `parent_id` chain do not end where the
chain is a cycle, so they return `none` there: a chain of distinct nodes is shorter than the list of nodes.
-/

namespace Mekhan

namespace Borrow

open Infra

/-- The kinds of nodes, without their data. -/
inductive NodeKind where
  | start | end | humanTask | automatedStep | decision | parallelSplit | join | loop | scope | leaseScope | map
  | phaseUpdate | progressUpdate | failure | delay | timeout | trigger | agent | subWorkflow | streamSource
  | streamSink
  deriving DecidableEq

/-- What the borrow check reads of a node. -/
structure WorkflowNode where
  id : String
  data : NodeKind
  parentId : Option String

/-- What it reads of an edge. -/
structure WorkflowEdge where
  source : String
  target : String
  targetHandle : Option String
  edgeType : String

structure WorkflowGraph where
  nodes : List WorkflowNode
  edges : List WorkflowEdge

namespace WorkflowGraph

def ids (g : WorkflowGraph) : List String := g.nodes.map (·.id)

def find? (g : WorkflowGraph) (id : String) : Option WorkflowNode := g.nodes.find? (·.id = id)

def parentOf (g : WorkflowGraph) (id : String) : Option String := (g.find? id).bind (·.parentId)

end WorkflowGraph

/-! ## The graph that is sorted -/

/-- The edges that close a loop and do not count for the order. -/
def WorkflowEdge.isBackEdge (e : WorkflowEdge) : Bool :=
  e.edgeType = "loop_back" || e.targetHandle = some "body_out"

/-- An edge of `dag`. -/
def DagEdge (g : WorkflowGraph) (a b : String) : Prop :=
  ∃ e ∈ g.edges, e.isBackEdge = false ∧ e.source = a ∧ e.target = b

/-- `WorkflowDiGraph::build` accepts the graph. -/
def Builds (g : WorkflowGraph) : Prop :=
  (∃ n ∈ g.nodes, n.data = .start) ∧ ∀ e ∈ g.edges, e.source ∈ g.ids ∧ e.target ∈ g.ids

/-- An order that `topo_order` may return, as the ids of its nodes. -/
def IsOrder (g : WorkflowGraph) (order : List String) : Prop := Builds g ∧ IsTopoOrder (DagEdge g) g.ids order

/-- The position of a node in the order, `none` where it is not there. -/
def topoPos (order : List String) (id : String) : Option Nat :=
  if id ∈ order then some (order.idxOf id) else none

/-! ## Kinds of nodes -/

/-- The kinds whose output is parked and can be borrowed. -/
def NodeKind.parks : NodeKind → Bool
  | .humanTask | .automatedStep | .agent | .subWorkflow | .start | .loop | .leaseScope | .join | .map => true
  | .end | .decision | .parallelSplit | .scope | .phaseUpdate | .progressUpdate | .failure | .delay | .timeout
  | .trigger | .streamSource | .streamSink => false

def isParkedProducer (g : WorkflowGraph) (id : String) : Bool := g.nodes.any fun n => n.id = id && n.data.parks

def isLoopNode (g : WorkflowGraph) (id : String) : Bool := g.nodes.any fun n => n.id = id && n.data = .loop

/-! ## Enclosing scopes -/

/-- The enclosing `LeaseScope`s, the innermost first, of a chain that starts at `cur`. -/
def enclosingLeaseScopesFrom (g : WorkflowGraph) : Nat → Option String → Option (List String)
  | _, none => some []
  | 0, some _ => none
  | fuel + 1, some pid =>
    match g.find? pid with
    | none => some []
    | some p => do
      let outer ← enclosingLeaseScopesFrom g fuel p.parentId
      return if p.data = .leaseScope then pid :: outer else outer

/-- The lease scopes around a node, inside out; `none` where the parents run in a circle. -/
def enclosingLeaseScopes (g : WorkflowGraph) (nodeId : String) : Option (List String) :=
  enclosingLeaseScopesFrom g (g.nodes.length + 1) (g.parentOf nodeId)

def isWithinFrom (g : WorkflowGraph) (ancestorId : String) : Nat → Option String → Option Bool
  | _, none => some false
  | 0, some _ => none
  | fuel + 1, some pid => if pid = ancestorId then some true else isWithinFrom g ancestorId fuel (g.parentOf pid)

/-- Whether a node sits in another one or is it. -/
def isWithin (g : WorkflowGraph) (nodeId ancestorId : String) : Option Bool :=
  if nodeId = ancestorId then some true
  else isWithinFrom g ancestorId (g.nodes.length + 1) (g.parentOf nodeId)

/-! ## The check -/

/-- `up < me`, where an unknown producer is at `usize::MAX` and an unknown consumer at 0. -/
def sortsBefore (pos : String → Option Nat) (producer consumer : String) : Bool :=
  match pos producer with
  | none => false
  | some up => up < (pos consumer).getD 0

/-- One of the scopes is before the consumer, and the consumer not in it. -/
def recovered (g : WorkflowGraph) (pos : String → Option Nat) (consumer : String) : List String → Option Bool
  | [] => some false
  | scopeId :: rest => do
    if ← isWithin g consumer scopeId then recovered g pos consumer rest
    else if sortsBefore pos scopeId consumer then return true
    else recovered g pos consumer rest

/-- The producer comes before the consumer, or a lease scope around it does. -/
def producerUpstreamOf (g : WorkflowGraph) (pos : String → Option Nat) (producer consumer : String) : Option Bool :=
  if sortsBefore pos producer consumer then some true
  else (enclosingLeaseScopes g producer).bind (recovered g pos consumer)

/-- How strictly a producer has to come before. -/
inductive UpstreamRule where
  | strictTopo
  | guardReachability

/-- Why a producer cannot be borrowed. -/
inductive InvariantViolation where
  | unknownSlug
  | selfRef
  | notUpstream
  | notParked

/-- Whether the producer is upstream under the rule. -/
def upstream (g : WorkflowGraph) (pos : String → Option Nat) (prodId consumerId : String) :
    UpstreamRule → Option Bool
  | .strictTopo => some (sortsBefore pos prodId consumerId)
  | .guardReachability =>
    let producerIsBodyChild := isLoopNode g consumerId && g.parentOf prodId = some consumerId
    if producerIsBodyChild then some true
    else
      match g.find? consumerId with
      | some consumer => producerUpstreamOf g pos prodId consumer.id
      | none => some false

/-- The check that every borrow passes, whichever surface it is written on. -/
def checkBorrowableProducer (g : WorkflowGraph) (pos : String → Option Nat) (prodId consumerId : String)
    (rule : UpstreamRule) : Option (Except InvariantViolation Unit) :=
  if prodId = consumerId then some (.error .selfRef)
  else
    (upstream g pos prodId consumerId rule).map fun up =>
      if !up then .error .notUpstream
      else if !isParkedProducer g prodId then .error .notParked
      else .ok ()

end Borrow

end Mekhan

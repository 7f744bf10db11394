import Mekhan.Infra.KeyedList
import Mekhan.Triggers.Cron

/-!
# Triggers

`service/src/models/template/triggers.rs` and `service/src/triggers/model.rs`: what fires a trigger node,
and the record that the dispatcher has of one. Of a node's data only what the dispatcher reads is here.
-/

namespace Mekhan

namespace Triggers

inductive CompletionStatus where
  | success
  | failure
  | cancelled
  | any

inductive TriggerSource where
  | cron (trigger : CronTrigger)
  | catalog (query : String) (backfill : Bool)
  | netCompletion (sourceTemplateId : Nat) (sourceVersion : Option Int) (on : CompletionStatus)
  | webhook (slug : String)
  | manual

/-- An expression for a field of the token. -/
structure FieldMapping where
  targetField : String
  expression : String

inductive WorkflowNodeData where
  | start
  | trigger (source : TriggerSource) (enabled : Bool) (payloadMapping : List FieldMapping)
      (airTargetPlaceId : Option String)
  | other

structure WorkflowNode where
  id : String
  data : WorkflowNodeData

structure WorkflowEdge where
  source : String
  target : String
  targetHandle : Option String

structure WorkflowGraph where
  nodes : List WorkflowNode
  edges : List WorkflowEdge

/-- A row of the templates; `graph` is `none` where the column does not parse. -/
structure WorkflowTemplate where
  id : Nat
  version : Int
  workspaceId : Nat
  graph : Option WorkflowGraph

inductive TriggerKind where
  | spawn
  | signal

structure TriggerRecord where
  workspaceId : Nat
  templateId : Nat
  templateVersion : Int
  nodeId : String
  kind : TriggerKind
  targetNodeId : String
  targetHandle : String
  source : TriggerSource
  enabled : Bool
  airTargetPlaceId : Option String

/-- The data of a trigger node and its single outgoing edge. -/
def locateTrigger (nodes : List WorkflowNode) (edges : List WorkflowEdge) (nodeId : String) :
    Option (WorkflowNodeData × WorkflowEdge) := do
  let node ← nodes.find? (·.id = nodeId)
  match node.data with
  | .trigger .. =>
    let edge ← edges.find? (·.source = nodeId)
    some (node.data, edge)
  | _ => none

end Triggers

end Mekhan

/-!
## The trigger registry

`register_template` and `forget_template` of `service/src/triggers/dispatcher.rs`. The records
are in a map with the node id for its key.
-/

namespace Mekhan

namespace Triggers

open Infra

abbrev Registry := KeyedList TriggerRecord.nodeId

/-- A record of the template and its version. -/
def TriggerRecord.IsOf (templateId : Nat) (version : Int) (rec : TriggerRecord) : Bool :=
  rec.templateId = templateId && rec.templateVersion = version

/-- The record of a node of the template's graph, where it is a trigger with a target. -/
def triggerRecord (template : WorkflowTemplate) (graph : WorkflowGraph) (node : WorkflowNode) :
    Option TriggerRecord :=
  match node.data with
  | .trigger source enabled _ (some placeId) =>
    -- pre-AIR direct target: spawn by construction, the place stands for the target node
    some ⟨template.workspaceId, template.id, template.version, node.id, .spawn, placeId, "", source, enabled,
      some placeId⟩
  | .trigger source enabled _ none => do
    let (_, edge) ← locateTrigger graph.nodes graph.edges node.id
    let target ← graph.nodes.find? (·.id = edge.target)
    let kind := match target.data with
      | .start => TriggerKind.spawn
      | _ => .signal
    some ⟨template.workspaceId, template.id, template.version, node.id, kind, target.id,
      edge.targetHandle.getD "in", source, enabled, none⟩
  | _ => none

/-- Only newly-added, enabled catalog triggers are backfilled, and none with a place for its target. -/
def wantsBackfill (doBackfill : Bool) (priorIds : List String) (rec : TriggerRecord) : Bool :=
  doBackfill && rec.enabled && !priorIds.contains rec.nodeId && rec.airTargetPlaceId.isNone &&
    match rec.source with
    | .catalog _ backfill => backfill
    | _ => false

/-- What a registration leaves, how many triggers it registered, and those to backfill. -/
structure Registered where
  registry : Registry
  registered : Nat
  toBackfill : List TriggerRecord

def registerTemplate (registry : Registry) (template : WorkflowTemplate) (doBackfill : Bool) : Registered :=
  match template.graph with
  | none => ⟨registry, 0, []⟩
  | some graph =>
    let priorIds := (registry.toList.filter (·.IsOf template.id template.version)).map (·.nodeId)
    let cleared := registry.retain fun rec => !rec.IsOf template.id template.version
    graph.nodes.foldl (fun acc node =>
      match triggerRecord template graph node with
      | none => acc
      | some rec =>
        ⟨acc.registry.insert rec, acc.registered + 1,
          if wantsBackfill doBackfill priorIds rec then acc.toBackfill ++ [rec] else acc.toBackfill⟩)
      ⟨cleared, 0, []⟩

def forgetTemplate (registry : Registry) (templateId : Nat) : Registry :=
  registry.retain fun rec => rec.templateId ≠ templateId

end Triggers

end Mekhan

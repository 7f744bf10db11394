import Mekhan.Domain.Net

/-!
# Static checks of a topology

`application/src/analysis.rs`.
-/

namespace Mekhan

open Infra

inductive IssueLevel where
  | error
  | warning
  | info
  deriving DecidableEq

structure ValidationIssue where
  nodeId : String
  nodeType : String
  level : IssueLevel
  code : String
  message : String
  remoteNetId : Option String

structure AnalysisSummary where
  errorCount : Nat
  warningCount : Nat
  infoCount : Nat

structure AnalysisReport where
  isValid : Bool
  issues : List ValidationIssue
  summary : AnalysisSummary

namespace Analysis

/-- The two helpers `error` and `warning`. -/
def issue (level : IssueLevel) (nodeId nodeType code message : String) : ValidationIssue :=
  ⟨nodeId, nodeType, level, code, message, none⟩

def error : String → String → String → String → ValidationIssue := issue .error

def warning : String → String → String → String → ValidationIssue := issue .warning

/-- How many arcs of a direction touch a place. -/
def degree (net : PetriNet) (direction : ArcDirection) (p : PlaceId) : Nat :=
  (net.arcs.filter fun a => a.placeId = p ∧ a.direction = direction).length

def unreachable (net : PetriNet) (place : Place) (message : String) : List ValidationIssue :=
  if degree net .transitionToPlace place.id = 0 then
    [warning place.id.name "place" "UNREACHABLE" ("'" ++ place.name ++ "': " ++ message)]
  else []

def checkPlace (net : PetriNet) (place : Place) : List ValidationIssue :=
  match place.kind with
  | .internal | .bridgeOut .. =>
    unreachable net place "No inputs - may be unreachable without initial tokens"
  | .signal | .bridgeIn .. =>
    if degree net .placeToTransition place.id = 0 then
      [warning place.id.name "place" "UNUSED_SIGNAL"
        ("'" ++ place.name ++ "': Signal not connected to any transition")]
    else []
  | .bridgeReply _ => []
  | .terminal => unreachable net place "Terminal place has no incoming arcs — can never complete"
  | .sink =>
    unreachable net place "Sink place has no incoming arcs — nothing is ever discarded here"

def checkInputPort (net : PetriNet) (t : Transition) (port : Port) : List ValidationIssue :=
  let arcs := (net.inputArcs t.id).filter (·.portName = port.name)
  let disconnected := if arcs = [] then
      [error t.id.name "transition" "DISCONNECTED_INPUT"
        ("'" ++ t.name ++ "': Input port '" ++ port.name ++ "' has no incoming arc")]
    else []
  let mismatches := if port.cardinality = .single then
      (arcs.filter fun a => 1 < a.weight).map fun a =>
        error t.id.name "transition" "CARDINALITY_MISMATCH"
          ("'" ++ t.name ++ "': Port '" ++ port.name ++ "' expects Single but arc weight is " ++
            toString a.weight)
    else []
  disconnected ++ mismatches

/-- An unwired output port is a warning, except for the optional `_error` port of an effect. -/
def checkOutputPort (net : PetriNet) (t : Transition) (port : Port) : List ValidationIssue :=
  if (net.outputArcs t.id).any (·.portName = port.name) then []
  else if t.isEffect && port.name = "_error" then []
  else
    [warning t.id.name "transition" "DISCONNECTED_OUTPUT"
      ("'" ++ t.name ++ "': Output port '" ++ port.name ++
        "' has no outgoing arc - data discarded")]

def checkTransition (net : PetriNet) (t : Transition) : List ValidationIssue :=
  t.inputPorts.flatMap (checkInputPort net t) ++ t.outputPorts.flatMap (checkOutputPort net t)

end Analysis

open Analysis in
def validateTopology (net : PetriNet) : AnalysisReport :=
  let issues := net.places.values.flatMap (checkPlace net) ++
    net.transitions.values.flatMap (checkTransition net)
  let count (level : IssueLevel) : Nat := (issues.filter (·.level = level)).length
  { isValid := count .error = 0
    issues := issues
    summary := ⟨count .error, count .warning, count .info⟩ }

end Mekhan

import Mekhan.Domain.Token

/-!
# The topology of a net

`domain/src/place.rs`, `port.rs`, `arc.rs`, `transition.rs` and the `PetriNet` of `net.rs`.

A `PetriNet` keys its places and transitions by their own ids: every constructor of the source
(`add_place`, `add_transition` and the two deserializers) inserts a value under its `id`, and the
structure carries that as a field.
-/

namespace Mekhan

open Infra

/-! ## Places -/

/-- How a place interacts with the world outside its net. -/
inductive PlaceKind where
  | internal
  | signal
  | bridgeIn (sourceNetId : Option String) (sourcePlaceName : Option String)
  | bridgeOut (targetNetId : String) (targetPlaceName : String) (replyTo : Option String)
      (replyChannels : Option (HashMap String String)) (label : Option String)
  | bridgeReply (channel : Option String)
  | terminal
  | sink
  deriving DecidableEq

/-- A place of a net. -/
structure Place where
  id : PlaceId
  name : String
  kind : PlaceKind
  capacity : Option Nat
  groupId : Option String
  tokenSchema : Option String
  deriving DecidableEq

/-- `Place::internal` and its siblings: the name is also the id. -/
def Place.ofKind (kind : PlaceKind) (name : String) : Place where
  id := ⟨name⟩
  name := name
  kind := kind
  capacity := none
  groupId := none
  tokenSchema := none

def Place.internal : String → Place := Place.ofKind .internal

def Place.signal : String → Place := Place.ofKind .signal

def Place.bridgeOut (name netId placeName : String) : Place :=
  Place.ofKind (.bridgeOut netId placeName none none none) name

/-! ## Ports, arcs and transitions -/

/-- Whether a port takes one token or a list of them. -/
inductive PortCardinality where
  | single
  | batch
  deriving DecidableEq

/-- A named input or output of a transition. -/
structure Port where
  name : String
  schemaRef : Option String
  cardinality : PortCardinality
  deriving DecidableEq

def Port.new (name : String) : Port := ⟨name, none, .single⟩

inductive ArcDirection where
  | placeToTransition
  | transitionToPlace
  deriving DecidableEq

/-- An arc between a place and a named port of a transition. -/
structure Arc where
  id : ArcId
  placeId : PlaceId
  transitionId : TransitionId
  direction : ArcDirection
  portName : String
  weight : Nat
  read : Bool
  countFrom : Option String
  correlateOn : Option String
  resetReplyRouting : Bool
  drainMax : Option Nat
  deriving DecidableEq

namespace Arc

/-- An arc of weight one that consumes what it takes. -/
def input (id : ArcId) (placeId : PlaceId) (transitionId : TransitionId) (portName : String) :
    Arc where
  id := id
  placeId := placeId
  transitionId := transitionId
  direction := .placeToTransition
  portName := portName
  weight := 1
  read := false
  countFrom := none
  correlateOn := none
  resetReplyRouting := false
  drainMax := none

/-- An arc that puts what the port produces. -/
def output (id : ArcId) (transitionId : TransitionId) (portName : String) (placeId : PlaceId) :
    Arc :=
  { Arc.input id placeId transitionId portName with direction := .transitionToPlace }

def isInput (a : Arc) : Bool := a.direction = .placeToTransition

def isOutput (a : Arc) : Bool := a.direction = .transitionToPlace

end Arc

/-- How long a simulated effect takes. -/
structure SimulationConfig where
  durationMs : Nat
  varianceMs : Option Nat
  deriving DecidableEq

/-- A transition: its ports, its guard and its script or effect. -/
structure Transition where
  id : TransitionId
  name : String
  inputPorts : List Port
  outputPorts : List Port
  guard : Option String
  script : String
  priority : Option String
  finalizer : Bool
  simulation : Option SimulationConfig
  groupId : Option String
  effectHandlerId : Option String
  effectConfig : Option Json
  causedSignals : List String
  processStepStarted : Option String
  processStepCompleted : Option String
  deriving DecidableEq

namespace Transition

def new (name script : String) : Transition where
  id := ⟨name⟩
  name := name
  inputPorts := []
  outputPorts := []
  guard := none
  script := script
  priority := none
  finalizer := false
  simulation := none
  groupId := none
  effectHandlerId := none
  effectConfig := none
  causedSignals := []
  processStepStarted := none
  processStepCompleted := none

def isEffect (t : Transition) : Bool := t.effectHandlerId.isSome

def inputPort (t : Transition) (name : String) : Option Port :=
  t.inputPorts.find? (·.name = name)

def outputPort (t : Transition) (name : String) : Option Port :=
  t.outputPorts.find? (·.name = name)

end Transition

/-! ## The net -/

/-- Visualization group; travels with the topology. -/
structure Group where
  id : String
  name : String
  parentId : Option String
  metadata : Option Json
  deriving DecidableEq

structure PetriNet where
  places : HashMap PlaceId Place
  transitions : HashMap TransitionId Transition
  arcs : List Arc
  groups : List Group
  placesKeyed : ∀ e ∈ places.entries, e.2.id = e.1
  transitionsKeyed : ∀ e ∈ transitions.entries, e.2.id = e.1
  deriving DecidableEq

namespace PetriNet

def new : PetriNet where
  places := ∅
  transitions := ∅
  arcs := []
  groups := []
  placesKeyed := by simp
  transitionsKeyed := by simp

theorem keyed_insert {K V : Type} [DecidableEq K] {idOf : V → K} {m : HashMap K V}
    (h : ∀ e ∈ m.entries, idOf e.2 = e.1) (v : V) : ∀ e ∈ (m.insert (idOf v) v).entries, idOf e.2 = e.1 := by
  intro e he
  rw [AList.entries_insert] at he
  rcases List.mem_cons.mp he with rfl | he
  · rfl
  · exact h e ((List.kerase_sublist _ _).subset he)

def addPlace (net : PetriNet) (place : Place) : PetriNet :=
  { net with
    places := net.places.insert place.id place
    placesKeyed := keyed_insert net.placesKeyed place }

def addTransition (net : PetriNet) (t : Transition) : PetriNet :=
  { net with
    transitions := net.transitions.insert t.id t
    transitionsKeyed := keyed_insert net.transitionsKeyed t }

def addArc (net : PetriNet) (arc : Arc) : PetriNet := { net with arcs := net.arcs ++ [arc] }

def getPlace (net : PetriNet) (id : PlaceId) : Option Place := net.places.lookup id

def getTransition (net : PetriNet) (id : TransitionId) : Option Transition :=
  net.transitions.lookup id

/-- All input arcs of a transition, in declaration order. -/
def inputArcs (net : PetriNet) (tid : TransitionId) : List Arc :=
  net.arcs.filter fun a => a.transitionId = tid ∧ a.isInput

def outputArcs (net : PetriNet) (tid : TransitionId) : List Arc :=
  net.arcs.filter fun a => a.transitionId = tid ∧ a.isOutput

/-- The first arc of the port. -/
def outputArcForPort (net : PetriNet) (tid : TransitionId) (port : String) : Option Arc :=
  net.arcs.find? fun a => a.transitionId = tid ∧ a.isOutput ∧ a.portName = port

/-- The ids of the terminal places, in iteration order. -/
def terminalPlaces (net : PetriNet) : List PlaceId :=
  (net.places.values.filter (·.kind = .terminal)).map (·.id)

variable {net : PetriNet} {tid : TransitionId} {t : Transition}

theorem mem_transitions_of_getTransition
    (h : net.getTransition tid = some t) : (⟨tid, t⟩ : Sigma _) ∈ net.transitions.entries :=
  List.of_mem_dlookup h

theorem getTransition_id (h : net.getTransition tid = some t) : t.id = tid :=
  net.transitionsKeyed _ (mem_transitions_of_getTransition h)

theorem getTransition_of_mem_values (net : PetriNet) {t : Transition}
    (h : t ∈ net.transitions.values) : net.getTransition t.id = some t := by
  obtain ⟨⟨k, v⟩, he, rfl⟩ := List.mem_map.mp h
  have hk : v.id = k := net.transitionsKeyed _ he
  rw [hk]
  exact List.mem_dlookup net.transitions.nodupKeys he

end PetriNet

end Mekhan

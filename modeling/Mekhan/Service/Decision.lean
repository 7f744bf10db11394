import Mekhan.Application.PinnedBinding
import Mekhan.Service.GuardText

/-!
# Decisions

The transitions of a Decision node: `lower_decision` (`compiler/lower/decision.rs`), the read arcs
that `apply_guard_borrows` gives them, and `align_decision_deadends`, which copies the read arcs of
the branches to the dead end (`compiler/compile.rs`). What the transitions put out is left out: the
claim on a token is decided before.

A guard whose references were rewritten stands for the guard: it is what the engine evaluates.
-/

namespace Mekhan

open Infra

/-! ## Scenario transitions -/

structure ScenarioArc where
  place : String
  port : String
  weight : Nat
  read : Bool
  countFrom : Option String
  drainMax : Option Nat
  deriving DecidableEq

/-- A transition as the scenario's JSON has it. -/
structure ScenarioTransition where
  id : String
  inputPorts : List Port
  inputs : List ScenarioArc
  guard : Option String
  priority : Option String
  logic : String
  deriving DecidableEq

def Arc.toScenario (a : Arc) : ScenarioArc where
  place := a.placeId.name
  port := a.portName
  weight := a.weight
  read := a.read
  countFrom := a.countFrom
  drainMax := a.drainMax

def ScenarioTransition.toTransition (t : ScenarioTransition) : Transition :=
  { Transition.new t.id t.logic with
    inputPorts := t.inputPorts
    guard := t.guard
    priority := t.priority }

/-- The net has these transitions, with these input arcs. Which order a pass considers them in is
open. -/
structure Loads (ts : List ScenarioTransition) (net : PetriNet) : Prop where
  transitions : net.transitions.values.Perm (ts.map ScenarioTransition.toTransition)
  arcs : ∀ t ∈ ts, (net.inputArcs ⟨t.id⟩).map Arc.toScenario = t.inputs

/-! ## Borrows -/

/-- A reference of a guard to the data another node has parked. -/
structure GuardBorrow where
  producer : String
  dotted : String
  producerPath : String
  nonempty : dotted.toList ≠ []
  /-- `scan_dotted_refs` reads identifiers, dots and `[*]`. -/
  scanned : ∀ c ∈ dotted.toList, isJoint c = false

/-- The variable of a producer's parked data. -/
def dataVar (producer : String) : String :=
  "d_" ++ String.ofList (producer.toList.map fun c => if c = '-' then '_' else c)

def GuardBorrow.newRef (b : GuardBorrow) : String := dataVar b.producer ++ "." ++ b.producerPath

/-- `wire_read_arc` against the parked place of a producer: never a second arc to one place. -/
def wireReadArc (t : ScenarioTransition) (producer place : String) : ScenarioTransition :=
  { t with
    inputPorts :=
      if t.inputPorts.any (·.name = dataVar producer) then t.inputPorts
      else t.inputPorts ++ [⟨dataVar producer, some ("#/definitions/Data__" ++ producer), .single⟩]
    inputs :=
      if t.inputs.any (·.place = place) then t.inputs
      else t.inputs ++ [⟨place, dataVar producer, 1, true, none, none⟩] }

/-- A borrow applied to one transition of its node. -/
def applyGuardBorrow (dataPort : String → Option String) (t : ScenarioTransition)
    (b : GuardBorrow) : ScenarioTransition :=
  match dataPort b.producer with
  | none => t
  | some place =>
    let inGuard := t.guard.any fun s => containsText b.dotted.toList s.toList
    let inLogic := containsText b.dotted.toList t.logic.toList
    if !inGuard && !inLogic then t
    else
      { wireReadArc t b.producer place with
        guard := t.guard.map (rewriteText b.dotted b.newRef)
        logic := rewriteText b.dotted b.newRef t.logic }

/-- `apply_guard_borrows` for one transition. -/
def applyGuardBorrows (dataPort : String → Option String) (borrows : List GuardBorrow)
    (t : ScenarioTransition) : ScenarioTransition :=
  borrows.foldl (applyGuardBorrow dataPort) t

/-- One borrow after the other, over the text as it is by then. -/
def rewriteGuard (dataPort : String → Option String) (borrows : List GuardBorrow) (g : String) :
    String :=
  borrows.foldl (fun g b =>
    if (dataPort b.producer).isSome then rewriteText b.dotted b.newRef g else g) g

/-! ## The node -/

/-- A decision and what the compiler reads around it. -/
structure DecisionNode where
  id : String
  label : String
  conditions : List String
  defaultBranch : Option String
  /-- The `item_var` of the Map around the node. -/
  mapItemVar : Option String
  /-- The references of the guards to parked data. -/
  borrows : List GuardBorrow
  dataPort : String → Option String
  /-- A vector has fewer elements than there are signed words. -/
  bounded : conditions.length < 2 ^ 63
  /-- A guard is ASCII where it is rewritten: for the references of the node, or because it mentions the item. -/
  ascii : ∀ g ∈ conditions, (borrows ≠ [] ∨ ∃ v ∈ mapItemVar, containsText (v ++ ".").toList g.toList = true) →
    ∀ c ∈ g.toList, c.toNat < 128

/-- A text as it stands inside Rhai's quotes. -/
def rhaiStrEscape (s : String) : String :=
  String.ofList (s.toList.flatMap fun c =>
    if c = '\\' then ['\\', '\\'] else if c = '"' then ['\\', '"']
    else if c = '\n' then ['\\', 'n'] else if c = '\r' then ['\\', 'r'] else [c])

/-- Inside a map the item is a field of the input. -/
def qualifyMapItemRefs (src itemVar : String) : String :=
  rewriteText (itemVar ++ ".") ("input." ++ itemVar ++ ".") src

namespace DecisionNode

variable (d : DecisionNode)

/-- An empty guard holds always. -/
def normalize (guard : String) : String :=
  let g := if trim guard.toList = [] then "true" else guard
  match d.mapItemVar with
  | some itemVar => qualifyMapItemRefs g itemVar
  | none => g

/-- The guards as they are compiled. -/
def guards : List String := d.conditions.map d.normalize

def inputPlace : String := "p_" ++ d.id ++ "_input"

/-- What every transition starts from: `auto_input("input", &p_input)`. -/
def transition (name : String) (guard : Option String) (priority logic : String) :
    ScenarioTransition where
  id := "t_" ++ d.id ++ name
  inputPorts := [⟨"input", some "#/definitions/DynamicToken", .single⟩]
  inputs := [⟨d.inputPlace, "input", 1, false, none, none⟩]
  guard := guard
  priority := some priority
  logic := logic

/-- The guard of a branch and the negated guards before it, nearest first. -/
def branchLiterals (guards : List String) (i : Nat) : List (Bool × String) :=
  (true, guards.getD i "") :: (guards.take i).reverse.map fun g => (false, g)

/-- The default branch is taken where no guard holds. -/
def defaultLiterals (guards : List String) : List (Bool × String) := guards.map fun g => (false, g)

/-- A branch is taken where its guard holds and none before it. -/
def branch (i : Nat) : ScenarioTransition :=
  d.transition ("_branch_" ++ toString i) (some (conjunction (branchLiterals d.guards i)))
    (toString (d.guards.length - i + 1)) "#\x7b output: input \x7d"

/-- Without conditions the default needs no guard. -/
def defaultTransition : ScenarioTransition :=
  d.transition "_default"
    (if d.guards = [] then none else some (conjunction (defaultLiterals d.guards))) "1"
    "#\x7b output: input \x7d"

/-- Fails the net where nothing matched. -/
def deadend : ScenarioTransition :=
  d.transition "_deadend" none "0" ("throw \"" ++ rhaiStrEscape ("decision " ++ d.label ++
    ": token matched no branch and no default branch") ++ "\"")

/-! ## The node after the borrow passes -/

def applyBorrows (t : ScenarioTransition) : ScenarioTransition :=
  applyGuardBorrows d.dataPort d.borrows t

def defaults : List ScenarioTransition :=
  if d.defaultBranch.isSome then [d.applyBorrows d.defaultTransition] else []

def siblings : List ScenarioTransition :=
  (List.range d.guards.length).map (fun i => d.applyBorrows (d.branch i)) ++ d.defaults

/-- A read arc of a sibling on the dead end. -/
def alignArc (dead : ScenarioTransition) (x : ScenarioArc × Option Port) : ScenarioTransition :=
  { dead with
    inputPorts :=
      if dead.inputPorts.any (·.name = x.1.port) then dead.inputPorts
      else dead.inputPorts ++ [⟨x.1.port, x.2.bind (·.schemaRef), .single⟩]
    inputs :=
      if dead.inputs.any fun a => a.place = x.1.place && a.port = x.1.port && a.read then dead.inputs
      else dead.inputs ++ [⟨x.1.place, x.1.port, 1, true, none, none⟩] }

/-- The read arcs of the siblings with their ports. -/
def siblingReads : List (ScenarioArc × Option Port) :=
  d.siblings.flatMap fun t => (t.inputs.filter (·.read)).map fun a =>
    (a, t.inputPorts.find? (·.name = a.port))

/-- `align_decision_deadends`. -/
def alignedDeadend : ScenarioTransition :=
  d.siblingReads.foldl alignArc (d.applyBorrows d.deadend)

/-- The branches, the default and the dead end. -/
def transitions : List ScenarioTransition := d.siblings ++ [d.alignedDeadend]

end DecisionNode

end Mekhan

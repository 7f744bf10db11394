import Mekhan.Infra.JsonMap
import Mekhan.Triggers.Model

/-!
# Single-active-coalesce

`fire_impl`, `fire_spawn`, `fire_spawn_active` and `on_instance_terminal` of
`service/src/triggers/dispatcher.rs`, for one template whose policy is `SingleActiveCoalesce` and the fires
that nobody waits on.

A fire passes the gate in one step, under the mutex; what comes before reads nothing that the gate
writes. A launch then goes on in steps of its own: other fires, other launches and terminal
notifications run in between. Instances are numbered in the order in which they pass the gate.
-/

namespace Mekhan

namespace Triggers

open Infra

/-! ## The token of a fire -/

/-- What the token of a fire depends on: the node's mapping and the port that it feeds. -/
structure TriggerTarget where
  payloadMapping : List FieldMapping
  passthrough : Bool
  accepts : Json → Bool

section

-- `eval_expression_with_scope`, of the script library, and the map behind a JSON object.
variable (eval : List (String × Json) → String → Except String Json) (impl : MapImpl)

/-- Each expression, with the scope's keys for its variables. -/
def evaluateMapping (mappings : List FieldMapping) (scopeObj : Json) (passthroughOk : Bool) :
    Except String Json :=
  if mappings = [] then .ok (if passthroughOk then scopeObj else .obj [])
  else
    let scopeMap := match scopeObj with
      | .obj entries => entries
      | _ => []
    (mappings.mapM fun m => (eval scopeMap m.expression).map fun v => (m.targetField, v)).map fun entries =>
      .obj (collect impl entries)

/-- The token that a fire of the node brings to the gate; `none` where the fire is dropped. -/
def fireToken (targets : String → Option TriggerTarget) (nodeId : String) (eventPayload : Json) :
    Option Json := do
  let target ← targets nodeId
  match evaluateMapping eval impl target.payloadMapping eventPayload target.passthrough with
  | .ok token => if target.accepts token then some token else none
  | .error _ => none

end

/-! ## Spawns -/

inductive LaunchPhase where
  /-- Past the gate; the AIR is loaded and its bindings are prepared. -/
  | preparing
  | launching
  | created
  | returned
  /-- The launcher failed; the mark is still to be cleared. -/
  | failing
  | failed
  deriving DecidableEq

inductive InstanceStatus where
  | running
  | terminal
  deriving DecidableEq

structure Spawn where
  nodeId : String
  token : Json
  phase : LaunchPhase
  /-- The status of the instance, while it has a row or a failed launch has left its net running. -/
  row : Option InstanceStatus

inductive GateEvent where
  | coalesced (nodeId : String) (token : Json)
  | spawned (instanceId : Nat) (token : Json)

structure CoalesceState where
  activeInstanceId : Option Nat
  dirty : Bool
  lastSkipped : Option (String × Json)

structure Dispatcher where
  concurrency : CoalesceState
  spawns : List Spawn
  /-- Instances whose terminal notification has not been handled. -/
  notifications : List Nat
  followUps : List (String × Json)
  /-- What the gate decided, the latest first. -/
  log : List GateEvent

inductive DispatcherAction where
  /-- A fire that comes to the gate with a token. -/
  | fire (nodeId : String) (eventPayload : Json)
  /-- The AIR is there and its bindings are prepared, or not. -/
  | prepare (instanceId : Nat) (succeeds : Bool)
  | create (instanceId : Nat)
  | launched (instanceId : Nat)
  /-- A step of the launcher fails. The roll-back may fail with it: an insert or a start of the net that took
  effect was reported to have failed, or the DELETE fails, which nobody looks at. -/
  | launchFails (instanceId : Nat) (rolledBack : Bool)
  | unwind (instanceId : Nat)
  | terminate (instanceId : Nat)
  /-- `on_instance_terminal`; its look-up of the row may fail. -/
  | onInstanceTerminal (instanceId : Nat) (succeeds : Bool)
  /-- The self-fire, from `fire` to the gate. It is not `admitted` where the trigger is gone or disabled,
  or the database fails. -/
  | followUp (nodeId : String) (payload : Json) (admitted : Bool)

namespace Dispatcher

def initial : Dispatcher := ⟨⟨none, false, none⟩, [], [], [], []⟩

/-- The gate: with a sibling active the fire is coalesced, else it is marked active and spawned. -/
def fireSpawn (d : Dispatcher) (nodeId : String) (token : Json) : Dispatcher :=
  match d.concurrency.activeInstanceId with
  | some active =>
    { d with concurrency := ⟨some active, true, some (nodeId, token)⟩, log := .coalesced nodeId token :: d.log }
  | none =>
    let instanceId := d.spawns.length
    { d with
      concurrency := { d.concurrency with activeInstanceId := some instanceId }
      spawns := d.spawns ++ [⟨nodeId, token, .preparing, none⟩]
      log := .spawned instanceId token :: d.log }

def setSpawn (d : Dispatcher) (instanceId : Nat) (spawn : Spawn) : Dispatcher :=
  { d with spawns := d.spawns.set instanceId spawn }

/-- The launcher failed: the mark is cleared if it is still this instance's. -/
def clearActive (c : CoalesceState) (instanceId : Nat) : CoalesceState :=
  if c.activeInstanceId = some instanceId then { c with activeInstanceId := none } else c

/-- The instance that is marked active has ended; a fire that was coalesced is taken out. -/
def closeActive (c : CoalesceState) : CoalesceState × Option (String × Json) :=
  if c.dirty then (⟨none, false, none⟩, c.lastSkipped) else ({ c with activeInstanceId := none }, none)

-- The parameters of `fireToken`.
variable (eval : List (String × Json) → String → Except String Json) (impl : MapImpl)
  (targets : String → Option TriggerTarget)

def step (d : Dispatcher) : DispatcherAction → Option Dispatcher
  | .fire nodeId eventPayload => (fireToken eval impl targets nodeId eventPayload).map (d.fireSpawn nodeId)
  | .prepare i succeeds => d.spawns[i]?.bind fun spawn =>
    match spawn.phase with
    | .preparing => some (d.setSpawn i { spawn with phase := if succeeds then .launching else .failed })
    | _ => none
  | .create i => d.spawns[i]?.bind fun spawn =>
    match spawn.phase with
    | .launching => some (d.setSpawn i { spawn with phase := .created, row := some .running })
    | _ => none
  | .launched i => d.spawns[i]?.bind fun spawn =>
    match spawn.phase with
    | .created => some (d.setSpawn i { spawn with phase := .returned })
    | _ => none
  | .launchFails i rolledBack => d.spawns[i]?.bind fun spawn =>
    match spawn.phase with
    | .launching | .created =>
      some (d.setSpawn i { spawn with phase := .failing, row := if rolledBack then none else some .running })
    | _ => none
  | .unwind i => d.spawns[i]?.bind fun spawn =>
    match spawn.phase with
    | .failing => some { d.setSpawn i { spawn with phase := .failed } with
        concurrency := clearActive d.concurrency i }
    | _ => none
  | .terminate i => d.spawns[i]?.bind fun spawn =>
    match spawn.row with
    | some .running => some { d.setSpawn i { spawn with row := some .terminal } with
        notifications := d.notifications ++ [i] }
    | _ => none
  | .onInstanceTerminal i succeeds =>
    if i ∈ d.notifications then
      let d := { d with notifications := d.notifications.erase i }
      let found := succeeds && (d.spawns[i]?.bind (·.row)).isSome
      if found && d.concurrency.activeInstanceId = some i then
        let (concurrency, followUp) := closeActive d.concurrency
        some { d with concurrency, followUps := d.followUps ++ followUp.toList }
      else some d
    else none
  | .followUp nodeId payload admitted =>
    if (nodeId, payload) ∈ d.followUps then
      let d := { d with followUps := d.followUps.erase (nodeId, payload) }
      match if admitted then fireToken eval impl targets nodeId payload else none with
      | some token => some (d.fireSpawn nodeId token)
      | none => some d
    else none

end Dispatcher

end Triggers

end Mekhan

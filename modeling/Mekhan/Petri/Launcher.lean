import Mekhan.Infra.Json

/-!
# Launching an instance

`InstanceLauncher::launch` of `service/src/petri/launcher.rs` and `deploy_instance` of
`service/src/petri/instance.rs`. The row is inserted, the scenario deployed, and the net set running; where
the engine reports a failure, the row is deleted again.

Each of the four remote effects succeeds, fails and does nothing, or takes effect and is reported to have
failed: the reply was lost.
-/

namespace Mekhan

namespace Petri

open Infra

inductive RunMode where
  | stopped
  | running

structure WorkflowInstance where
  id : Nat
  templateId : Nat
  templateVersion : Int
  netId : String
  status : String
  createdBy : Nat
  metadata : Json
  mode : String
  testId : Option Nat
  assetPins : Json
  graphSnapshot : Option Json
  interfaceSnapshot : Option Json

structure DeployedNet where
  netId : String
  scenario : Json
  dispatchOptions : Json
  netParameters : Option Json
  workspaceId : Option String
  runMode : RunMode

structure World where
  instances : List WorkflowInstance
  nets : List DeployedNet

structure StartToken where
  startBlockId : String
  token : Json

structure LaunchHead where
  instanceId : Nat
  netId : String
  templateId : Nat
  templateVersion : Int
  createdBy : Nat
  metadata : Json
  airJson : Json
  dispatchOptions : Json
  netParameters : Option Json
  workspaceId : Option String

inductive LaunchSpec where
  | templated (head : LaunchHead) (graph : Json) (startTokens : List StartToken) (mode : Option String)
      (testId : Option Nat) (graphSnapshot interfaceSnapshot : Option Json)
  | preAir (head : LaunchHead) (airTargetPlaceId : String) (token : Json)

def LaunchSpec.head : LaunchSpec → LaunchHead
  | templated h _ _ _ _ _ _ | preAir h _ _ => h

inductive LaunchError where
  | parameterize (message : String)
  | parameterizeForPlace (message : String)
  | database (message : String)
  | deploy (message : String)

inductive Reply where
  | succeeds
  | fails (error : String)
  /-- It takes effect, and the caller is told that it failed. -/
  | lost (error : String)

structure Replies where
  insert : Reply
  deploy : Reply
  setRunMode : Reply
  delete : Reply

/-- What a remote effect leaves, and what the caller is told. The other side may refuse it, and then
nothing happens. -/
def attempt (reply : Reply) (effect : World → Except String World) (w : World) : World × Except String Unit :=
  match effect w with
  | .error e => (w, .error e)
  | .ok w' =>
    match reply with
    | .succeeds => (w', .ok ())
    | .fails e => (w, .error e)
    | .lost e => (w', .error e)

namespace World

def insertInstance (row : WorkflowInstance) (w : World) : Except String World :=
  if w.instances.any (·.id = row.id) then .error "duplicate key"
  else .ok { w with instances := w.instances ++ [row] }

def deleteInstance (id : Nat) (w : World) : Except String World :=
  .ok { w with instances := w.instances.filter (·.id ≠ id) }

def deployScenario (net : DeployedNet) (w : World) : Except String World :=
  .ok { w with nets := w.nets.filter (·.netId ≠ net.netId) ++ [{ net with runMode := .stopped }] }

def setRunMode (netId : String) (mode : RunMode) (w : World) : Except String World :=
  if w.nets.any (·.netId = netId) then
    .ok { w with nets := w.nets.map fun net => if net.netId = netId then { net with runMode := mode } else net }
  else .error "net not found"

end World

/-- `deploy_instance`: deploy the scenario, then start execution. -/
def deployInstance (o : Replies) (net : DeployedNet) (w : World) : World × Except String Unit :=
  match attempt o.deploy (World.deployScenario net) w with
  | (w, .ok ()) => attempt o.setRunMode (World.setRunMode net.netId .running) w
  | (w, .error e) => (w, .error e)

/-- The pins that publishing left beside the AIR, and the AIR without them. -/
def takeAssetPins : Json → Json × Json
  | .obj entries =>
    (((entries.find? (·.1 = "__asset_pins")).map (·.2)).getD (.obj []), .obj (entries.filter (·.1 ≠ "__asset_pins")))
  | air => (.obj [], air)

def LaunchSpec.row (spec : LaunchSpec) (assetPins : Json) : WorkflowInstance :=
  let h := spec.head
  let (mode, testId, graphSnapshot, interfaceSnapshot) := match spec with
    | .templated _ _ _ mode testId graphSnapshot interfaceSnapshot => (mode, testId, graphSnapshot, interfaceSnapshot)
    | .preAir _ _ _ => (none, none, none, none)
  ⟨h.instanceId, h.templateId, h.templateVersion, h.netId, "running", h.createdBy, h.metadata,
    mode.getD "live", testId, assetPins, graphSnapshot, interfaceSnapshot⟩

/-- `launch`. `parameterize` is `parameterize_air` or `parameterize_for_place`, which calls nobody. -/
def launch (parameterize : LaunchSpec → Except LaunchError Json) (o : Replies) (spec : LaunchSpec) (w : World) :
    World × Except LaunchError WorkflowInstance :=
  match parameterize spec with
  | .error e => (w, .error e)
  | .ok parameterized =>
    let (assetPins, scenario) := takeAssetPins parameterized
    let instance' := spec.row assetPins
    match attempt o.insert (World.insertInstance instance') w with
    | (w, .error e) => (w, .error (.database e))
    | (w, .ok ()) =>
      let h := spec.head
      match deployInstance o ⟨h.netId, scenario, h.dispatchOptions, h.netParameters, h.workspaceId, .stopped⟩ w with
      | (w, .ok ()) => (w, .ok instance')
      | (w, .error e) =>
        -- one attempt to delete the row, whose outcome is not looked at
        ((attempt o.delete (World.deleteInstance h.instanceId) w).1, .error (.deploy e))

end Petri

end Mekhan

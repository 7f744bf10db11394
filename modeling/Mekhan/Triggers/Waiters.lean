import Mekhan.Service.Lifecycle

/-!
# Waiting for the result of an instance

`service/src/triggers/waiters.rs`, the end of `fire_spawn_active` in `service/src/triggers/dispatcher.rs` and
`resolve_waiter` in `service/src/lifecycle.rs`. A call that fires a trigger and waits registers a one-shot
for its instance and reads the row again; the listener resolves it when it has committed a terminal status.
Between any two steps of one the others may run. The HTTP cancel and the archiving sweep make rows terminal
too and resolve no waiter; they are left out.
-/

namespace Mekhan

namespace Triggers

open Infra Lifecycle

structure TerminalOutcome where
  status : Lifecycle.InstanceStatus
  result : Option Json
  deriving DecidableEq

/-- What is read here of a row of `workflow_instances`. -/
structure WaitedRow where
  id : Uuid
  netId : String
  status : Lifecycle.InstanceStatus
  result : Option Json

/-- How far a call of `fire` has come that spawns an instance. -/
inductive FirePhase where
  | launching
  | launched
  | registered
  /-- It has read the row; the outcome is there when the row was terminal. -/
  | reread (outcome : Option TerminalOutcome)
  | returned
  deriving DecidableEq

structure FireCall where
  id : Uuid
  netId : String
  wait : Bool
  phase : FirePhase
  deregistered : Bool

/-- How far the listener has come with a delivery. -/
inductive ConsumerPhase where
  | received
  | committed
  | tested
  | found (id : Uuid)
  | finished

structure ConsumerCall where
  content : LifecycleMessage
  phase : ConsumerPhase

/-- `ResultWaiters`: each instance with the call whose one-shot waits for it. -/
abbrev ResultWaiters := KeyedList (Prod.fst : Uuid × Nat → Uuid)

structure WaitWorld where
  instances : List WaitedRow
  waiters : ResultWaiters
  fires : List FireCall
  consumers : List ConsumerCall
  /-- What the one-shot of which call received. -/
  sent : List (Nat × TerminalOutcome)

inductive WaitAction where
  | fire (id : Uuid) (netId : String) (wait : Bool)
  | launch (call : Nat)
  | register (call : Nat)
  | rereadRow (call : Nat)
  | resolveReread (call : Nat)
  | deregister (call : Nat)
  | receive (content : LifecycleMessage)
  | commit (consumer : Nat)
  | testWaiters (consumer : Nat)
  | lookUp (consumer : Nat)
  | resolve (consumer : Nat)

def WaitedRow.terminate (row : WaitedRow) (msg : LifecycleMessage) : WaitedRow :=
  { row with status := msg.eventType.toInstance, result := msg.resultEnvelope <|> row.result }

def WaitedRow.matches (row : WaitedRow) (netId : String) : Bool := row.netId = netId && row.status = .running

/-- `completed`, `cancelled`, `failed` or `archived`. -/
def isTerminal : Lifecycle.InstanceStatus → Bool
  | .running => false
  | _ => true

namespace WaitWorld

def new : WaitWorld := ⟨[], .empty, [], [], []⟩

def setFire (w : WaitWorld) (i : Nat) (call : FireCall) (phase : FirePhase) : WaitWorld :=
  { w with fires := w.fires.set i { call with phase } }

def setConsumer (w : WaitWorld) (i : Nat) (call : ConsumerCall) (phase : ConsumerPhase) : WaitWorld :=
  { w with consumers := w.consumers.set i { call with phase } }

/-- `ResultWaiters::resolve` -/
def resolveWaiter (w : WaitWorld) (id : Uuid) (outcome : TerminalOutcome) : WaitWorld :=
  match w.waiters.get? id with
  | some (_, call) =>
    { w with waiters := w.waiters.retain (·.1 ≠ id), sent := w.sent ++ [(call, outcome)] }
  | none => w

def outcomeOf (msg : LifecycleMessage) : TerminalOutcome := ⟨msg.eventType.toInstance, msg.resultEnvelope⟩

def step (w : WaitWorld) : WaitAction → Option WaitWorld
  | .fire id netId wait => some { w with fires := w.fires ++ [⟨id, netId, wait, .launching, false⟩] }
  | .launch i => w.fires[i]?.bind fun call =>
    match call.phase with
    | .launching =>
      -- the row has a fresh id and a fresh net
      if w.instances.any fun row => row.id = call.id || row.netId = call.netId then none else
        some { w.setFire i call .launched with
          instances := w.instances ++ [⟨call.id, call.netId, .running, none⟩] }
    | _ => none
  | .register i => w.fires[i]?.bind fun call =>
    match call.phase with
    | .launched =>
      if call.wait then
        some { w.setFire i call .registered with waiters := w.waiters.insert (call.id, i) }
      else some (w.setFire i call .returned)
    | _ => none
  | .rereadRow i => w.fires[i]?.bind fun call =>
    match call.phase with
    | .registered =>
      let outcome := (w.instances.find? (·.id = call.id)).bind fun row =>
        if isTerminal row.status then some ⟨row.status, row.result⟩ else none
      some (w.setFire i call (.reread outcome))
    | _ => none
  | .resolveReread i => w.fires[i]?.bind fun call =>
    match call.phase with
    | .reread outcome =>
      let w' := w.setFire i call .returned
      some (match outcome with
        | some outcome => w'.resolveWaiter call.id outcome
        | none => w')
    | _ => none
  | .deregister i => w.fires[i]?.bind fun call =>
    match call.phase with
    | .returned =>
      if call.wait then
        some { w with
          fires := w.fires.set i { call with deregistered := true }
          waiters := w.waiters.retain (·.1 ≠ call.id) }
      else none
    | _ => none
  | .receive content => some { w with consumers := w.consumers ++ [⟨content, .received⟩] }
  | .commit i => w.consumers[i]?.bind fun call =>
    match call.phase with
    | .received =>
      let netId := call.content.netId
      if w.instances.any (·.matches netId) then
        some { w.setConsumer i call .committed with
          instances := w.instances.map fun row =>
            if row.matches netId then row.terminate call.content else row }
      else some (w.setConsumer i call .finished)
    | _ => none
  | .testWaiters i => w.consumers[i]?.bind fun call =>
    match call.phase with
    | .committed => some (w.setConsumer i call (if w.waiters.toList.isEmpty then .finished else .tested))
    | _ => none
  | .lookUp i => w.consumers[i]?.bind fun call =>
    match call.phase with
    | .tested =>
      match w.instances.find? (·.netId = call.content.netId) with
      | some row => some (w.setConsumer i call (.found row.id))
      | none => some (w.setConsumer i call .finished)
    | _ => none
  | .resolve i => w.consumers[i]?.bind fun call =>
    match call.phase with
    | .found id => some ((w.setConsumer i call .finished).resolveWaiter id (outcomeOf call.content))
    | _ => none

end WaitWorld

end Triggers

end Mekhan

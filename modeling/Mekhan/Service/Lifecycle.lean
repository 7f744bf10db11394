import Mekhan.Infra.KeyedList
import Mekhan.Domain.Events

/-!
# Terminal lifecycle events

`service/src/lifecycle.rs`: what the listener does with a message that says that a net has completed, was
cancelled or has failed. The status of the instance and the counters change in one transaction, so that is
one step; what follows it is one step each. A delivery stops where the consumer crashes, and a message
that is not acknowledged is delivered again.

Left out are a commit whose reply is lost, and the UPDATE by which an HTTP cancel sets the status itself
(`handlers/instances.rs`).
-/

namespace Mekhan

namespace Lifecycle

open Infra

/-- The statuses of an instance's row. -/
inductive InstanceStatus where
  | running
  | completed
  | cancelled
  | failed
  | archived
  deriving DecidableEq

/-- Those that a net's end leads to. -/
inductive TerminalStatus where
  | completed
  | cancelled
  | failed
  deriving DecidableEq

def TerminalStatus.toInstance : TerminalStatus → InstanceStatus
  | completed => .completed
  | cancelled => .cancelled
  | failed => .failed

/-- How a run is counted. -/
inductive Outcome where
  | success
  | failure
  | cancelled
  deriving DecidableEq

/-- `v.get("ok").and_then(as_bool)` -/
def okFlag? (v : Json) : Option Bool :=
  match v.get? "ok" with
  | some (.bool b) => some b
  | _ => none

/-- A completed run whose result says that it is not ok failed. -/
def deriveOutcome (status : TerminalStatus) (result : Option Json) : Outcome :=
  let explicitOkFalse := ((result.bind okFlag?).map not).getD false
  match status with
  | .failed => .failure
  | .cancelled => .cancelled
  | .completed => if explicitOkFalse then .failure else .success

/-! ## Messages -/

/-- A message on `petri.events.{net_id}.net.{event_type}`; the payload is absent where it is empty or does
not parse. -/
structure LifecycleMessage where
  netId : String
  eventType : TerminalStatus
  persisted : Option PersistedEvent
  deriving DecidableEq

/-- The result of a run that has no value. -/
def errorEnvelope (reason : Option String) : Json :=
  .obj [("ok", .bool false), ("error", .obj [("reason", (reason.map .str).getD .null), ("value", .null)])]

/-- The result that the waiters get. -/
def LifecycleMessage.resultEnvelope (msg : LifecycleMessage) : Option Json :=
  let event : Option DomainEvent := msg.persisted.map (·.event)
  match msg.eventType with
  | .completed =>
    match event with
    | some (.netCompleted _ _ exitCode) => exitCode
    | _ => none
  | .cancelled =>
    match event with
    | some (.netCancelled _ reason _) => some (errorEnvelope reason)
    | _ => some (errorEnvelope none)
  | .failed =>
    match event with
    | some (.netFailed _ _ reason _) => some (errorEnvelope (some reason))
    | _ => some (errorEnvelope (some "net failed"))

/-- A message, and how often it was delivered. -/
structure StreamMessage where
  content : LifecycleMessage
  delivered : Nat
  acked : Bool
  deriving DecidableEq

/-! ## Tables -/

/-- What the listener reads and writes of a row of `workflow_instances`. -/
structure InstanceRow where
  netId : String
  templateId : Uuid
  templateVersion : Int
  mode : String
  createdBy : Uuid
  createdAt : DateTime
  startedAt : Option DateTime
  completedAt : Option DateTime
  status : InstanceStatus
  result : Option Json

/-- The primary key of `template_run_rollup`. -/
structure RunKey where
  templateId : Uuid
  templateVersion : Int
  bucketHour : Int
  mode : String
  outcome : Outcome
  deriving DecidableEq

/-- A counter of runs. -/
structure RunRollup where
  key : RunKey
  runCount : Nat
  durationMsSum : Int
  durationMsCount : Nat

/-- A row of `template_user_runs`, by template and user. -/
structure UserRuns where
  key : Uuid × Uuid
  runCount : Nat
  firstRun : DateTime
  lastRun : DateTime

/-- `date_trunc('hour', …)`, as the number of the hour. -/
def truncHour (t : DateTime) : Int := t.nanos / 3600000000000

/-- A row changed from `running`, with the outcome that was counted. -/
structure Flip where
  row : InstanceRow
  outcome : Outcome

def Flip.runKey (flip : Flip) : RunKey :=
  ⟨flip.row.templateId, flip.row.templateVersion, truncHour flip.row.createdAt, flip.row.mode, flip.outcome⟩

def Flip.userKey (flip : Flip) : Uuid × Uuid := (flip.row.templateId, flip.row.createdBy)

/-- The sum and the count of durations that a run adds. -/
def Flip.duration (flip : Flip) : Int × Nat :=
  match flip.row.startedAt, flip.row.completedAt with
  | some s, some c => (max ((c.nanos - s.nanos).tdiv 1000000) 0, 1)
  | _, _ => (0, 0)

/-- `INSERT INTO template_run_rollup … ON CONFLICT … DO UPDATE` -/
def recordRun (table : KeyedList RunRollup.key) (flip : Flip) : KeyedList RunRollup.key :=
  let (sum, count) := flip.duration
  table.insert <| match table.get? flip.runKey with
    | none => ⟨flip.runKey, 1, sum, count⟩
    | some row =>
      ⟨flip.runKey, row.runCount + 1, row.durationMsSum + sum, row.durationMsCount + count⟩

/-- `INSERT INTO template_user_runs … ON CONFLICT … DO UPDATE` -/
def recordUser (table : KeyedList UserRuns.key) (flip : Flip) : KeyedList UserRuns.key :=
  let createdAt := flip.row.createdAt
  table.insert <| match table.get? flip.userKey with
    | none => ⟨flip.userKey, 1, createdAt, createdAt⟩
    | some row =>
      ⟨flip.userKey, row.runCount + 1, ⟨min row.firstRun.nanos createdAt.nanos⟩,
        ⟨max row.lastRun.nanos createdAt.nanos⟩⟩

/-! ## Deliveries -/

/-- What follows the commit, in this order. -/
inductive FollowUp where
  | resolveWaiter
  | cleanupNetSubscriptions
  | evaluateNetCompletion
  | onInstanceTerminal
  deriving DecidableEq

/-- What is done after the commit, in order. -/
def followUps : List FollowUp :=
  [.resolveWaiter, .cleanupNetSubscriptions, .evaluateNetCompletion, .onInstanceTerminal]

/-- How far `handle_terminal_event` has come. -/
inductive DeliveryPhase where
  | received
  /-- The transaction has committed, and these steps are to come before the message is acknowledged. -/
  | following (pending : List FollowUp)
  | acknowledged
  /-- There was no running instance, or the database failed: the message was given back, or dropped. -/
  | returned
  deriving DecidableEq

/-- A delivery that is being handled. -/
structure Delivery where
  message : Nat
  content : LifecycleMessage
  delivered : Nat
  phase : DeliveryPhase
  crashed : Bool

/-- The tables and the deliveries of the listener. -/
structure Listener where
  instances : List InstanceRow
  runRollup : KeyedList RunRollup.key
  userRuns : KeyedList UserRuns.key
  messages : List StreamMessage
  deliveries : List Delivery
  /-- The rows that have changed from `running`, in the order of their transactions. -/
  flips : List Flip
  /-- The steps that were performed, and for which net. -/
  performed : List (FollowUp × String)

/-- A step of a delivery, of the broker or of the process. -/
inductive LifecycleAction where
  | deliver (message : Nat)
  /-- The transaction, at the time `now`; where the database fails it is rolled back. -/
  | transact (delivery : Nat) (now : DateTime) (succeeds : Bool)
  | follow (delivery : Nat)
  | acknowledge (delivery : Nat) (arrives : Bool)
  | crash (delivery : Nat)

/-- After so many deliveries an event without an instance is dropped. -/
def maxOrphanEventDeliveries : Nat := 10

/-- The row as the `UPDATE` leaves it. -/
def InstanceRow.terminate (row : InstanceRow) (msg : LifecycleMessage) (now : DateTime) : InstanceRow :=
  { row with
    status := msg.eventType.toInstance
    completedAt := some now
    result := msg.resultEnvelope <|> row.result }

/-- `WHERE net_id = $1 AND status = 'running'` -/
def InstanceRow.matches (row : InstanceRow) (netId : String) : Bool :=
  row.netId = netId && row.status = .running

namespace Listener

def setDelivery (s : Listener) (i : Nat) (d : Delivery) (phase : DeliveryPhase) : Listener :=
  { s with deliveries := s.deliveries.set i { d with phase } }

def ack (s : Listener) (message : Nat) : Listener :=
  { s with messages := s.messages.modify message fun msg => { msg with acked := true } }

/-- The transaction where it finds the row of a running instance. -/
def commit (s : Listener) (row : InstanceRow) (msg : LifecycleMessage) (now : DateTime) : Listener :=
  let flip : Flip := ⟨row.terminate msg now, deriveOutcome msg.eventType msg.resultEnvelope⟩
  { s with
    instances := s.instances.map fun r => if r.matches msg.netId then r.terminate msg now else r
    runRollup := recordRun s.runRollup flip
    userRuns := recordUser s.userRuns flip
    flips := s.flips ++ [flip] }

/-- The steps of the listener, one delivery at a time. -/
def step (s : Listener) : LifecycleAction → Option Listener
  | .deliver j => s.messages[j]?.bind fun msg =>
    if msg.acked then none else
      let delivered := msg.delivered + 1
      some { s with
        messages := s.messages.set j { msg with delivered }
        deliveries := s.deliveries ++ [⟨j, msg.content, delivered, .received, false⟩] }
  | .transact i now succeeds => s.deliveries[i]?.bind fun d =>
    match d.crashed, d.phase with
    | false, .received =>
      if succeeds then
        match s.instances.find? (·.matches d.content.netId) with
        | some row => some ((s.commit row d.content now).setDelivery i d (.following followUps))
        | none =>
          let s' := s.setDelivery i d .returned
          some (if maxOrphanEventDeliveries ≤ d.delivered then s'.ack d.message else s')
      else some (s.setDelivery i d .returned)
    | _, _ => none
  | .follow i => s.deliveries[i]?.bind fun d =>
    match d.crashed, d.phase with
    | false, .following (next :: pending) =>
      some { s.setDelivery i d (.following pending) with
        performed := s.performed ++ [(next, d.content.netId)] }
    | _, _ => none
  | .acknowledge i arrives => s.deliveries[i]?.bind fun d =>
    match d.crashed, d.phase with
    | false, .following [] =>
      let s' := s.setDelivery i d .acknowledged
      some (if arrives then s'.ack d.message else s')
    | _, _ => none
  | .crash i => s.deliveries[i]?.bind fun d =>
    if d.crashed then none else
      some { s with deliveries := s.deliveries.set i { d with crashed := true } }

end Listener

end Lifecycle

end Mekhan

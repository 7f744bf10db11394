import Mekhan.Projections.Framework
import Mekhan.Projections.StepExecutions

/-!
# The step-executions consumer

`service/src/projections/step_executions/consumer.rs`: the rows of the fold go to `step_execution`, and the
buckets of `template_node_rollup` that a batch of rows touches are counted again.

The statements of one batch run one after the other; those of different nets run in any order.
-/

namespace Mekhan

namespace StepExecutions

open Infra Projections

/-! ## The fold behind the driver -/

/-- The tail of the projection; what changed is taken for writing. -/
def State.settle (s : State) (registry : InterfaceRegistry) : State × List StepExecutionRow :=
  (s.closeOpenRows.finalizeUnreached registry).takeDirtyRows

/-- `bootstrap` on the events that a replay returns: the fold, the last sequence and the rows to write. -/
def bootstrap (registry : InterfaceRegistry) (history : List PersistedEvent) :
    NetEntry State × List StepExecutionRow :=
  let (s, lastApplied) := streamEvents history (State.absorb (.build registry)) .new
  let (s, rows) := s.settle registry
  (⟨lastApplied, s⟩, rows)

/-- One event folded into a cached net, and the rows it changed. -/
def apply (registry : InterfaceRegistry) (s : State) (ev : PersistedEvent) :
    NetEntry State × List StepExecutionRow :=
  let (s, rows) := (s.absorb (.build registry) ev).settle registry
  (⟨ev.sequence, s⟩, rows)

/-- The entry that a folded event leaves in the cache. -/
def cached (ev : PersistedEvent) (entry : NetEntry State) : Option (NetEntry State) :=
  if isTerminal ev.event then none else some entry

/-- `step_event`: the entry that an event leaves, and the batches of rows to write. -/
def stepEvent (registry : InterfaceRegistry) (history : List PersistedEvent) (entry : Option (NetEntry State))
    (ev : PersistedEvent) : Option (NetEntry State) × List (List StepExecutionRow) :=
  match entry, classify (entry.map (·.lastApplied)) ev.sequence with
  | some entry, .skipDup => (cached ev entry, [])
  | some entry, .apply =>
    let (entry, rows) := apply registry entry.state ev
    (cached ev entry, [rows])
  | _, _ =>
    let (entry, rows) := bootstrap registry history
    if entry.lastApplied < ev.sequence then
      let (entry, more) := apply registry entry.state ev
      (cached ev entry, [rows, more])
    else (cached ev entry, [rows])

/-! ## The tables -/

/-- A version of a template. -/
structure TemplateVersion where
  id : Uuid
  version : Int
  deriving DecidableEq

/-- Which run of which template a net is. -/
structure InstanceContext where
  instanceId : Uuid
  template : TemplateVersion

/-- A row of `step_execution`. -/
structure StoredRow where
  instanceId : Uuid
  template : TemplateVersion
  row : StepExecutionRow
  deriving DecidableEq

def StoredRow.key (r : StoredRow) : Uuid × String × Nat := (r.instanceId, r.row.key)

/-- A row of `template_node_rollup`. -/
structure Bucket where
  template : TemplateVersion
  nodeId : String
  status : StepStatus
  count : Nat
  durationMsSum : Int

/-- A bucket for each node and status of a template's version. -/
def Bucket.key (b : Bucket) : TemplateVersion × String × StepStatus := (b.template, b.nodeId, b.status)

/-- The table of rows and the table of their counts. -/
structure Db where
  stepExecution : KeyedList StoredRow.key
  nodeRollup : KeyedList Bucket.key

/-- The statuses that are counted. -/
def StepStatus.isTerminal : StepStatus → Bool
  | .completed | .failed | .skipped => true
  | .pending | .running => false

namespace Db

def empty : Db := ⟨.empty, .empty⟩

/-- The row that the `INSERT` of `upsert_rows` leaves: a new one, or the old one with what is new. -/
def upserted (ctx : InstanceContext) (old : Option StoredRow) (row : StepExecutionRow) : StoredRow :=
  match old with
  | none => ⟨ctx.instanceId, ctx.template, row⟩
  | some r => { r with row := { row with nodeKind := r.row.nodeKind } }

/-- The row that is there is newer than the one to write. -/
def isStale (old : Option StoredRow) (row : StepExecutionRow) : Bool :=
  match old with
  | none => false
  | some r => decide (row.lastSequence < r.row.lastSequence)

/-- The `INSERT` of `upsert_rows`. -/
def upsertRow (db : Db) (ctx : InstanceContext) (row : StepExecutionRow) : Db :=
  let old := db.stepExecution.get? (ctx.instanceId, row.key)
  if isStale old row then db else { db with stepExecution := db.stepExecution.insert (upserted ctx old row) }

/-- Whether a row is counted in the bucket. -/
def inBucket (template : TemplateVersion) (nodeId : String) (status : StepStatus) (r : StoredRow) : Bool :=
  r.template = template && r.row.nodeId = nodeId && r.row.status = status

/-- A row's part of `duration_ms_sum`; `durationMs` is the milliseconds between two times as the database
rounds them. -/
def durationOf (durationMs : DateTime → DateTime → Int) (r : StoredRow) : Int :=
  match r.row.startedAt, r.row.completedAt with
  | some started, some completed => durationMs started completed
  | _, _ => 0

/-- The `SELECT` of `refresh_node_rollup`: count and duration sum. -/
def aggregate (durationMs : DateTime → DateTime → Int) (db : Db) (template : TemplateVersion) (nodeId : String)
    (status : StepStatus) : Nat × Int :=
  let rows := db.stepExecution.toList.filter (inBucket template nodeId status)
  (rows.length, (rows.map (durationOf durationMs)).sum)

/-- The bucket counted afresh from the rows. -/
def counted (durationMs : DateTime → DateTime → Int) (db : Db) (template : TemplateVersion) (nodeId : String)
    (status : StepStatus) : Bucket where
  template := template
  nodeId := nodeId
  status := status
  count := (db.aggregate durationMs template nodeId status).1
  durationMsSum := (db.aggregate durationMs template nodeId status).2

/-- The `INSERT` of `refresh_node_rollup`. -/
def refreshBucket (durationMs : DateTime → DateTime → Int) (db : Db) (template : TemplateVersion) (nodeId : String)
    (status : StepStatus) : Db :=
  { db with nodeRollup := db.nodeRollup.insert (db.counted durationMs template nodeId status) }

/-- What the rollup has for a node and a status. -/
def bucketValue (db : Db) (template : TemplateVersion) (nodeId : String) (status : StepStatus) : Nat × Int :=
  match db.nodeRollup.get? (template, nodeId, status) with
  | some b => (b.count, b.durationMsSum)
  | none => (0, 0)

/-- The rollup is the aggregate of the rows: every bucket, and every terminal status of a node. -/
structure RollupExact (durationMs : DateTime → DateTime → Int) (db : Db) (template : TemplateVersion) : Prop where
  buckets : ∀ b ∈ db.nodeRollup.toList,
    b.template = template → (b.count, b.durationMsSum) = db.aggregate durationMs template b.nodeId b.status
  nodes : ∀ nodeId status, status.isTerminal →
    db.bucketValue template nodeId status = db.aggregate durationMs template nodeId status

end Db

/-! ## The statements of the nets -/

/-- The statements of one `upsert_rows` that have not run. -/
structure Batch where
  upserts : List StepExecutionRow
  touched : List (String × StepStatus)
  covers : ∀ r ∈ upserts, r.status.isTerminal → (r.nodeId, r.status) ∈ touched
  terminal : ∀ b ∈ touched, b.2.isTerminal

/-- `refresh_node_rollup`: the distinct terminal pairs of a batch. -/
def touchedBy (rows : List StepExecutionRow) : List (String × StepStatus) :=
  ((rows.filter (·.status.isTerminal)).map fun r => (r.nodeId, r.status)).dedup

/-- A bucket is touched by the rows that end in it. -/
theorem mem_touchedBy {rows : List StepExecutionRow} {b : String × StepStatus} :
    b ∈ touchedBy rows ↔ ∃ r ∈ rows, r.status.isTerminal ∧ (r.nodeId, r.status) = b := by
  simp [touchedBy, and_assoc]

namespace Batch

/-- Every bucket that one of the rows ends in is touched. -/
def ofRows (rows : List StepExecutionRow) : Batch where
  upserts := rows
  touched := touchedBy rows
  covers r hr hterm := mem_touchedBy.mpr ⟨r, hr, hterm, rfl⟩
  terminal b hb := by
    obtain ⟨r, -, hterm, rfl⟩ := mem_touchedBy.mp hb
    exact hterm

/-- The batch after one of its rows is written. -/
def afterUpsert (batch : Batch) (row : StepExecutionRow) : Batch where
  upserts := batch.upserts.erase row
  touched := batch.touched
  covers r hr := batch.covers r (List.mem_of_mem_erase hr)
  terminal := batch.terminal

/-- The batch, all of whose rows are written, after one of its buckets is counted. -/
def afterRefresh (batch : Batch) (b : String × StepStatus) : Batch where
  upserts := []
  touched := batch.touched.erase b
  covers _ hr := absurd hr List.not_mem_nil
  terminal c hc := batch.terminal c (List.mem_of_mem_erase hc)

end Batch

/-- The nets of one template version, each with its instance, its interfaces and its event log. -/
structure Fleet where
  template : TemplateVersion
  instanceId : String → Uuid
  registry : String → InterfaceRegistry
  log : String → List PersistedEvent
  durationMs : DateTime → DateTime → Int

def Fleet.ctx (fleet : Fleet) (net : String) : InstanceContext := ⟨fleet.instanceId net, fleet.template⟩

/-- The cached fold of a net, and what it has still to write. -/
structure NetProcess where
  entry : Option (NetEntry State)
  pending : List Batch

/-- The nets' processes over one database. -/
structure System where
  db : Db
  nets : String → NetProcess

def System.start : System := ⟨.empty, fun _ => ⟨none, []⟩⟩

/-- A step of the driver or of one of its writes. -/
inductive Action where
  /-- The driver hands the net one of its events; a replay returns that many events of its log. -/
  | message (net : String) (ev : PersistedEvent) (history : Nat)
  | upsert (net : String) (row : StepExecutionRow)
  /-- All rows are written, and a bucket is counted. -/
  | refresh (net : String) (nodeId : String) (status : StepStatus)
  | batchDone (net : String)
  | evict (net : String)

namespace System

def setNet (s : System) (net : String) (p : NetProcess) : System := { s with nets := Function.update s.nets net p }

def step (fleet : Fleet) (s : System) : Action → Option System
  | .message net ev history =>
    if (s.nets net).pending.isEmpty && decide (ev ∈ fleet.log net) then
      let (entry, batches) :=
        stepEvent (fleet.registry net) ((fleet.log net).take history) (s.nets net).entry ev
      some (s.setNet net ⟨entry, batches.map Batch.ofRows⟩)
    else none
  | .upsert net row =>
    match (s.nets net).pending with
    | batch :: batches =>
      if row ∈ batch.upserts then
        some { s.setNet net ⟨(s.nets net).entry, batch.afterUpsert row :: batches⟩ with
          db := s.db.upsertRow (fleet.ctx net) row }
      else none
    | [] => none
  | .refresh net nodeId status =>
    match (s.nets net).pending with
    | batch :: batches =>
      if batch.upserts.isEmpty && decide ((nodeId, status) ∈ batch.touched) then
        some { s.setNet net ⟨(s.nets net).entry, batch.afterRefresh (nodeId, status) :: batches⟩ with
          db := s.db.refreshBucket fleet.durationMs fleet.template nodeId status }
      else none
    | [] => none
  | .batchDone net =>
    match (s.nets net).pending with
    | batch :: batches =>
      if batch.upserts.isEmpty && batch.touched.isEmpty then some (s.setNet net ⟨(s.nets net).entry, batches⟩)
      else none
    | [] => none
  | .evict net => some (s.setNet net ⟨none, (s.nets net).pending⟩)

/-- Nothing is left to write. -/
def Settled (s : System) : Prop := ∀ net, (s.nets net).pending = []

end System

end StepExecutions

end Mekhan

/-!
## Ingest of step executions

The driver of `service/src/projections/framework.rs` on one net, with the step-executions consumer behind it: the
log grows, its events are delivered and delivered again, the cached fold is lost, and a processing fails between
two of the rows that it writes. A replay returns the log that is written so far.
-/

namespace Mekhan

namespace StepExecutions

open Infra Projections

/-- The subjects that the consumer filters for. -/
def isDelivered : DomainEvent → Bool
  | .tokenCreated .. | .transitionFired .. | .effectCompleted .. | .effectFailed .. => true
  | .netInitialized .. | .netCreated .. | .netCompleted .. | .netCancelled .. | .netFailed .. => true
  | _ => false

/-- A net's log, the driver's entry for it, and the table. -/
structure Ingest where
  log : List PersistedEvent
  /-- How far into the log the stream has delivered. -/
  delivered : Nat
  entry : Option (NetEntry State)
  db : Db
  acked : List PersistedEvent

/-- A step of the stream that the ingest reads. -/
inductive IngestAction where
  | write (ev : PersistedEvent)
  /-- The event at a position of the log is delivered. Processing it fails after some of the rows are written, or
  does not fail; then it is acknowledged, unless the acknowledgement is lost. -/
  | deliver (position : Nat) (failsAfter : Option Nat) (acks : Bool)
  /-- The cache loses the net, or starts empty after a restart. -/
  | evict

namespace Ingest

def start : Ingest := ⟨[], 0, none, .empty, []⟩

section

-- the rows of a batch are written in the order of their keys: `order` is any order
variable (registry : InterfaceRegistry) (ctx : InstanceContext)
  (order : List StepExecutionRow → List StepExecutionRow)

/-- `step_event`, with its statements. A failure drops the entry. -/
def process (s : Ingest) (ev : PersistedEvent) (failsAfter : Option Nat) (acks : Bool) : Ingest :=
  let (entry, batches) := stepEvent registry s.log s.entry ev
  let rows := batches.flatMap order
  match failsAfter with
  | none =>
    { s with
      entry := entry
      db := rows.foldl (Db.upsertRow · ctx ·) s.db
      acked := if acks then ev :: s.acked else s.acked }
  | some n => { s with entry := none, db := (rows.take n).foldl (Db.upsertRow · ctx ·) s.db }

/-- The stream delivers the events of its subjects in order; one that it delivered it may deliver again. -/
def step (s : Ingest) : IngestAction → Option Ingest
  | .write ev => if ∀ e ∈ s.log, e.sequence < ev.sequence then some { s with log := s.log ++ [ev] } else none
  | .deliver position failsAfter acks =>
    match s.log[position]? with
    | none => none
    | some ev =>
      if isDelivered ev.event ∧ ∀ e ∈ (s.log.take position).drop s.delivered, ¬ isDelivered e.event then
        some { s.process registry ctx order ev failsAfter acks with delivered := max s.delivered (position + 1) }
      else none
  | .evict => some { s with entry := none }

/-- The rows of the table are those of the whole log. -/
def Complete (s : Ingest) : Prop :=
  s.db.stepExecution.toList.Perm
    ((projectStepExecutions s.log registry).map fun row => ⟨ctx.instanceId, ctx.template, row⟩)

end

end Ingest

end StepExecutions

end Mekhan

import Mekhan.Causality.Tables
import Mekhan.Infra.WhiteSpace
import Mathlib.Data.List.MinMax

/-!
# The ingest of the causality projections

`service/src/causality/ingest.rs`: what becomes of a message of the event stream. A message is
acknowledged when its program came to its end; until then it is delivered again.

Every call of the database is a statement; a transaction is one. What the code reads from tables it
does not write, and what it reads off a JSON value with a derived reader, enters through `Reading`. Left
out are the broadcasts to live subscribers, the triggers and the signals of catalogue subscriptions.
-/

namespace Mekhan

namespace Causality

open Infra Program

/-! ## What is read from outside -/

inductive PhaseStatus where
  | pending
  | running
  | completed
  | failed
  | skipped
  deriving DecidableEq

/-- A phase of a process, kept in its configuration. -/
structure Phase where
  name : String
  status : PhaseStatus
  message : Option String
  startedAt : Option DateTime
  endedAt : Option DateTime

/-- What a process reports of itself. -/
structure Progress where
  fraction : F64
  message : Option String
  currentStep : Nat
  totalSteps : Nat
  phases : List Phase
  updatedAt : DateTime

/-- The variants of `StatusDetail` that are projected. -/
inductive StatusDetail where
  | phaseChanged (phaseName : String) (status : PhaseStatus) (message : Option String)
  | progressUpdated (fraction : F64) (message : Option String) (currentStep totalSteps : Nat)
  | other

/-- `CatalogueRegisterCommand`, without what only the entry itself keeps. -/
structure RegisterCommand where
  executionId : String
  artifactId : String
  storagePath : Option String
  fileMetadata : Option Json
  processStep : Option String
  contentHash : Option String
  byReference : Bool
  fileServerId : Option String
  referencePath : Option String

/-- What reads and writes the texts inside JSON: times, ids, typed payloads. -/
structure Reading where
  parseUuid : String → Option Uuid
  parseTime : String → Option DateTime
  timeText : DateTime → Json
  statusDetail : Json → Option StatusDetail
  progress : Json → Option Progress
  progressText : Progress → Json
  registerCommand : Json → Option RegisterCommand
  templateWorkspace : Uuid → Option Uuid
  resourceWorkspace : Uuid → Option Uuid
  /-- The template that a SubWorkflow node of a template runs. -/
  childTemplate : Uuid → String → Option Uuid
  /-- The id that a row for a child net gets. -/
  instanceId : String → Uuid
  /-- The signal keys of the subscriptions that an entry matches. -/
  matched : CatalogueEntry → List String

def Reading.plain : Reading where
  parseUuid _ := none
  parseTime _ := none
  timeText _ := .null
  statusDetail _ := none
  progress _ := none
  progressText _ := .null
  registerCommand _ := none
  templateWorkspace _ := none
  resourceWorkspace _ := none
  childTemplate _ _ := none
  instanceId _ := 0
  matched _ := []

/-! ## Values -/

/-- `token_color_to_json` -/
def colorJson : TokenColor → Json
  | .unit => .null
  | .integer n => .num (.ofInt n)
  | .data v => v

def strAt (v : Json) (key : String) : Option String := (v.get? key).bind Json.asStr?

/-- A text of white space alone counts as none. -/
def trimmedEmpty (s : String) : Bool := (trim s.toList).isEmpty

/-- `extract_task_status_from_token` -/
def extractTaskStatus : TokenColor → String
  | .data v => (strAt v "status").getD "completed"
  | _ => "completed"

/-- `splitn(4, ':')` -/
def splitSignalKey (key : List Char) : Nat → List (List Char)
  | 0 => [key]
  | n + 1 =>
    match key.dropWhile (· ≠ ':') with
    | [] => [key]
    | _ :: rest => key.takeWhile (· ≠ ':') :: splitSignalKey rest n

/-- The execution and the artifact that a subscription's signal key names. -/
def subscriptionArtifact (signalKey : String) : Option (String × String) :=
  if startsWith signalKey "cat-sub:" then
    match splitSignalKey signalKey.toList 3 with
    | [_, _, exec, art] => some (String.ofList exec, String.ofList art)
    | _ => none
  else none

/-- Nets that serve other nets have no process of their own. -/
def isInfrastructureNet (netId : String) : Bool :=
  startsWith netId "pool-" || startsWith netId "staging-" || startsWith netId "materialize-"

/-- A handler reports one record or several. -/
def telemetryRecords : Json → List Json
  | .arr records => records
  | record => [record]

/-- `jsonb_set` at a key of the object; other values have no such key. -/
def jsonbSet (config : Json) (key : String) (value : Json) : Option Json :=
  match config with
  | .obj entries => some (.obj (put entries (key, value)))
  | _ => none

section

variable (rd : Reading)

/-- A record without a time has the event's. -/
def recordTs (record : Json) (fallback : DateTime) : DateTime :=
  ((strAt record "ts").bind rd.parseTime).getD fallback

/-! ## Progress -/

def emptyProgress (ts : DateTime) : Progress := ⟨⟨0⟩, none, 0, 0, [], ts⟩

/-- A process that has reported nothing starts from an empty progress. -/
def loadProgress (processId : TokenId) (ts : DateTime) : Ingest Progress :=
  select fun db => (((db.process? processId).bind fun p => p.config.get? "progress").bind
    rd.progress).getD (emptyProgress ts)

/-- Updates the row of a process; the statement is refused if the new row is. -/
def updateProcess (processId : TokenId) (update : Process → Option Process) : Ingest Unit :=
  tryWrite fun db => (db.processes.mapM fun p => if p.processId = processId then update p else some p).map
    fun processes => { db with processes }

/-- Writes below one key of the configuration and leaves the rest. -/
def writeProgress (processId : TokenId) (progress : Progress) (ts : DateTime) : Ingest Unit :=
  updateProcess processId fun p =>
    (jsonbSet p.config "progress" (rd.progressText progress)).map fun config =>
      { p with config, updatedAt := ts }

def PhaseStatus.isTerminal : PhaseStatus → Bool
  | .completed | .failed | .skipped => true
  | _ => false

/-- A phase that is not known yet is appended. -/
def changePhase (name : String) (status : PhaseStatus) (message : Option String) (ts : DateTime)
    (phases : List Phase) : List Phase :=
  if phases.any (·.name = name) then
    let change (ph : Phase) : Phase :=
      { ph with
        status
        message := message.or ph.message
        startedAt := if status = .running ∧ ph.startedAt = none then some ts else ph.startedAt
        endedAt := if status.isTerminal then some ts else ph.endedAt }
    -- The first phase of that name.
    let before := phases.takeWhile (·.name ≠ name)
    let rest := phases.dropWhile (·.name ≠ name)
    before ++ (rest.take 1).map change ++ rest.drop 1
  else
    phases ++ [⟨name, status, message, if status = .running then some ts else none,
      if status.isTerminal then some ts else none⟩]

/-- A phase without a name is ignored. -/
def recordPhaseEvent (processIds : List TokenId) (phaseName : String) (status : PhaseStatus)
    (message : Option String) (ts : DateTime) : Ingest Unit :=
  if phaseName = "" then pure ()
  else processIds.forM fun pid => do
    let progress ← loadProgress rd pid ts
    writeProgress rd pid { progress with
      phases := changePhase phaseName status message ts progress.phases
      updatedAt := ts } ts

/-- The phases stay as they are. -/
def recordProgressEvent (processIds : List TokenId) (fraction : F64) (message : Option String)
    (currentStep totalSteps : Nat) (ts : DateTime) : Ingest Unit :=
  processIds.forM fun pid => do
    let progress ← loadProgress rd pid ts
    writeProgress rd pid { progress with
      fraction
      message := message.or progress.message
      currentStep
      totalSteps
      updatedAt := ts } ts

/-- What still runs ends with the process. -/
def closeRunningPhases (processId : TokenId) (finalStatus : PhaseStatus) (ts : DateTime) :
    Ingest Unit := do
  let progress ← loadProgress rd processId ts
  if progress.phases.any (·.status = .running) then
    writeProgress rd processId { progress with
      phases := progress.phases.map fun ph =>
        if ph.status = .running then { ph with status := finalStatus, endedAt := some ts } else ph
      updatedAt := ts } ts
  else pure ()

/-! ## Projectors -/

/-- The effect that a projector is called for. -/
structure ProjectorCtx where
  netId : String
  workspaceId : Uuid
  seq : Nat
  transitionId : String
  consumedIds : List TokenId
  readIds : List TokenId
  effectResult : Json
  processStep : Option String
  ts : DateTime

variable (ctx : ProjectorCtx)

/-- The processes the effect belongs to. -/
def resolved : Ingest (List TokenId) := resolveProcessIds ctx.netId ctx.consumedIds ctx.readIds

/-- The config of a `process_start` effect. -/
def startConfig (effectResult : Json) : Option Json :=
  (effectResult.get? "config").or <|
    let entry (key : String) : List (String × Json) :=
      ((effectResult.get? key).map fun v => (key, v)).toList
    match entry "description" ++ entry "namespace" with
    | [] => none
    | entries => some (.obj entries)

/-- `enrich_processes_from_start_event` -/
def enrichProcesses : Ingest Unit := do
  let name := strAt ctx.effectResult "name"
  let config := startConfig ctx.effectResult
  let processIds ← resolved ctx
  processIds.forM fun pid => updateProcess pid fun p =>
    some { p with name := name.or p.name, config := config.getD p.config, updatedAt := ctx.ts }

/-- Every process of the effect is completed, and its running phases with it. -/
def completeProcesses : Ingest Unit := do
  let processIds ← resolved ctx
  processIds.forM fun pid => do
    updateProcess pid fun p => some { p with status := "completed", updatedAt := ctx.ts }
    closeRunningPhases rd pid .completed ctx.ts

/-- As completion, with the reason kept in the configuration. -/
def failProcesses : Ingest Unit := do
  let processIds ← resolved ctx
  let reason := (strAt ctx.effectResult "reason").getD ""
  let failure : Json := .obj [("message", .str reason), ("failed_at", rd.timeText ctx.ts)]
  processIds.forM fun pid => updateProcess pid fun p =>
    (jsonbSet p.config "failure" failure).map fun config =>
      { p with status := "failed", config, updatedAt := ctx.ts }

def projectPhases : Ingest Unit := do
  let changes := (telemetryRecords ctx.effectResult).filterMap fun r =>
    match rd.statusDetail r with
    | some (.phaseChanged name status message) => some (name, status, message)
    | _ => none
  if changes = [] then pure ()
  else
    let processIds ← resolved ctx
    if processIds = [] then pure ()
    else changes.forM fun c => recordPhaseEvent rd processIds c.1 c.2.1 c.2.2 ctx.ts

def projectProgress : Ingest Unit := do
  let updates := (telemetryRecords ctx.effectResult).filterMap fun r =>
    match rd.statusDetail r with
    | some (.progressUpdated fraction message current total) => some (fraction, message, current, total)
    | _ => none
  if updates = [] then pure ()
  else
    let processIds ← resolved ctx
    if processIds = [] then pure ()
    else updates.forM fun u => recordProgressEvent rd processIds u.1 u.2.1 u.2.2.1 u.2.2.2 ctx.ts

/-- The signal that injected one of the consumed tokens. -/
def resolveSignalKey (consumedIds : List TokenId) : Ingest (Option String) :=
  if consumedIds = [] then pure none
  else select fun db => (db.eventTokens.filter fun et => et.tokenId ∈ consumedIds && et.role = .produced)
    |>.findSome? fun et => (db.lineage.find? fun sl =>
      sl.ingressNet = et.netId && sl.ingressSeq = et.eventSeq).map SignalLineage.signalKey

/-- The points of a batch of metrics; a record without a key is no point. -/
def metricPoints (records : List Json) (ts : DateTime) : List (String × F64 × DateTime) :=
  records.filterMap fun r =>
    let key := (strAt r "key").getD ""
    if key = "" then none
    else
      let value : F64 := match r.get? "value" with
        | some (.num n) => n.asF64
        | _ => ⟨0⟩
      some (key, value, recordTs rd r ts)

/-- One row for each process and point. -/
def recordMetricEvents : Ingest Unit := do
  let points := metricPoints rd (telemetryRecords ctx.effectResult) ctx.ts
  if points = [] then pure ()
  else
    let processIds ← resolved ctx
    if processIds = [] then pure ()
    else
      let signalKey ← resolveSignalKey ctx.consumedIds
      processIds.forM fun pid => points.forM fun point => write fun db => { db with
        metrics := db.metrics ++ [⟨pid, point.1, point.2.1, point.2.2, signalKey⟩] }

/-- The row of a log record, for a process. -/
def logLine (record : Json) (ts : DateTime) (signalKey : Option String) (pid : TokenId) : Log where
  processId := pid
  level := (strAt record "level").getD "info"
  source := strAt record "source"
  message := (strAt record "message").getD ""
  detail := (record.get? "detail").getD (.obj [])
  timestamp := recordTs rd record ts
  signalKey := signalKey

/-- One row for each process and record. -/
def recordLogEvents : Ingest Unit := do
  let records := telemetryRecords ctx.effectResult
  if records = [] then pure ()
  else
    let processIds ← resolved ctx
    if processIds = [] then pure ()
    else
      let signalKey ← resolveSignalKey ctx.consumedIds
      processIds.forM fun pid => records.forM fun r => write fun db => { db with
        logs := db.logs ++ [logLine rd r ctx.ts signalKey pid] }

def Database.netWorkspace? (db : Database) (netId : String) : Option Uuid :=
  (db.instances.find? (·.netId = netId)).bind fun i => rd.templateWorkspace i.templateId

/-- A net without an instance belongs to no workspace. -/
def resolveNetWorkspace (netId : String) : Ingest Uuid :=
  select fun db => (db.netWorkspace? rd netId).getD 0

/-- The workspace of a process, by its instance. -/
def Database.processWorkspace? (db : Database) (processId : TokenId) : Option Uuid := do
  let p ← db.process? processId
  let id ← p.instanceId
  let i ← db.instances.find? (·.id = id)
  rd.templateWorkspace i.templateId

/-- Inserts a task; its process has to be there. -/
def Database.insertTask (db : Database) (task : Task) (onConflict : Task → Task) : Option Database :=
  if db.tasks.any (·.id = task.id) then
    some { db with tasks := updateWhere (·.id = task.id) onConflict db.tasks }
  else if (db.process? task.processId).isSome then some { db with tasks := db.tasks ++ [task] }
  else none

/-- The effect's result is a task of the first of its processes. -/
def recordTaskEvent : Ingest Unit := do
  match strAt ctx.effectResult "task_id" with
  | none => pure ()
  | some taskId =>
    let title := (strAt ctx.effectResult "title").getD "Untitled Task"
    let processIds ← resolved ctx
    match processIds.head? with
    | none => pure ()
    | some processId =>
      let workspaceId ← select fun db => db.processWorkspace? rd processId
      let task : Task := ⟨taskId, workspaceId, processId, title, "pending", none, ctx.effectResult,
        ctx.ts, none, none⟩
      tryWrite fun db => db.insertTask task fun t => { t with detail := ctx.effectResult }

/-- Where an artifact's bytes are, with the hash of its content. -/
def coupling (cmd : RegisterCommand) : Option String :=
  let usable (s : Option String) : Option String := s.filter fun v => !trimmedEmpty v
  let digest := (cmd.fileMetadata.bind fun m => (m.get? "checksum").bind fun c => strAt c "digest")
  let contentHash := (usable cmd.contentHash).or (usable digest)
  if cmd.byReference then
    if (usable cmd.fileServerId).isSome && (usable cmd.referencePath).isSome then contentHash else none
  else if (usable cmd.storagePath).isSome then contentHash else none

/-- The place where a token was produced last. -/
def sourcePlace : Option TokenId → Ingest (Option String)
  | none => pure none
  | some tokenId => select fun db => ((db.eventTokens.filter fun et =>
      et.tokenId = tokenId && et.role = .produced).argmax (·.eventSeq)).bind (·.placeName)

/-- One content is catalogued once for each workspace. -/
def CatalogueEntry.sameContent (entry e : CatalogueEntry) : Bool :=
  e.workspaceId = entry.workspaceId && e.contentHash = entry.contentHash

/-- The transaction says whether the content is new. The unique constraints on `nats_msg_id` and on
`(execution_id, id)` are left out: they make the INSERT fail where one execution registers an artifact id again
with other content. -/
def commitEntry (entry : CatalogueEntry) : Ingest Unit := do
  let newlyCatalogued ← statement
    (fun db => some { db with catalogue := insertNew entry.sameContent entry db.catalogue })
    fun db => pure (!db.catalogue.any entry.sameContent)
  if newlyCatalogued then
    (rd.matched entry).forM fun key => linkEgress key ctx.netId ctx.seq "catalogue_subscription"
  else pure ()

def Database.createdBy? (db : Database) (netId : String) : Option Uuid :=
  (db.instances.find? (·.netId = netId)).map WorkflowInstance.createdBy

/-- A result that is no registration is ignored. -/
def registerCatalogueEntry : Ingest Unit := do
  match rd.registerCommand ctx.effectResult with
  | none => pure ()
  | some cmd =>
    let processIds ← resolved ctx
    let sourcePlace ← sourcePlace ctx.consumedIds.head?
    match coupling cmd with
    | none => pure ()
    | some contentHash =>
      let createdBy ← select fun db => db.createdBy? ctx.netId
      commitEntry rd ctx ⟨ctx.workspaceId, contentHash, cmd.artifactId, cmd.executionId, ctx.netId,
        sourcePlace, processIds.head?, ctx.processStep.or cmd.processStep, ctx.seq, createdBy⟩

/-- The node's id between the transition's affixes. -/
def parseSpawnNodeId (transitionId : String) : Option String :=
  let chars := transitionId.toList
  if "t_".toList.isPrefixOf chars ∧ "_spawn".toList.isSuffixOf (chars.drop 2) then
    let id := (chars.drop 2).take (chars.length - 8)
    if id = [] then none else some (String.ofList id)
  else none

/-- The child runs the template that the spawning node names. -/
def registerSubworkflowChild (parentNetId parentNodeId childNetId : String) : Ingest Unit := do
  let parent ← select fun db => db.instances.find? (·.netId = parentNetId)
  match parent with
  | none => pure ()
  | some parent =>
    -- The graph of the parent's template, then the template that its node names.
    let child ← select fun _ => rd.childTemplate parent.templateId parentNodeId
    match child with
    | none => pure ()
    | some childTemplateId =>
      let row : WorkflowInstance := ⟨rd.instanceId childNetId, childNetId, childTemplateId,
        parent.createdBy, some parent.id, some (parent.rootInstanceId.getD parent.id)⟩
      write fun db => { db with instances := insertNew (·.netId = childNetId) row db.instances }

/-- Only an effect that names the child spawned one. -/
def spawnNet : Ingest Unit :=
  match strAt ctx.effectResult "child_net_id" with
  | none => pure ()
  | some childNetId =>
    match parseSpawnNodeId ctx.transitionId with
    | none => pure ()
    | some parentNodeId => registerSubworkflowChild rd ctx.netId parentNodeId childNetId

/-- The handlers whose results are projected. -/
inductive Projector where
  | processStart
  | processComplete
  | processFail
  | processPhase
  | processProgress
  | processLogMetric
  | processLogMessage
  | humanTask
  | catalogueRegister
  | spawnNet
  deriving DecidableEq

def Projector.project : Projector → Ingest Unit
  | processStart => enrichProcesses ctx
  | processComplete => completeProcesses rd ctx
  | processFail => failProcesses rd ctx
  | processPhase => projectPhases rd ctx
  | processProgress => projectProgress rd ctx
  | processLogMetric => recordMetricEvents rd ctx
  | processLogMessage => recordLogEvents rd ctx
  | humanTask => recordTaskEvent rd ctx
  | catalogueRegister => registerCatalogueEntry rd ctx
  | spawnNet => Causality.spawnNet rd ctx

/-- The handler's projector, if it has one. -/
def projectorFor (effectHandlerId : String) : Option Projector :=
  [("process_start", Projector.processStart), ("process_complete", .processComplete),
    ("process_fail", .processFail), ("process_phase", .processPhase),
    ("process_progress", .processProgress), ("process_log_metric", .processLogMetric),
    ("process_log_message", .processLogMessage), ("human_task", .humanTask),
    ("catalogue_register", .catalogueRegister), ("spawn_net", .spawnNet)].lookup effectHandlerId

/-! ## Offers and holds -/

/-- The detail of an offered task: what is requested, and the pool it is offered by. -/
def offerDetail (netId : String) (capacityId : Option String) (request : Json) : Json :=
  let fields := match request with
    | .obj entries => entries
    | _ => []
  let fields := put fields ("pool_net_id", .str netId)
  .obj (capacityId.elim fields fun id => put fields ("capacity_id", .str id))

def resolveCapacityWorkspace : Option Uuid → Ingest (Option Uuid)
  | none => pure none
  | some capacityId => select fun _ => rd.resourceWorkspace capacityId

/-- `project_pool_task_state` for a token in `offers`. -/
def projectOffer (netId : String) (tokenId : TokenId) (tokenData : Json) (ts : DateTime) : Ingest Unit :=
  match strAt tokenData "grant_id" with
  | none => pure ()
  | some grantId => do
    let request := (tokenData.get? "request").getD .null
    let title := (strAt request "title").getD "Untitled Task"
    let capacityText := String.ofList (netId.toList.drop "pool-".length)
    let capacityId := if startsWith netId "pool-" then rd.parseUuid capacityText else none
    let detail := offerDetail netId (capacityId.map fun _ => capacityText) request
    let workspaceId ← resolveCapacityWorkspace rd capacityId
    let processIds ← resolveProcessIds netId [tokenId] []
    match processIds.head? with
    | none => pure ()
    | some processId =>
      let task : Task := ⟨grantId, workspaceId, processId, title, "offered", none, detail, ts, none, none⟩
      tryWrite fun db => db.insertTask task id

/-- `project_pool_task_state` for a token in `in_use`. -/
def projectHold (tokenData : Json) (ts : DateTime) : Ingest Unit :=
  match strAt tokenData "grant_id" with
  | none => pure ()
  | some grantId => write fun db => { db with
      tasks := updateWhere (fun t => t.id = grantId && t.status = "offered")
        (fun t => { t with
          status := "claimed"
          assignee := strAt tokenData "runner_id"
          claimedAt := some ts }) db.tasks }

/-- The places of a pool that stand for a task's state. -/
def projectPoolTaskState (netId : String) (placeName : Option String) (tokenId : TokenId)
    (tokenData : Json) (ts : DateTime) : Ingest Unit :=
  match placeName with
  | some "offers" => projectOffer rd netId tokenId tokenData ts
  | some "in_use" => projectHold tokenData ts
  | _ => pure ()

/-! ## Events -/

/-- The tokens that an event consumed, produced and read. -/
def insertEventTokens (netId : String) (seq : Nat) (consumed : List (PlaceId × TokenId))
    (produced read : List (PlaceId × Token)) : Ingest Unit := do
  consumed.forM fun t => insertEventToken netId seq t.2 .consumed t.1.name none none
  produced.forM fun t =>
    insertEventToken netId seq t.2.id .produced t.1.name none (some (colorJson t.2.color))
  read.forM fun t => insertEventToken netId seq t.2.id .read t.1.name none (some (colorJson t.2.color))

def tokenIds (tokens : List (PlaceId × Token)) : List TokenId := tokens.map fun t => t.2.id

/-- A token that a signal brought: its tags come from the event that sent the signal. A pool sends tags
to the net that the process is home in, and to no other. -/
def inheritTags (netId signalKey : String) (tokenId : TokenId) : Ingest Unit :=
  write fun db => db.tag tokenId <|
    (db.crossLinks.filter (·.signalKey = signalKey)).flatMap fun cl =>
      let senders := (db.eventTokens.filter fun et =>
        some et.netId = cl.egressNet && some et.eventSeq = cl.egressSeq).map EventTokenRow.tokenId
      let fromPool := cl.egressNet.any fun net => startsWith net "pool-"
      (senders.flatMap fun t => db.tagsOf [t]).filter fun p =>
        !fromPool || db.processes.any fun hp =>
          hp.processId = p && (hp.netId = some netId || hp.netId = none)

/-- Without a link, that of a subscription's signal that was sent outside the ingest. -/
def backfillLink (linked : Bool) (netId signalKey : String) (seq : Nat) : Ingest Unit :=
  match (if linked then none else subscriptionArtifact signalKey) with
  | none => pure ()
  | some (execId, artId) => write fun db =>
    match db.catalogue.find? fun ce => ce.executionId = execId && ce.id = artId with
    | none => db
    | some ce => { db with
        crossLinks := upsert (·.signalKey = signalKey)
          (fun r => { r with ingressNet := some netId, ingressSeq := some seq })
          ⟨signalKey, some ce.sourceNet, some ce.sourceEventSequence, some netId, some seq,
            "catalogue_subscription"⟩ db.crossLinks }

/-- A task whose id is the signal's key has its result. -/
def completeTask (signalKey status : String) (ts : DateTime) : Ingest Unit :=
  write fun db => { db with
    tasks := updateWhere
      (fun t => t.id = signalKey && (t.status = "pending" || t.status = "offered" || t.status = "claimed"))
      (fun t => { t with status, completedAt := some ts }) db.tasks }

/-- The ingress side of a cross-link, if there is one. -/
def linkIngress (netId signalKey : String) (seq : Nat) : Ingest Bool :=
  statement
    (fun db => some { db with
      crossLinks := updateWhere (·.signalKey = signalKey)
        (fun r => { r with ingressNet := some netId, ingressSeq := some seq }) db.crossLinks })
    fun db => pure (db.crossLinks.any (·.signalKey = signalKey))

def insertLineage (netId signalKey : String) (seq : Nat) : Ingest Unit :=
  write fun db =>
    match db.dispatches.find? fun sd =>
        sd.signalKey = signalKey && !(sd.dispatchNet = netId && sd.dispatchSeq = seq) with
    | none => db
    | some sd => { db with
        lineage := insertNew (fun r => r.ingressNet = netId && r.ingressSeq = seq)
          ⟨netId, seq, sd.dispatchNet, sd.dispatchSeq, sd.signalKey⟩ db.lineage }

/-- A token that a signal brought: its lineage, then the tags of its sender. -/
def signalledToken (netId : String) (seq : Nat) (ts : DateTime) (token : Token) (signalKey : String) :
    Ingest Unit := do
  let linked ← linkIngress netId signalKey seq
  insertLineage netId signalKey seq
  backfillLink linked netId signalKey seq
  inheritTags netId signalKey token.id
  completeTask signalKey (extractTaskStatus token.color) ts

/-- The instance a token was made for; a text that is no UUID is refused. -/
def seedInstance (color : TokenColor) : Option (Option Uuid) :=
  match strAt (colorJson color) "_instance_id" with
  | none => some none
  | some text => (rd.parseUuid text).map some

/-- A token that a net starts with: a process of its own. -/
def seedToken (netId : String) (ts : DateTime) (token : Token) : Ingest Unit := do
  write fun db => db.tag token.id [token.id]
  tryWrite fun db => (seedInstance rd token.color).map fun instanceId => { db with
    processes := upsert (·.processId = token.id)
      (fun p => { p with instanceId := p.instanceId.or instanceId, netId := p.netId.or (some netId) })
      ⟨token.id, none, "active", .obj [], instanceId, some netId, ts, ts⟩ db.processes }

/-- An effect that dispatched under a signal key. -/
def linkSignal (netId : String) (seq : Nat) : Option String → Ingest Unit
  | none => pure ()
  | some signalKey => do
    linkEgress signalKey netId seq "effect"
    write fun db => { db with
      dispatches := insertNew (·.signalKey = signalKey) ⟨signalKey, netId, seq⟩ db.dispatches }

/-- A handler without a projector changes nothing. -/
def dispatchProjector (netId : String) (ctx : Uuid → ProjectorCtx) : Option Projector → Ingest Unit
  | none => pure ()
  | some projector => do
    let workspaceId ← resolveNetWorkspace rd netId
    projector.project rd (ctx workspaceId)

/-- A token with a signal key, or one that a process may start from. -/
def createdToken (netId : String) (seq : Nat) (ts : DateTime) (token : Token) :
    Option String → Ingest Unit
  | some signalKey => signalledToken netId seq ts token signalKey
  | none =>
    if token.createdByEvent.isNone && !isInfrastructureNet netId then seedToken rd netId ts token
    else pure ()

/-- The tasks of a pool, by the tokens that came to its places. -/
def projectPool (netId : String) (tokens : List (Option String × Token)) (ts : DateTime) : Ingest Unit :=
  if startsWith netId "pool-" then
    tokens.forM fun t => projectPoolTaskState rd netId t.1 t.2.id (colorJson t.2.color) ts
  else pure ()

/-- What the ingest does with an event, table after table. -/
def processDomainEvent (netId : String) (persisted : PersistedEvent) : Ingest Unit :=
  let seq := persisted.sequence
  let ts := persisted.timestamp
  match persisted.event with
  | .transitionFired transitionId transitionName consumed produced read _ _ => do
    insertEvent { netId, eventSeq := seq, eventType := "TransitionFired",
                  transitionName := some (transitionName.getD transitionId.name), timestamp := ts }
    insertEventTokens netId seq consumed produced read
    propagateProcessTags (consumed.map Prod.snd) (tokenIds read) (tokenIds produced)
    projectPool rd netId (produced.map fun t => (some t.1.name, t.2)) ts
  | .effectCompleted transitionId transitionName consumed produced handlerId effectResult read started
      completed => do
    insertEvent { netId, eventSeq := seq, eventType := "EffectCompleted",
                  transitionName := some (transitionName.getD transitionId.name),
                  effectHandler := some handlerId, effectResult := some effectResult, timestamp := ts }
    insertEventTokens netId seq consumed produced read
    propagateProcessTags (consumed.map Prod.snd) (tokenIds read) (tokenIds produced)
    linkSignal netId seq (strAt effectResult "signal_key")
    dispatchProjector rd netId (fun workspaceId => ⟨netId, workspaceId, seq, transitionId.name,
      consumed.map Prod.snd, tokenIds read, effectResult, completed.or started, ts⟩)
      (projectorFor handlerId)
  | .effectFailed transitionId transitionName consumed produced handlerId message tokensConsumed input
      retryable => do
    let failure : Json := .obj [("error_message", .str message), ("retryable", .bool retryable),
      ("input_data", input.elim .null fun data => .obj data.toPairs),
      ("tokens_consumed", .bool tokensConsumed)]
    insertEvent { netId, eventSeq := seq, eventType := "EffectFailed",
                  transitionName := some (transitionName.getD transitionId.name),
                  effectHandler := some handlerId, effectResult := some failure, timestamp := ts }
    if tokensConsumed then do
      insertEventTokens netId seq consumed produced []
      propagateProcessTags (consumed.map Prod.snd) [] (tokenIds produced)
    else pure ()
  | .tokenCreated token placeId placeName _ signalKey _ => do
    insertEvent { netId, eventSeq := seq, eventType := "TokenCreated", timestamp := ts }
    insertEventToken netId seq token.id .produced placeId.name placeName (some (colorJson token.color))
    createdToken rd netId seq ts token signalKey
    projectPool rd netId [(placeName, token)] ts
  | .tokenBridgedOut token _ _ targetNetId targetPlaceName _ signalKey producedByEvent _ _ => do
    linkEgress signalKey netId (producedByEvent.getD seq) "bridge"
    insertEvent { netId, eventSeq := seq, eventType := "TokenBridgedOut",
                  bridgeTargetNet := some targetNetId, bridgeTargetPlace := some targetPlaceName,
                  timestamp := ts }
    insertEventToken netId seq token.id .produced "" none (some (colorJson token.color))
  | _ => pure ()

/-! ## Messages -/

/-- The two streams the ingest reads. -/
inductive Message where
  | bridgeTransfer (targetNetId signalKey : String)
  | domainEvent (netId : String) (event : PersistedEvent)
  deriving DecidableEq

/-- A transfer tells where the signal goes. -/
def processBridgeTransfer (targetNetId signalKey : String) : Ingest Unit :=
  write fun db => { db with
    crossLinks := upsert (·.signalKey = signalKey)
      (fun r => { r with ingressNet := some targetNetId })
      ⟨signalKey, none, none, some targetNetId, none, "bridge"⟩ db.crossLinks }

/-- One message, whichever stream it is of. -/
def process : Message → Ingest Unit
  | .bridgeTransfer targetNetId signalKey => processBridgeTransfer targetNetId signalKey
  | .domainEvent netId event => processDomainEvent rd netId event

end

end Causality

end Mekhan

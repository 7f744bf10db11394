import Mekhan.Infra.JsonMap
import Mekhan.Infra.Utf8Text
import Mekhan.Sdk.ExecutorLifecycle

/-!
# The watcher of the executor's streams

`engine/core-engine/crates/executor/src/watcher.rs`: what the handlers of the watcher publish for a
message of the status stream or the event stream. A message that cannot be read, has no routing
metadata or has no route is skipped; the loop acknowledges it like any other. The routing metadata is
that of `scheduler-bridge/src/meta.rs`, subjects and publications that of `scheduler-bridge/src/signal.rs`.

The broadcast to SSE clients, the checkpoint, and the time at which a signal is made are left out. How
JSON is written and read is a parameter.
-/

namespace Mekhan

open Infra

/-- A `HashMap` of meta tags: what `get` finds is the first entry. -/
abbrev MetaTags := List (String × String)

/-! ## Routing -/

structure RoutingMeta where
  netId : String
  fallbackPlace : String
  signalRoutes : MetaTags
  eventRoutes : MetaTags
  signalKey : String

namespace RoutingMeta

/-- `strip_prefix` on a key. -/
def stripKey (start key : String) : Option String :=
  if start.toList.isPrefixOf key.toList then
    some (String.ofList (key.toList.drop start.toList.length))
  else none

/-- The routes among the tags, by what follows their prefix; the signal key is none of them. -/
def routes (start : String) (tags : MetaTags) : MetaTags :=
  tags.filterMap fun tag =>
    if tag.1 = "petri_signal_key" then none
    else (stripKey start tag.1).map fun name => (name, tag.2)

def fromMetaTags (tags : MetaTags) : Option RoutingMeta :=
  match tags.lookup "petri_net_id", tags.lookup "petri_place" with
  | some netId, some fallbackPlace =>
    some
      { netId := netId
        fallbackPlace := fallbackPlace
        signalRoutes := routes "petri_signal_" tags
        eventRoutes := routes "petri_event_" tags
        signalKey := (tags.lookup "petri_signal_key").getD "" }
  | _, _ => none

def placeForStatus (routing : RoutingMeta) (status : String) : String :=
  (routing.signalRoutes.lookup status).getD routing.fallbackPlace

def placeForEvent (routing : RoutingMeta) (category : String) : Option String :=
  routing.eventRoutes.lookup category

def signalMetaKey (status : String) : String := "petri_signal_" ++ status

def eventMetaKey (category : String) : String := "petri_event_" ++ category

/-- The tags with those of some routes; the first of two routes of one name goes in last. -/
def insertRoutes (key : String → String) (routes tags : MetaTags) : MetaTags :=
  routes.foldr (fun route tags => put tags (key route.1, route.2)) tags

def toMetaTags (routing : RoutingMeta) : MetaTags :=
  let tags := put (put [] ("petri_net_id", routing.netId)) ("petri_place", routing.fallbackPlace)
  let tags := if routing.signalKey = "" then tags else put tags ("petri_signal_key", routing.signalKey)
  let tags := insertRoutes signalMetaKey routing.signalRoutes tags
  insertRoutes eventMetaKey routing.eventRoutes tags

end RoutingMeta

/-! ## Signals -/

structure ExternalSignal where
  source : String
  signalKey : String
  payload : Json
  dedupId : Option String

/-- `mekhan-{ws}-{instance}`: the workspace of such a net. -/
def workspaceFromNetId (netId : String) : Option String :=
  match RoutingMeta.stripKey "mekhan-" netId with
  | none => none
  | some rest =>
    let text := rest.toList
    let dashes := [36, 8, 13, 18, 23]
    if 37 < byteLen text ∧ ∀ i ∈ dashes, charAt? text i = some '-' then
      (splitAt? text 36).map fun parts => String.ofList parts.1
    else none

def workspaceForSignal (explicit netId : String) : String :=
  if explicit ≠ "" then explicit else (workspaceFromNetId netId).getD "default"

/-- What `SignalPublisher::publish` is called with; the subject by its parts. -/
structure Publication where
  workspace : String
  netId : String
  place : String
  signal : ExternalSignal
  msgId : String

/-! ## Messages -/

structure StatusUpdate where
  executionId : String
  workspaceId : String
  status : ExecutionStatus
  detail : Json
  metadata : MetaTags
  source : String
  timestamp : String

inductive ControlKind where
  | opening
  | item
  | closing
  deriving DecidableEq

structure ControlEmitEvent where
  executionId : String
  workspaceId : String
  channel : String
  kind : ControlKind
  payloadJson : String
  itemIdx : Nat
  count : Nat
  episodeUid : String
  metadata : MetaTags

/-- The details of an event that decide the id it is published under. -/
inductive EventArm where
  | artifactLogged (artifactId : String)
  | artifactConsumed (inputName : String)
  | outputSet (name : String)
  | phaseChanged (phaseName status : String)
  | streaming

structure ExecutionEvent where
  executionId : String
  workspaceId : String
  category : String
  arm : EventArm
  detail : Json
  metadata : MetaTags
  source : String
  timestamp : String
  sequence : Nat

/-- A message of one of the two streams, as far as it can be read. -/
inductive WatcherMessage where
  | status (update : Option StatusUpdate)
  | controlEmit (emit : Option ControlEmitEvent)
  | event (event : Option ExecutionEvent)

/-- How JSON is written and read, and the ceiling on an item's payload. -/
structure WatcherConfig where
  maxEmitItemInlineBytes : Nat
  serializedBytes : Json → Nat
  parseJson : String → Option Json

namespace Watcher

open Rhai (int)

/-! ## Status updates -/

/-- The dedup id of a status, in the signal and as `Nats-Msg-Id`. -/
def statusId (executionId : String) (status : ExecutionStatus) : String :=
  executionId ++ "-status-" ++ status.asStr

def statusPayload (u : StatusUpdate) : Json :=
  .obj [("execution_id", .str u.executionId), ("status", .str u.status.asStr), ("detail", u.detail),
    ("source", .str u.source), ("timestamp", .str u.timestamp)]

def handleStatusMessage (u : StatusUpdate) : Option Publication :=
  (RoutingMeta.fromMetaTags u.metadata).map fun routing =>
    { workspace := workspaceForSignal u.workspaceId routing.netId
      netId := routing.netId
      place := routing.placeForStatus u.status.asStr
      signal := ⟨"executor", routing.signalKey, statusPayload u, some (statusId u.executionId u.status)⟩
      msgId := statusId u.executionId u.status }

/-! ## Control emissions -/

variable (cfg : WatcherConfig)

def omission (size limit : Nat) : String :=
  "emit item payload of " ++ toString size ++ " B exceeded the inline limit of " ++ toString limit ++
    " B and was not parked in the marking; stream large payloads as a data channel " ++
    "(data_open/data_chunk) or persist via log_artifact and emit the reference"

def capEmitPayload (payload : Json) : Json :=
  let size := cfg.serializedBytes payload
  if cfg.maxEmitItemInlineBytes < size then
    .obj [("__omitted__", .str (omission size cfg.maxEmitItemInlineBytes)),
      ("__elided_bytes__", int size)]
  else payload

def emitPayload (emit : ControlEmitEvent) : Json :=
  capEmitPayload cfg
    (if emit.payloadJson = "" then .null else (cfg.parseJson emit.payloadJson).getD .null)

/-- The id of a bracket of an episode; a data channel has no episodes. -/
def bracketId (emit : ControlEmitEvent) (bracket : String) : String :=
  if emit.episodeUid = "" then emit.executionId ++ "-data-" ++ emit.channel ++ "-" ++ bracket
  else emit.executionId ++ "-control-" ++ emit.channel ++ "-" ++ emit.episodeUid ++ "-" ++ bracket

def controlEmitToken (emit : ControlEmitEvent) : Json × String :=
  let mapId := Json.str (emit.executionId ++ ":" ++ emit.episodeUid)
  match emit.kind with
  | .item =>
    (.obj [("channel", .str emit.channel), ("kind", .str "item"), ("payload", emitPayload cfg emit),
        ("__map_id", mapId), ("__map_idx", int emit.itemIdx)],
      emit.executionId ++ "-control-" ++ emit.channel ++ "-" ++ emit.episodeUid ++ "-item-" ++
        toString emit.itemIdx)
  | .opening =>
    (.obj [("channel", .str emit.channel), ("kind", .str "open"), ("payload", emitPayload cfg emit)],
      bracketId emit "open")
  | .closing =>
    if emit.episodeUid = "" then
      (.obj [("channel", .str emit.channel), ("kind", .str "close"),
          ("payload", emitPayload cfg emit)], bracketId emit "close")
    else
      (.obj [("channel", .str emit.channel), ("kind", .str "close"), ("__map_id", mapId),
          ("count", int emit.count)], bracketId emit "close")

def handleControlEmit (emit : ControlEmitEvent) : Option Publication :=
  (RoutingMeta.fromMetaTags emit.metadata).bind fun routing =>
    (routing.placeForEvent "control_emit").map fun place =>
      { workspace := workspaceForSignal emit.workspaceId routing.netId
        netId := routing.netId
        place := place
        signal := ⟨"executor", routing.signalKey, (controlEmitToken cfg emit).1,
          some (controlEmitToken cfg emit).2⟩
        msgId := (controlEmitToken cfg emit).2 }

/-! ## Events -/

/-- The id an event is published under, and whether the engine is to remember it. -/
def eventIds (e : ExecutionEvent) : String × Option String :=
  let once (id : String) := (id, some id)
  match e.arm with
  | .artifactLogged artifactId => once (e.executionId ++ "-artifact-" ++ artifactId)
  | .artifactConsumed inputName => once (e.executionId ++ "-artifact_in-" ++ inputName)
  | .outputSet name => once (e.executionId ++ "-output-" ++ name)
  | .phaseChanged phaseName status =>
    once (e.executionId ++ "-phase-" ++ phaseName ++ "-" ++ status)
  | .streaming => (e.executionId ++ "-event-" ++ toString e.sequence, none)

def eventPayload (e : ExecutionEvent) : Json :=
  .obj [("execution_id", .str e.executionId), ("category", .str e.category), ("detail", e.detail),
    ("metadata", .obj (e.metadata.map fun tag => (tag.1, .str tag.2))), ("sequence", int e.sequence),
    ("source", .str e.source), ("timestamp", .str e.timestamp)]

/-- `handle_event_message` on an event that is no control emission. -/
def handleExecutionEvent (e : ExecutionEvent) : Option Publication :=
  (RoutingMeta.fromMetaTags e.metadata).bind fun routing =>
    (routing.placeForEvent e.category).map fun place =>
      { workspace := workspaceForSignal e.workspaceId routing.netId
        netId := routing.netId
        place := place
        signal := ⟨"executor", routing.signalKey, eventPayload e, (eventIds e).2⟩
        msgId := (eventIds e).1 }

/-- What the watcher publishes for a message, if anything. -/
def publication : WatcherMessage → Option Publication
  | .status update => update.bind handleStatusMessage
  | .controlEmit emit => emit.bind (handleControlEmit cfg)
  | .event event => event.bind handleExecutionEvent

/-- A status or control emission that carries routing metadata, by the net it is for. -/
def routedTo : WatcherMessage → Option String
  | .status (some u) => (RoutingMeta.fromMetaTags u.metadata).map RoutingMeta.netId
  | .controlEmit (some emit) => (RoutingMeta.fromMetaTags emit.metadata).map RoutingMeta.netId
  | _ => none

end Watcher

end Mekhan

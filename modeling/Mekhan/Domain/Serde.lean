import Mekhan.Domain.Events
import Mekhan.Infra.SerdeMap

/-!
# The JSON form of the domain types

The `Serialize` and `Deserialize` of `domain/src`, field by field: names, order, what is skipped and
what has a default. The text of a tree is printed and parsed by `serde_json`, which keeps everything but
the last digits of some doubles, so a tree stands for its text here and `Texts.double` for what those
doubles are read as; times and ids go through the text forms of `chrono` and `uuid`, also in `Texts`.

`impl` is the map behind the objects of a `serde_json::Value`: which of the two it is depends on the
features of the build.
-/

namespace Mekhan

open Infra Infra.Serde Infra.Serde.Codec Infra.Serde.Fields

/-- The texts that times, ids and numbers are written as. -/
structure Texts where
  /-- The serialized form of a `DateTime<Utc>`. -/
  time : TextForm DateTime
  uuid : TextForm Uuid
  /-- `to_rfc3339`. -/
  rfc3339 : DateTime → String
  /-- What the parser of `serde_json`, built without `float_roundtrip`, makes of a double's text. -/
  double : BitVec 64 → BitVec 64

/-- A text form of times that is the real one at the epoch and unary elsewhere. -/
def epochTime : TextForm DateTime where
  toText
    | ⟨.ofNat 0⟩ => "1970-01-01T00:00:00Z"
    | ⟨.ofNat (n + 1)⟩ => String.ofList ('+' :: List.replicate n '+')
    | ⟨.negSucc n⟩ => String.ofList ('-' :: List.replicate n '-')
  ofText s :=
    match s.toList with
    | '+' :: rest => some ⟨.ofNat (rest.length + 1)⟩
    | '-' :: rest => some ⟨.negSucc rest.length⟩
    | _ => some ⟨0⟩
  ofText_toText
    | ⟨.ofNat 0⟩ => rfl
    | ⟨.ofNat (n + 1)⟩ => by simp only [String.toList_ofList, List.length_replicate]
    | ⟨.negSucc n⟩ => by simp only [String.toList_ofList, List.length_replicate]

/-- `0.12000000000000001` is read as `0.12`. -/
def offByOne (bits : BitVec 64) : BitVec 64 := if bits = 0x3FBEB851EB851EB9 then 0x3FBEB851EB851EB8 else bits

/-- Text forms for runs on concrete inputs. -/
def epochTexts : Texts where
  time := epochTime
  uuid :=
    { toText := fun u => String.ofList (List.replicate u.toNat '0')
      ofText := fun s => some (BitVec.ofNat 128 s.length)
      ofText_toText := fun u => by simp }
  rfc3339 := fun _ => "1970-01-01T00:00:00+00:00"
  double := offByOne

namespace Serde

section

variable (impl : MapImpl) (texts : Texts)

/-! ## Ids and tokens -/

def placeName : String ≃ PlaceId := ⟨PlaceId.mk, PlaceId.name, fun _ => rfl, fun _ => rfl⟩

def placeId : Codec impl PlaceId := string.map placeName

def transitionId : Codec impl TransitionId :=
  string.map ⟨TransitionId.mk, TransitionId.name, fun _ => rfl, fun _ => rfl⟩

def tokenId : Codec impl TokenId :=
  (text texts.uuid).map ⟨TokenId.mk, TokenId.uuid, fun _ => rfl, fun _ => rfl⟩

def arcId : Codec impl ArcId :=
  (text texts.uuid).map ⟨ArcId.mk, ArcId.uuid, fun _ => rfl, fun _ => rfl⟩

def dateTime : Codec impl DateTime := text texts.time

def bridgeReplyAddress : Codec impl BridgeReplyAddress :=
  object <| ((required "net_id" string).append (required "place_name" string)).map
    ⟨fun (n, p) => ⟨n, p⟩, fun a => (a.netId, a.placeName), fun _ => rfl, fun _ => rfl⟩

def replyRouting : Codec impl ReplyRouting :=
  object <| ((optional "reply_to" (bridgeReplyAddress impl)).append
      (optional "reply_channels" (stringMap (bridgeReplyAddress impl)))).map
    ⟨fun (t, c) => ⟨t, c⟩, fun r => (r.replyTo, r.replyChannels), fun _ => rfl, fun _ => rfl⟩

/-- The variants of a colour, by their tags. -/
inductive ColorKind where
  | unit
  | integer
  | data

namespace ColorKind

def name : ColorKind → String
  | .unit => "Unit"
  | .integer => "Integer"
  | .data => "Data"

theorem name_inj (a b : ColorKind) (h : a.name = b.name) : a = b := by
  cases a <;> cases b <;> first | rfl | exact absurd h (by decide)

def Payload : ColorKind → Type
  | .unit => Unit
  | .integer => Int
  | .data => Json

def fields : (k : ColorKind) → Fields impl k.Payload
  | .unit => nothing
  | .integer => required "value" int
  | .data => required "value" (value texts.double)

def equiv : (Σ k : ColorKind, k.Payload) ≃ TokenColor where
  toFun
    | ⟨.unit, _⟩ => .unit
    | ⟨.integer, i⟩ => .integer i
    | ⟨.data, v⟩ => .data v
  invFun
    | .unit => ⟨.unit, ()⟩
    | .integer i => ⟨.integer, i⟩
    | .data v => ⟨.data, v⟩
  left_inv := by rintro ⟨_ | _ | _, p⟩ <;> rfl
  right_inv := by rintro (_ | i | v) <;> rfl

end ColorKind

/-- `#[serde(tag = "type", content = "value")]`. -/
def tokenColor : Codec impl TokenColor :=
  (Codec.enum "type" ColorKind.name ColorKind.name_inj (ColorKind.fields impl texts)
    (by intro k; cases k <;> exact of_decide_eq_true rfl)
    (by intro k; cases k <;> exact of_decide_eq_true rfl)).map ColorKind.equiv

/-- A token; absent options leave no key. -/
def token : Codec impl Token :=
  object <| ((required "id" (tokenId impl texts)).append <|
      (required "color" (tokenColor impl texts)).append <|
      (required "created_at" (dateTime impl texts)).append <|
      (optional "created_by_event" nat).append <|
      optional "reply_routing" (replyRouting impl)).map
    ⟨fun (i, c, a, e, r) => ⟨i, c, a, e, r⟩,
      fun t => (t.id, t.color, t.createdAt, t.createdByEvent, t.replyRouting),
      fun _ => rfl, fun _ => rfl⟩

/-! ## Topology -/

/-- The variants of a place, by their tags. -/
inductive PlaceKindTag where
  | internal
  | signal
  | bridgeIn
  | bridgeOut
  | bridgeReply
  | terminal
  | sink

namespace PlaceKindTag

def name : PlaceKindTag → String
  | .internal => "internal"
  | .signal => "signal"
  | .bridgeIn => "bridge_in"
  | .bridgeOut => "bridge_out"
  | .bridgeReply => "bridge_reply"
  | .terminal => "terminal"
  | .sink => "sink"

theorem name_inj (a b : PlaceKindTag) (h : a.name = b.name) : a = b := by
  cases a <;> cases b <;> first | rfl | exact absurd h (by decide)

def Payload : PlaceKindTag → Type
  | .bridgeIn => Option String × Option String
  | .bridgeOut => String × String × Option String × Option (HashMap String String) × Option String
  | .bridgeReply => Option String
  | .internal | .signal | .terminal | .sink => Unit

def fields : (k : PlaceKindTag) → Fields impl k.Payload
  | .bridgeIn => (optional "source_net_id" string).append (optional "source_place_name" string)
  | .bridgeOut => (required "target_net_id" string).append <|
      (required "target_place_name" string).append <| (optional "reply_to" string).append <|
      (optional "reply_channels" (stringMap string)).append (optional "label" string)
  | .bridgeReply => optional "channel" string
  | .internal => nothing
  | .signal => nothing
  | .terminal => nothing
  | .sink => nothing

def equiv : (Σ k : PlaceKindTag, k.Payload) ≃ PlaceKind where
  toFun
    | ⟨.internal, _⟩ => .internal
    | ⟨.signal, _⟩ => .signal
    | ⟨.bridgeIn, (n, p)⟩ => .bridgeIn n p
    | ⟨.bridgeOut, (n, p, r, c, l)⟩ => .bridgeOut n p r c l
    | ⟨.bridgeReply, c⟩ => .bridgeReply c
    | ⟨.terminal, _⟩ => .terminal
    | ⟨.sink, _⟩ => .sink
  invFun
    | .internal => ⟨.internal, ()⟩
    | .signal => ⟨.signal, ()⟩
    | .bridgeIn n p => ⟨.bridgeIn, (n, p)⟩
    | .bridgeOut n p r c l => ⟨.bridgeOut, (n, p, r, c, l)⟩
    | .bridgeReply c => ⟨.bridgeReply, c⟩
    | .terminal => ⟨.terminal, ()⟩
    | .sink => ⟨.sink, ()⟩
  left_inv := by rintro ⟨_ | _ | _ | _ | _ | _ | _, p⟩ <;> rfl
  right_inv := by intro k; cases k <;> rfl

end PlaceKindTag

/-- `#[serde(tag = "kind")]`, flattened into the place. -/
def placeKind : Fields impl PlaceKind :=
  (Fields.enum "kind" PlaceKindTag.name PlaceKindTag.name_inj (PlaceKindTag.fields impl)
    ["kind", "source_net_id", "source_place_name", "target_net_id", "target_place_name", "reply_to",
      "reply_channels", "label", "channel"]
    (by intro k; cases k <;> exact of_decide_eq_true rfl)
    (by intro k; cases k <;> exact of_decide_eq_true rfl)).map PlaceKindTag.equiv

/-- A place; its kind's fields are flattened into it. -/
def place : Codec impl Place :=
  object <| ((required "id" (placeId impl)).append <| (required "name" string).append <|
      (placeKind impl).append <| (optional "capacity" nat).append <|
      (optional "group_id" string).append <| optional "token_schema" string).map
    ⟨fun (i, n, k, c, g, t) => ⟨i, n, k, c, g, t⟩,
      fun p => (p.id, p.name, p.kind, p.capacity, p.groupId, p.tokenSchema),
      fun _ => rfl, fun _ => rfl⟩

def portCardinality : Codec impl PortCardinality :=
  text <| TextForm.ofNames (fun | .single => "single" | .batch => "batch") [.single, .batch]
    (by rintro (_ | _) <;> simp) (by rintro (_ | _) (_ | _) <;> simp)

def port : Codec impl Port :=
  object <| ((required "name" string).append <| (optional "schema_ref" string).append <|
      defaulted "cardinality" (portCardinality impl) .single).map
    ⟨fun (n, s, c) => ⟨n, s, c⟩, fun p => (p.name, p.schemaRef, p.cardinality),
      fun _ => rfl, fun _ => rfl⟩

def arcDirection : Codec impl ArcDirection :=
  text <| TextForm.ofNames
    (fun | .placeToTransition => "place_to_transition" | .transitionToPlace => "transition_to_place")
    [.placeToTransition, .transitionToPlace]
    (by rintro (_ | _) <;> simp) (by rintro (_ | _) (_ | _) <;> simp)

def arc : Codec impl Arc :=
  object <| ((required "id" (arcId impl texts)).append <|
      (required "place_id" (placeId impl)).append <|
      (required "transition_id" (transitionId impl)).append <|
      (required "direction" (arcDirection impl)).append <|
      (required "port_name" string).append <| (defaulted "weight" nat 1).append <|
      (skipped "read" bool false bool_reads_false).append <|
      (optional "count_from" string).append <| (optional "correlate_on" string).append <|
      (skipped "reset_reply_routing" bool false bool_reads_false).append <|
      optional "drain_max" nat).map
    ⟨fun (i, p, t, d, n, w, r, c, o, y, m) => ⟨i, p, t, d, n, w, r, c, o, y, m⟩,
      fun a => (a.id, a.placeId, a.transitionId, a.direction, a.portName, a.weight, a.read,
        a.countFrom, a.correlateOn, a.resetReplyRouting, a.drainMax),
      fun _ => rfl, fun _ => rfl⟩

def simulationConfig : Codec impl SimulationConfig :=
  object <| ((required "duration_ms" nat).append (optional "variance_ms" nat)).map
    ⟨fun (d, v) => ⟨d, v⟩, fun s => (s.durationMs, s.varianceMs), fun _ => rfl, fun _ => rfl⟩

/-- A transition; lists default to empty ones. -/
def transition : Codec impl Transition :=
  object <| ((required "id" (transitionId impl)).append <| (required "name" string).append <|
      (defaulted "input_ports" (list (port impl)) []).append <|
      (defaulted "output_ports" (list (port impl)) []).append <|
      (optional "guard" string).append <| (required "script" string).append <|
      (optional "priority" string).append <|
      (skipped "finalizer" bool false bool_reads_false).append <|
      (optional "simulation" (simulationConfig impl)).append <|
      (optional "group_id" string).append <| (optional "effect_handler_id" string).append <|
      (optional "effect_config" (value texts.double)).append <|
      (skipped "caused_signals" (list string) [] (list_reads_nil _)).append <|
      (optional "process_step_started" string).append <|
      optional "process_step_completed" string).map
    ⟨fun (i, n, p, o, g, s, y, f, c, d, h, e, u, a, b) => ⟨i, n, p, o, g, s, y, f, c, d, h, e, u, a, b⟩,
      fun t => (t.id, t.name, t.inputPorts, t.outputPorts, t.guard, t.script, t.priority, t.finalizer,
        t.simulation, t.groupId, t.effectHandlerId, t.effectConfig, t.causedSignals,
        t.processStepStarted, t.processStepCompleted),
      fun _ => rfl, fun _ => rfl⟩

def group : Codec impl Group :=
  object <| ((required "id" string).append <| (required "name" string).append <|
      (optional "parent_id" string).append <| optional "metadata" (value texts.double)).map
    ⟨fun (i, n, p, m) => ⟨i, n, p, m⟩, fun g => (g.id, g.name, g.parentId, g.metadata),
      fun _ => rfl, fun _ => rfl⟩

/-- `serialize_places_as_vec`, `deserialize_places_from_vec`. -/
def places : Codec impl (Keyed Place.id) :=
  valueMap (place impl)
    (fun _ _ h => congrArg PlaceId.mk (Option.some.inj (first_of_reads h)).symm)
    (fun _ _ h => congrArg PlaceId.mk (Json.str.inj (first_of_canon h)))

/-- `serialize_transitions_as_vec`, `deserialize_transitions_from_vec`. -/
def transitions : Codec impl (Keyed Transition.id) :=
  valueMap (transition impl texts)
    (fun _ _ h => congrArg TransitionId.mk (Option.some.inj (first_of_reads h)).symm)
    (fun _ _ h => congrArg TransitionId.mk (Json.str.inj (first_of_canon h)))

/-- A net; places and transitions are maps by their ids. -/
def petriNet : Codec impl PetriNet :=
  object <| ((required "places" (places impl)).append <|
      (required "transitions" (transitions impl texts)).append <|
      (required "arcs" (list (arc impl texts))).append <|
      skipped "groups" (list (group impl texts)) [] (list_reads_nil _)).map
    ⟨fun (p, t, a, g) => ⟨p.1, t.1, a, g, p.2, t.2⟩,
      fun n => (⟨n.places, n.placesKeyed⟩, ⟨n.transitions, n.transitionsKeyed⟩, n.arcs, n.groups),
      fun _ => rfl, fun _ => rfl⟩

/-! ## Events -/

def outcomeKind : Codec impl PreDispatchOutcomeKind :=
  text <| TextForm.ofNames
    (fun | .continue => "continue" | .reject => "reject" | .defer => "defer")
    [.continue, .reject, .defer]
    (by rintro (_ | _ | _) <;> simp) (by rintro (_ | _ | _) (_ | _ | _) <;> simp)

/-- What a hook decided, as it is logged. -/
def hookOutcome : Codec impl PreDispatchHookOutcome :=
  object <| ((required "hook_name" string).append <| (required "kind" (outcomeKind impl)).append <|
      (optional "reason" string).append <| (optional "retry_after_ms" nat).append <|
      required "fail_open_applied" bool).map
    ⟨fun (n, k, r, m, f) => ⟨n, k, r, m, f⟩,
      fun h => (h.hookName, h.kind, h.reason, h.retryAfterMs, h.failOpenApplied),
      fun _ => rfl, fun _ => rfl⟩

def consumed : Codec impl (List (PlaceId × TokenId)) :=
  list (pair (placeId impl) (tokenId impl texts))

def produced : Codec impl (List (PlaceId × Token)) :=
  list (pair (placeId impl) (token impl texts))

/-- The variants of `DomainEvent`. -/
inductive EventKind where
  | netInitialized
  | tokenCreated
  | transitionFired
  | transitionSkipped
  | tokenBridgedOut
  | tokenConsumed
  | tokenRemoved
  | tokenUpdated
  | effectCompleted
  | effectFailed
  | errorOccurred
  | transitionScriptUpdated
  | netCreated
  | netCompleted
  | netCancelled
  | netFailed
  | preDispatchEvaluated
  | preDispatchRejected
  | preDispatchDeferred

namespace EventKind

def name : EventKind → String
  | .netInitialized => "NetInitialized"
  | .tokenCreated => "TokenCreated"
  | .transitionFired => "TransitionFired"
  | .transitionSkipped => "TransitionSkipped"
  | .tokenBridgedOut => "TokenBridgedOut"
  | .tokenConsumed => "TokenConsumed"
  | .tokenRemoved => "TokenRemoved"
  | .tokenUpdated => "TokenUpdated"
  | .effectCompleted => "EffectCompleted"
  | .effectFailed => "EffectFailed"
  | .errorOccurred => "ErrorOccurred"
  | .transitionScriptUpdated => "TransitionScriptUpdated"
  | .netCreated => "NetCreated"
  | .netCompleted => "NetCompleted"
  | .netCancelled => "NetCancelled"
  | .netFailed => "NetFailed"
  | .preDispatchEvaluated => "PreDispatchEvaluated"
  | .preDispatchRejected => "PreDispatchRejected"
  | .preDispatchDeferred => "PreDispatchDeferred"

theorem name_inj (a b : EventKind) (h : a.name = b.name) : a = b := by
  cases a <;> cases b <;> first | rfl | exact absurd h (by decide)

def Payload : EventKind → Type
  | .netInitialized => PetriNet
  | .tokenCreated => Token × PlaceId × Option String × Option Uuid × Option String × Option String
  | .transitionFired => TransitionId × Option String × List (PlaceId × TokenId) ×
    List (PlaceId × Token) × List (PlaceId × Token) × Option String × Option String
  | .transitionSkipped => TransitionId × Option String × List (PlaceId × TokenId) ×
    List (PlaceId × Token) × String
  | .tokenBridgedOut => Token × PlaceId × String × String × String × TransitionId × String ×
    Option Nat × Option String × Option (HashMap String String)
  | .tokenConsumed => TokenId × PlaceId
  | .tokenRemoved => TokenId × PlaceId × Option String × Option String
  | .tokenUpdated => TokenId × PlaceId × TokenColor × Option String
  | .effectCompleted => TransitionId × Option String × List (PlaceId × TokenId) ×
    List (PlaceId × Token) × String × Json × List (PlaceId × Token) × Option String × Option String
  | .effectFailed => TransitionId × Option String × List (PlaceId × TokenId) ×
    List (PlaceId × Token) × String × String × Bool × Option (HashMap String Json) × Bool
  | .errorOccurred => String
  | .transitionScriptUpdated => TransitionId × String × Option String
  | .netCreated => String × Option String × Option Json × Option String × Option String
  | .netCompleted => String × String × Option Json
  | .netCancelled => String × Option String × Option String
  | .netFailed => String × TransitionId × String × Bool
  | .preDispatchEvaluated => TransitionId × Option String × List PreDispatchHookOutcome ×
    PreDispatchOutcomeKind × DateTime
  | .preDispatchRejected => TransitionId × String × String × DateTime
  | .preDispatchDeferred => TransitionId × String × Nat × Nat × DateTime

def fields : (k : EventKind) → Fields impl k.Payload
  | .netInitialized => required "net" (petriNet impl texts)
  | .tokenCreated => (required "token" (token impl texts)).append <|
    (required "place_id" (placeId impl)).append <| (optional "place_name" string).append <|
    (optional "workflow_id" (text texts.uuid)).append <| (optional "signal_key" string).append <|
    optional "dedup_id" string
  | .transitionFired => (required "transition_id" (transitionId impl)).append <|
    (optional "transition_name" string).append <|
    (required "consumed_tokens" (consumed impl texts)).append <|
    (required "produced_tokens" (produced impl texts)).append <|
    (skipped "read_tokens" (produced impl texts) [] (list_reads_nil _)).append <|
    (optional "process_step_started" string).append <| optional "process_step_completed" string
  | .transitionSkipped => (required "transition_id" (transitionId impl)).append <|
    (optional "transition_name" string).append <|
    (required "consumed_tokens" (consumed impl texts)).append <|
    (required "produced_tokens" (produced impl texts)).append <| required "skip_reason" string
  | .tokenBridgedOut => (required "token" (token impl texts)).append <|
    (required "source_place_id" (placeId impl)).append <|
    (required "source_place_name" string).append <| (required "target_net_id" string).append <|
    (required "target_place_name" string).append <|
    (required "transition_id" (transitionId impl)).append <|
    (required "signal_key" string).append <| (optional "produced_by_event" nat).append <|
    (optional "reply_to_place_name" string).append <| optional "reply_channels" (stringMap string)
  | .tokenConsumed => (required "token_id" (tokenId impl texts)).append <|
    required "place_id" (placeId impl)
  | .tokenRemoved => (required "token_id" (tokenId impl texts)).append <|
    (required "place_id" (placeId impl)).append <| (optional "reason" string).append <|
    optional "correlation_id" string
  | .tokenUpdated => (required "token_id" (tokenId impl texts)).append <|
    (required "place_id" (placeId impl)).append <|
    (required "new_color" (tokenColor impl texts)).append <| optional "correlation_id" string
  | .effectCompleted => (required "transition_id" (transitionId impl)).append <|
    (optional "transition_name" string).append <|
    (required "consumed_tokens" (consumed impl texts)).append <|
    (required "produced_tokens" (produced impl texts)).append <|
    (required "effect_handler_id" string).append <| (required "effect_result" (value texts.double)).append <|
    (skipped "read_tokens" (produced impl texts) [] (list_reads_nil _)).append <|
    (optional "process_step_started" string).append <| optional "process_step_completed" string
  | .effectFailed => (required "transition_id" (transitionId impl)).append <|
    (optional "transition_name" string).append <|
    (required "consumed_tokens" (consumed impl texts)).append <|
    (required "produced_tokens" (produced impl texts)).append <|
    (required "effect_handler_id" string).append <| (required "error_message" string).append <|
    (required "tokens_consumed" bool).append <| (optional "input_data" (stringMap (value texts.double))).append <|
    defaulted "retryable" bool true
  | .errorOccurred => required "message" string
  | .transitionScriptUpdated => (required "transition_id" (transitionId impl)).append <|
    (required "script" string).append <| nullable "guard" string
  | .netCreated => (required "net_id" string).append <| (optional "template_id" string).append <|
    (optional "parameters" (value texts.double)).append <| (optional "created_by" string).append <|
    optional "label" string
  | .netCompleted => (required "net_id" string).append <|
    (required "terminal_place_id" string).append <| optional "exit_code" (value texts.double)
  | .netCancelled => (required "net_id" string).append <| (optional "reason" string).append <|
    optional "cancelled_by" string
  | .netFailed => (required "net_id" string).append <|
    (required "transition_id" (transitionId impl)).append <| (required "reason" string).append <|
    required "retryable" bool
  | .preDispatchEvaluated => (required "transition_id" (transitionId impl)).append <|
    (optional "transition_name" string).append <|
    (required "hook_chain" (list (hookOutcome impl))).append <|
    (required "final_outcome" (outcomeKind impl)).append <|
    required "timestamp" (dateTime impl texts)
  | .preDispatchRejected => (required "transition_id" (transitionId impl)).append <|
    (required "hook_name" string).append <| (required "reason" string).append <|
    required "timestamp" (dateTime impl texts)
  | .preDispatchDeferred => (required "transition_id" (transitionId impl)).append <|
    (required "hook_name" string).append <| (required "retry_after_ms" nat).append <|
    (required "defer_count" nat).append <| required "timestamp" (dateTime impl texts)

def equiv : (Σ k : EventKind, k.Payload) ≃ DomainEvent where
  toFun
    | ⟨.netInitialized, a⟩ => .netInitialized a
    | ⟨.tokenCreated, (a, b, c, d, e, f)⟩ => .tokenCreated a b c d e f
    | ⟨.transitionFired, (a, b, c, d, e, f, g)⟩ => .transitionFired a b c d e f g
    | ⟨.transitionSkipped, (a, b, c, d, e)⟩ => .transitionSkipped a b c d e
    | ⟨.tokenBridgedOut, (a, b, c, d, e, f, g, h, i, j)⟩ => .tokenBridgedOut a b c d e f g h i j
    | ⟨.tokenConsumed, (a, b)⟩ => .tokenConsumed a b
    | ⟨.tokenRemoved, (a, b, c, d)⟩ => .tokenRemoved a b c d
    | ⟨.tokenUpdated, (a, b, c, d)⟩ => .tokenUpdated a b c d
    | ⟨.effectCompleted, (a, b, c, d, e, f, g, h, i)⟩ => .effectCompleted a b c d e f g h i
    | ⟨.effectFailed, (a, b, c, d, e, f, g, h, i)⟩ => .effectFailed a b c d e f g h i
    | ⟨.errorOccurred, a⟩ => .errorOccurred a
    | ⟨.transitionScriptUpdated, (a, b, c)⟩ => .transitionScriptUpdated a b c
    | ⟨.netCreated, (a, b, c, d, e)⟩ => .netCreated a b c d e
    | ⟨.netCompleted, (a, b, c)⟩ => .netCompleted a b c
    | ⟨.netCancelled, (a, b, c)⟩ => .netCancelled a b c
    | ⟨.netFailed, (a, b, c, d)⟩ => .netFailed a b c d
    | ⟨.preDispatchEvaluated, (a, b, c, d, e)⟩ => .preDispatchEvaluated a b c d e
    | ⟨.preDispatchRejected, (a, b, c, d)⟩ => .preDispatchRejected a b c d
    | ⟨.preDispatchDeferred, (a, b, c, d, e)⟩ => .preDispatchDeferred a b c d e
  invFun
    | .netInitialized a => ⟨.netInitialized, a⟩
    | .tokenCreated a b c d e f => ⟨.tokenCreated, (a, b, c, d, e, f)⟩
    | .transitionFired a b c d e f g => ⟨.transitionFired, (a, b, c, d, e, f, g)⟩
    | .transitionSkipped a b c d e => ⟨.transitionSkipped, (a, b, c, d, e)⟩
    | .tokenBridgedOut a b c d e f g h i j => ⟨.tokenBridgedOut, (a, b, c, d, e, f, g, h, i, j)⟩
    | .tokenConsumed a b => ⟨.tokenConsumed, (a, b)⟩
    | .tokenRemoved a b c d => ⟨.tokenRemoved, (a, b, c, d)⟩
    | .tokenUpdated a b c d => ⟨.tokenUpdated, (a, b, c, d)⟩
    | .effectCompleted a b c d e f g h i => ⟨.effectCompleted, (a, b, c, d, e, f, g, h, i)⟩
    | .effectFailed a b c d e f g h i => ⟨.effectFailed, (a, b, c, d, e, f, g, h, i)⟩
    | .errorOccurred a => ⟨.errorOccurred, a⟩
    | .transitionScriptUpdated a b c => ⟨.transitionScriptUpdated, (a, b, c)⟩
    | .netCreated a b c d e => ⟨.netCreated, (a, b, c, d, e)⟩
    | .netCompleted a b c => ⟨.netCompleted, (a, b, c)⟩
    | .netCancelled a b c => ⟨.netCancelled, (a, b, c)⟩
    | .netFailed a b c d => ⟨.netFailed, (a, b, c, d)⟩
    | .preDispatchEvaluated a b c d e => ⟨.preDispatchEvaluated, (a, b, c, d, e)⟩
    | .preDispatchRejected a b c d => ⟨.preDispatchRejected, (a, b, c, d)⟩
    | .preDispatchDeferred a b c d e => ⟨.preDispatchDeferred, (a, b, c, d, e)⟩
  left_inv := by
    rintro ⟨k, p⟩
    cases k <;> rfl
  right_inv := by
    intro e
    cases e <;> rfl

end EventKind

/-- `#[serde(tag = "type")]`. -/
def domainEvent : Codec impl DomainEvent :=
  (Codec.enum "type" EventKind.name EventKind.name_inj (EventKind.fields impl texts)
    (by intro k; cases k <;> exact of_decide_eq_true rfl)
    (by intro k; cases k <;> exact of_decide_eq_true rfl)).map EventKind.equiv

/-- An event of the log, with its hash. -/
def persistedEvent : Codec impl PersistedEvent :=
  object <| ((required "sequence" nat).append <|
      (required "timestamp" (dateTime impl texts)).append <|
      (required "event" (domainEvent impl texts)).append <| (required "hash" string).append <|
      optional "previous_hash" string).map
    ⟨fun (s, t, e, h, p) => ⟨s, t, e, h, p⟩,
      fun e => (e.sequence, e.timestamp, e.event, e.hash, e.previousHash),
      fun _ => rfl, fun _ => rfl⟩

end

end Serde

/-! ## Data that reads back -/

/-- The value is read back with all its doubles as they were. -/
def ReadsBack (impl : MapImpl) (texts : Texts) (v : Json) : Prop :=
  Json.canon impl (Json.mapDoubles texts.double v) = Json.canon impl v

/-- The data of a token, if it has any, is read back as it was. -/
def TokenColor.Kept (impl : MapImpl) (texts : Texts) : TokenColor → Prop
  | .data v => ReadsBack impl texts v
  | .unit | .integer _ => True

/-! ## The hash of an event -/

section

variable (impl : MapImpl) (texts : Texts)

/-- What the hash is computed from: the event, its position and the hash before. -/
def hashInput (sequence : Nat) (timestamp : DateTime) (event : DomainEvent)
    (previousHash : Option String) : Json :=
  .canon impl <| .obj
    [("sequence", .num (.posInt sequence)), ("timestamp", .str (texts.rfc3339 timestamp)),
      ("event", (Serde.domainEvent impl texts).enc event),
      ("previous_hash", previousHash.elim .null .str)]

/-- The event format of a build: `digest` is the hex SHA-256 of the text of a JSON value, `textLen`
the length of the text of a tree. -/
def jsonFormat (digest : Json → String) (textLen : Json → Nat) : EventFormat where
  contentHash sequence now event previousHash :=
    digest (hashInput impl texts sequence now event previousHash)
  serLen e := textLen ((Serde.persistedEvent impl texts).enc e)

end

end Mekhan

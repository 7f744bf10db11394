import Mekhan.Application.Errors
import Mekhan.Infrastructure.MemoryEventStore

/-!
# The JetStream event store

`append` of `nats/src/event_store.rs`. The store owns the write state (next sequence, last hash),
publishes each event to the net's stream and leaves its read cache to a consumer that applies the
stream's events in order. The broker decides what becomes of a publish; `PublishOutcome` lists what
can happen, and each is an input of `append`.

Waiting for the consumer, the bridge publish and the subject an event goes to change neither the
stream nor the write state and are left out.
-/

namespace Mekhan

open Infra

inductive PublishOutcome where
  | acked
  /-- Persisted, but the acknowledgement does not reach the store. -/
  | ackLost
  /-- Not persisted: the broker has seen the message id. -/
  | duplicate
  | failed
  deriving DecidableEq

def PublishOutcome.persists : PublishOutcome → Bool
  | .acked | .ackLost => true
  | .duplicate | .failed => false

/-- `dedup_msg_id`: the `Nats-Msg-Id` of a `TokenCreated` event with a non-empty dedup id. -/
def dedupMsgId (event : DomainEvent) (netId : Option String) : Option String :=
  match event with
  | .tokenCreated _ _ _ _ _ (some id) =>
    if id = "" then none else some ("tc:" ++ netId.getD "_" ++ ":" ++ id)
  | _ => none

structure WriteState where
  nextSequence : Nat
  lastHash : Option String

/-- The store together with the stream it writes to and the part of the stream its cache holds. -/
structure NatsEventStore where
  writeState : WriteState
  stream : List PersistedEvent
  /-- How many events of the stream the consumer has applied to the cache. -/
  applied : Nat

namespace NatsEventStore

def new : NatsEventStore := ⟨⟨0, none⟩, [], 0⟩

def cacheLastHash (s : NatsEventStore) : Option String := chainTip (s.stream.take s.applied)

/-- Lazy recovery of the chain tip after re-hydration. -/
def recoverLastHash (s : NatsEventStore) : Option String :=
  if 0 < s.writeState.nextSequence ∧ s.writeState.lastHash = none then s.cacheLastHash
  else s.writeState.lastHash

variable (fmt : EventFormat)

/-- `append`, with what the broker does to the publish and the error text it then reports. -/
def append (s : NatsEventStore) (now : DateTime) (event : DomainEvent) (outcome : PublishOutcome)
    (brokerError : String) : Except EventStoreError PersistedEvent × NatsEventStore :=
  let lastHash := s.recoverLastHash
  let persisted := PersistedEvent.new fmt now s.writeState.nextSequence event lastHash
  let recovered : WriteState := ⟨s.writeState.nextSequence, lastHash⟩
  match outcome with
  | .acked => (.ok persisted, { s with
      writeState := ⟨s.writeState.nextSequence + 1, some persisted.hash⟩
      stream := s.stream ++ [persisted] })
  | .ackLost => (.error (.persistFailed ("NATS publish ACK failed: " ++ brokerError)), { s with
      writeState := recovered
      stream := s.stream ++ [persisted] })
  | .duplicate => (.ok persisted, { s with writeState := recovered })
  | .failed => (.error (.persistFailed ("NATS publish failed: " ++ brokerError)), { s with
      writeState := recovered })

/-- The consumer applies the next event of the stream. -/
def consume (s : NatsEventStore) : NatsEventStore :=
  { s with applied := min (s.applied + 1) s.stream.length }

end NatsEventStore

end Mekhan

/-!
## The event consumer

`nats/src/event_consumer.rs`: the task that reads the net's subject and applies every message to the
local cache. The hydration loop, its drain and the live loop have the same body, `handle`; they
differ in when they end and in the counter they log.

The body is given as the two effects others can see apart: the cache takes the event (`load`), and
the watch channel announces it (`announce`).
-/

namespace Mekhan

structure Delivery where
  /-- `info().stream_sequence`, when the message carries it. -/
  streamSequence : Option Nat
  /-- The event in the payload, unless it does not deserialize. -/
  payload : Option PersistedEvent

inductive ConsumerPhase where
  | hydrating
  | live
  deriving DecidableEq

structure EventConsumer where
  cache : MemoryEventStore
  topology : Option PetriNet
  phase : ConsumerPhase
  /-- The stream sequence after which a re-created consumer resumes. -/
  lastStreamSeq : Nat
  /-- The value of the watch channel: one past the sequence applied last. -/
  applied : Nat

namespace EventConsumer

/-- A consumer as `start` finds it, on a store seeded from a snapshot at `resumeFrom` or empty. -/
def start (cache : MemoryEventStore) (topology : Option PetriNet) (resumeFrom : Option Nat)
    (applied : Nat) : EventConsumer where
  cache := cache
  topology := topology
  phase := .hydrating
  lastStreamSeq := resumeFrom.getD 0
  applied := applied

def recordStreamSeq (c : EventConsumer) (streamSequence : Option Nat) : EventConsumer :=
  match streamSequence with
  | some seq => { c with lastStreamSeq := seq }
  | none => c

/-- The effect of `process_message` on the topology. -/
def hydrateTopology (topology : Option PetriNet) : DomainEvent → Option PetriNet
  | .netInitialized net => some net
  | _ => topology

variable (fmt : EventFormat)

/-- The message up to the load into the cache. -/
def load (c : EventConsumer) (d : Delivery) : EventConsumer :=
  let c := c.recordStreamSeq d.streamSequence
  match d.payload with
  | some event =>
    { c with
      topology := hydrateTopology c.topology event.event
      cache := c.cache.loadExistingEvent fmt event (d.streamSequence.getD event.sequence) }
  | none => c

/-- The watch channel takes the sequence after the event's own, whatever value it had. -/
def announce (c : EventConsumer) (event : PersistedEvent) : EventConsumer :=
  { c with applied := event.sequence + 1 }

def handle (c : EventConsumer) (d : Delivery) : EventConsumer :=
  match d.payload with
  | some event => (c.load fmt d).announce event
  | none => c.load fmt d

def goLive (c : EventConsumer) : EventConsumer := { c with phase := .live }

def marking (c : EventConsumer) : Marking := c.cache.eventState.marking

variable {fmt}

theorem cache_recordStreamSeq (c : EventConsumer) (streamSequence : Option Nat) :
    (c.recordStreamSeq streamSequence).cache = c.cache := by
  cases streamSequence <;> rfl

theorem applied_recordStreamSeq (c : EventConsumer) (streamSequence : Option Nat) :
    (c.recordStreamSeq streamSequence).applied = c.applied := by
  cases streamSequence <;> rfl

theorem marking_load (c : EventConsumer) (streamSequence : Option Nat) (event : PersistedEvent) :
    (c.load fmt ⟨streamSequence, some event⟩).marking = applyEventToMarking c.marking event.event := by
  show (MemoryEventStore.loadExistingEvent fmt _ event _).eventState.marking = _
  rw [MemoryEventStore.eventState_load, cache_recordStreamSeq]
  rfl

theorem applied_load (c : EventConsumer) (d : Delivery) : (c.load fmt d).applied = c.applied := by
  unfold load
  cases d.payload with
  | none => exact applied_recordStreamSeq c d.streamSequence
  | some event => exact applied_recordStreamSeq c d.streamSequence

theorem marking_handle (c : EventConsumer) (streamSequence : Option Nat) (event : PersistedEvent) :
    (c.handle fmt ⟨streamSequence, some event⟩).marking = applyEventToMarking c.marking event.event :=
  marking_load c streamSequence event

end EventConsumer

end Mekhan

/-!
## Bridging a token out

`publish_bridge_out` of `nats/src/event_store.rs` and the message of `nats/src/cross_net_bridge.rs`:
what the store publishes for the target net once a `TokenBridgedOut` event is on its own stream.
-/

namespace Mekhan

open Infra

/-- The message that carries a token to another net. -/
structure CrossNetTokenTransfer where
  sourceNetId : String
  sourcePlaceName : String
  tokenColor : Json
  signalKey : String
  timestamp : DateTime
  replyTo : Option BridgeReplyAddress
  replyChannels : Option (HashMap String BridgeReplyAddress)
  dedupId : Option String

/-- A transfer on the bridge subject of the net and place it is addressed to. -/
structure BridgeMessage where
  targetNetId : String
  targetPlaceName : String
  transfer : CrossNetTokenTransfer

/-- The net a transfer names as its source. -/
def sourceNetId (netId : Option String) : String := netId.getD "unknown"

/-- The dedup id: keyed on the sequence of the source event. -/
def bridgeDedupId (netId : Option String) (sequence : Nat) : String :=
  "bridge:" ++ sourceNetId netId ++ ":" ++ toString sequence

def TokenColor.toTransfer : TokenColor → Json
  | .unit => .null
  | .integer value => .num (.ofInt value)
  | .data value => value

/-- What `publish_bridge_out` publishes; nothing for any other event. -/
def publishBridgeOut (netId : Option String) (now : DateTime) (event : PersistedEvent) :
    Option BridgeMessage :=
  match event.event with
  | .tokenBridgedOut token _ sourcePlaceName targetNetId targetPlaceName _ signalKey _
      replyToPlaceName replyChannels =>
    some {
      targetNetId := targetNetId
      targetPlaceName := targetPlaceName
      transfer := {
        sourceNetId := sourceNetId netId
        sourcePlaceName := sourcePlaceName
        tokenColor := token.color.toTransfer
        signalKey := signalKey
        timestamp := now
        replyTo := replyToPlaceName.map fun place => ⟨sourceNetId netId, place⟩
        replyChannels := replyChannels.map fun channels =>
          .ofPairs (channels.toPairs.map fun (name, place) => (name, ⟨sourceNetId netId, place⟩))
        dedupId := some (bridgeDedupId netId event.sequence) } }
  | _ => none

theorem dedupId_publishBridgeOut {netId : Option String} {now : DateTime} {event : PersistedEvent}
    {message : BridgeMessage} (h : publishBridgeOut netId now event = some message) :
    message.transfer.dedupId = some (bridgeDedupId netId event.sequence) := by
  unfold publishBridgeOut at h
  split at h
  · cases h
    rfl
  · cases h

theorem toString_nat_injective {m n : Nat} (h : toString m = toString n) : m = n := by
  have hdigits : Nat.toDigits 10 m = Nat.toDigits 10 n := by
    rw [← Nat.toList_repr, ← Nat.toList_repr]
    exact congrArg String.toList h
  rw [← Nat.ofDigitChars_ten_toDigits (n := m), hdigits, Nat.ofDigitChars_ten_toDigits]

theorem bridgeDedupId_injective (netId : Option String) {m n : Nat}
    (h : bridgeDedupId netId m = bridgeDedupId netId n) : m = n := by
  refine toString_nat_injective (String.toList_injective ?_)
  have hlist := congrArg String.toList h
  simp only [bridgeDedupId, String.toList_append] at hlist
  exact List.append_cancel_left hlist

end Mekhan

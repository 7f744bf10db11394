import Mekhan.Infra.Runs
import Mekhan.Nats.EventStore

/-!
# Redelivered messages

The broker hands the messages of the net's subject to the consumer in stream order, and may hand out
any message again that it has delivered before. Neither loop of the consumer nor the store compares a
message with what was applied: a message delivered twice is applied twice. The live loop asks the broker for
what follows the last stream sequence, so its redeliveries are of what it was given itself; the schedules here
allow any.
-/

namespace Mekhan

open Infra

inductive DeliveryAction where
  /-- The message at a position of the stream, new or delivered before. -/
  | deliver (position : Nat) (streamSequence : Option Nat)
  /-- Nothing is pending: the live phase begins. -/
  | caughtUp

/-- A consumer and how many messages of the stream it has been given. -/
structure ConsumerRun where
  consumer : EventConsumer
  delivered : Nat

/-- No place holds two tokens of one id. -/
def Marking.NoTokenTwice (m : Marking) : Prop :=
  ∀ p, ((m.tokensAt p).map (·.id)).Nodup

namespace ConsumerRun

/-- A net's first consumer, on an empty store. -/
def init (tailCapBytes dedupCap : Nat) : ConsumerRun :=
  ⟨EventConsumer.start (MemoryEventStore.withCaps tailCapBytes dedupCap) none none 0, 0⟩

def step (fmt : EventFormat) (stream : List PersistedEvent) (s : ConsumerRun) :
    DeliveryAction → Option ConsumerRun
  | .deliver position streamSequence =>
    match stream[position]? with
    | some event =>
      if position ≤ s.delivered then
        some ⟨s.consumer.handle fmt ⟨streamSequence, some event⟩, max s.delivered (position + 1)⟩
      else none
    | none => none
  | .caughtUp =>
    if s.consumer.phase = .hydrating then some { s with consumer := s.consumer.goLive } else none

def prefixMarking (stream : List PersistedEvent) (s : ConsumerRun) : Marking :=
  projectMarking (stream.take s.delivered)

/-- The marking is that of the stream, and no token is there twice. -/
def ExactlyOnce (stream : List PersistedEvent) (s : ConsumerRun) : Prop :=
  s.consumer.marking = s.prefixMarking stream ∧ s.consumer.marking.NoTokenTwice

/-- A message handed out again leaves the marking of the delivered prefix as it is; one handed out
for the first time makes a prefix without a token twice. -/
def Harmless (stream : List PersistedEvent) (s : ConsumerRun) : DeliveryAction → Prop
  | .deliver position _ => ∀ event, stream[position]? = some event →
      (position < s.delivered →
        applyEventToMarking (s.prefixMarking stream) event.event = s.prefixMarking stream) ∧
      (position = s.delivered → (projectMarking (stream.take (position + 1))).NoTokenTwice)
  | .caughtUp => True

variable {fmt : EventFormat} {stream : List PersistedEvent} {s : ConsumerRun}

theorem exactlyOnce_init (tailCapBytes dedupCap : Nat) : (init tailCapBytes dedupCap).ExactlyOnce stream := by
  refine ⟨rfl, fun p => ?_⟩
  show ((Marking.new.tokensAt p).map (·.id)).Nodup
  exact List.nodup_nil

variable {position : Nat} {event : PersistedEvent}

theorem projectMarking_take_succ (h : stream[position]? = some event) :
    projectMarking (stream.take (position + 1)) =
      applyEventToMarking (projectMarking (stream.take position)) event.event := by
  rw [List.take_add_one, h, projectMarking, projectOnto_append]
  rfl

theorem step_deliver {s' : ConsumerRun} {streamSequence : Option Nat}
    (h : step fmt stream s (.deliver position streamSequence) = some s') :
    ∃ event, stream[position]? = some event ∧ position ≤ s.delivered ∧
      s'.consumer.marking = applyEventToMarking s.consumer.marking event.event ∧
      s'.delivered = max s.delivered (position + 1) := by
  simp only [step] at h
  split at h
  · next event hget =>
    split at h
    · next hle =>
      cases h
      exact ⟨event, hget, hle, EventConsumer.marking_handle .., rfl⟩
    · cases h
  · cases h

variable (fmt) in
theorem exists_step_deliver (hget : stream[position]? = some event) (hle : position ≤ s.delivered)
    (streamSequence : Option Nat) : ∃ s', step fmt stream s (.deliver position streamSequence) = some s' := by
  simp only [step, hget, if_pos hle]
  exact ⟨_, rfl⟩

theorem exactlyOnce_deliver_iff (hs : s.ExactlyOnce stream) (position : Nat) (streamSequence : Option Nat) :
    (∀ s', step fmt stream s (.deliver position streamSequence) = some s' → s'.ExactlyOnce stream) ↔
      s.Harmless stream (.deliver position streamSequence) := by
  constructor
  · intro h event hget
    refine ⟨fun hlt => ?_, fun heq => ?_⟩
    · obtain ⟨s', hs'⟩ := exists_step_deliver fmt hget hlt.le streamSequence
      obtain ⟨event', hget', -, hmark, hdel⟩ := step_deliver hs'
      obtain rfl := Option.some.inj (hget.symm.trans hget')
      have hdel' : s'.delivered = s.delivered := by omega
      have hafter := (h s' hs').1
      rw [hmark, hs.1, prefixMarking, prefixMarking, hdel'] at hafter
      exact hafter
    · obtain ⟨s', hs'⟩ := exists_step_deliver fmt hget heq.le streamSequence
      obtain ⟨-, -, -, -, hdel⟩ := step_deliver hs'
      have hdel' : s'.delivered = position + 1 := by omega
      have hafter := h s' hs'
      rw [ExactlyOnce, prefixMarking, hdel'] at hafter
      exact hafter.1 ▸ hafter.2
  · intro hharm s' hs'
    obtain ⟨event, hget, hle, hmark, hdel⟩ := step_deliver hs'
    obtain ⟨hagain, hnew⟩ := hharm event hget
    rcases Nat.lt_or_eq_of_le hle with hlt | heq
    · have hdel' : s'.delivered = s.delivered := by omega
      have hsame : s'.consumer.marking = s.consumer.marking := by
        rw [hmark, hs.1]
        exact hagain hlt
      refine ⟨?_, hsame ▸ hs.2⟩
      rw [hsame, hs.1, prefixMarking, prefixMarking, hdel']
    · have hdel' : s'.delivered = position + 1 := by omega
      have hpre : s'.consumer.marking = projectMarking (stream.take (position + 1)) := by
        rw [hmark, hs.1, projectMarking_take_succ hget, prefixMarking, heq]
      refine ⟨?_, hpre ▸ hnew heq⟩
      rw [hpre, prefixMarking, hdel']

theorem exactlyOnce_step_iff (s : ConsumerRun) (a : DeliveryAction) (hs : s.ExactlyOnce stream) :
    (∀ s', step fmt stream s a = some s' → s'.ExactlyOnce stream) ↔ s.Harmless stream a := by
  cases a with
  | deliver position streamSequence => exact exactlyOnce_deliver_iff hs position streamSequence
  | caughtUp =>
    refine iff_of_true (fun s' h => ?_) trivial
    simp only [step] at h
    split at h
    · cases h
      exact hs
    · cases h

end ConsumerRun

open ConsumerRun

/-- **Application is exactly-once exactly along the schedules whose redeliveries change nothing.** -/
theorem consumer_exactlyOnce_iff (fmt : EventFormat) (tailCapBytes dedupCap : Nat)
    (stream : List PersistedEvent) (schedule : List DeliveryAction) :
    Throughout (step fmt stream) (ExactlyOnce stream) (init tailCapBytes dedupCap) schedule ↔
      Along (step fmt stream) (Harmless stream) (init tailCapBytes dedupCap) schedule :=
  throughout_iff_along exactlyOnce_step_iff (exactlyOnce_init tailCapBytes dedupCap)

def oneToken : List PersistedEvent :=
  [.new .plain ⟨0⟩ 0 (.tokenCreated (.new ⟨1⟩ ⟨0⟩ .unit) ⟨"inbox"⟩ none none none none) none]

/-- **A message delivered again is applied again.** The acknowledgement is lost while the consumer hydrates, and
the broker hands the message to it once more: the token is in its place twice. -/
theorem redelivery_duplicates : ¬ Throughout (step .plain oneToken) (ExactlyOnce oneToken) (init 100 8)
        [.deliver 0 (some 1), .deliver 0 (some 1), .caughtUp] := by
  intro h
  have hlast := ((h.2 _ rfl).2 _ rfl).1.2 ⟨"inbox"⟩
  exact absurd hlast (by decide)

end Mekhan

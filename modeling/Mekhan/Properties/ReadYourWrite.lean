import Mekhan.Infra.Runs
import Mekhan.Nats.EventStore

/-!
# Appending and reading back

`append` of `nats/src/event_store.rs` publishes its event and then waits until the watch channel
shows a sequence above the event's own. The channel is fed by the consumer; sequences start over on
`reset`, the channel does not.

The system is any number of `append` and `reset` calls and one consumer. An `append` holds the write
lock from where it builds its event to the outcome of the publish; a `reset` empties the cache first
and takes the lock afterwards; the consumer loads a message and announces it in two steps, and may
be handed a message again.
-/

namespace Mekhan

open Infra

/-- Where an `append` call stands. The position is that of its event on the stream. -/
inductive AppendState where
  | start
  /-- Holds the write lock and has built its event. -/
  | locked (persisted : PersistedEvent)
  | waiting (persisted : PersistedEvent) (position : Nat)
  /-- The broker dropped the publish; the call has returned its event. -/
  | duplicate (persisted : PersistedEvent)
  | returned (persisted : PersistedEvent) (position : Nat)
  | failed (error : EventStoreError)

structure LiveStore where
  writeState : WriteState
  lock : Option Nat
  stream : List PersistedEvent
  consumer : EventConsumer
  /-- How many messages of the stream have been delivered. -/
  delivered : Nat
  unannounced : Option PersistedEvent
  calls : Nat → AppendState
  /-- How many `reset` calls have emptied the cache and wait for the lock. -/
  resetting : Nat
  /-- What the cache was loaded onto: its marking at the start or after the last reset. -/
  base : Marking
  loaded : List PersistedEvent
  /-- How many messages had been delivered at the last reset. -/
  resetAt : Nat

inductive StoreAction where
  | lock (i : Nat) (now : DateTime) (event : DomainEvent)
  | publish (i : Nat) (outcome : PublishOutcome) (brokerError : String)
  | wake (i : Nat)
  /-- The wait times out, or the channel is closed. -/
  | giveUp (i : Nat) (closed : Bool)
  | resetCache
  | resetWrite
  | load (position : Nat) (streamSequence : Option Nat)
  | announce

namespace LiveStore

/-- No call is under way; of the stream, `past` has been delivered and `pending` has not. -/
def init (writeState : WriteState) (consumer : EventConsumer) (past pending : List PersistedEvent) :
    LiveStore where
  writeState := writeState
  lock := none
  stream := past ++ pending
  consumer := consumer
  delivered := past.length
  unannounced := none
  calls _ := .start
  resetting := 0
  base := consumer.marking
  loaded := []
  resetAt := past.length

def setCall (s : LiveStore) (i : Nat) (c : AppendState) : LiveStore :=
  { s with calls := Function.update s.calls i c }

/-- Lazy recovery of the chain tip from the cache. -/
def recoverLastHash (s : LiveStore) : Option String :=
  if 0 < s.writeState.nextSequence ∧ s.writeState.lastHash = none then
    s.consumer.cache.inner.chainTipHash
  else s.writeState.lastHash

/-- `append`, from the lock to the event to publish. -/
def buildEvent (fmt : EventFormat) (s : LiveStore) (now : DateTime) (event : DomainEvent) :
    PersistedEvent :=
  PersistedEvent.new fmt now s.writeState.nextSequence event s.recoverLastHash

/-- What becomes of the publish, with the lock given back. The publish reaches the stream and the
outcome reaches the call in one step: in between the call holds the lock, so no other writer can
tell. -/
def settlePublish (s : LiveStore) (i : Nat) (persisted : PersistedEvent) (brokerError : String) :
    PublishOutcome → LiveStore
  | .acked => { s with
      lock := none
      stream := s.stream ++ [persisted]
      writeState := ⟨s.writeState.nextSequence + 1, some persisted.hash⟩ }.setCall i
        (.waiting persisted s.stream.length)
  | .ackLost => { s with lock := none, stream := s.stream ++ [persisted] }.setCall i
      (.failed (.persistFailed ("NATS publish ACK failed: " ++ brokerError)))
  | .duplicate => { s with lock := none }.setCall i (.duplicate persisted)
  | .failed => { s with lock := none }.setCall i
      (.failed (.persistFailed ("NATS publish failed: " ++ brokerError)))

def waitError (closed : Bool) : EventStoreError :=
  if closed then .persistFailed "Consumer channel closed" else .timeout

def step (fmt : EventFormat) (s : LiveStore) : StoreAction → Option LiveStore
  | .lock i now event =>
    match s.lock, s.calls i with
    | none, .start =>
      some ({ s with
        lock := some i
        writeState := ⟨s.writeState.nextSequence, s.recoverLastHash⟩ }.setCall i
          (.locked (s.buildEvent fmt now event)))
    | _, _ => none
  | .publish i outcome brokerError =>
    match s.calls i with
    | .locked persisted => some (s.settlePublish i persisted brokerError outcome)
    | _ => none
  | .wake i =>
    match s.calls i with
    | .waiting persisted position =>
      if persisted.sequence < s.consumer.applied then
        some (s.setCall i (.returned persisted position))
      else none
    | _ => none
  | .giveUp i closed =>
    match s.calls i with
    | .waiting .. => some (s.setCall i (.failed (waitError closed)))
    | _ => none
  | .resetCache =>
    some { s with
      consumer := { s.consumer with cache := s.consumer.cache.reset }
      resetting := s.resetting + 1
      base := .new
      loaded := []
      resetAt := s.delivered }
  | .resetWrite =>
    if s.lock = none ∧ 0 < s.resetting then
      some { s with writeState := ⟨0, none⟩, resetting := s.resetting - 1 }
    else none
  | .load position streamSequence =>
    -- The consumer is one task: a message is announced before the next one is read.
    match s.unannounced, s.stream[position]? with
    | none, some event =>
      if position ≤ s.delivered then
        some { s with
          consumer := s.consumer.load fmt ⟨streamSequence, some event⟩
          delivered := max s.delivered (position + 1)
          unannounced := some event
          loaded := s.loaded ++ [event] }
      else none
    | _, _ => none
  | .announce =>
    match s.unannounced with
    | some event =>
      some { s with consumer := s.consumer.announce event, unannounced := none }
    | none => none

/-- Every append that returned its event has had it loaded into the cache: the marking read now has
it, unless the cache was reset after the load. -/
def ReadYourWrite (s : LiveStore) : Prop :=
  s.consumer.marking = projectOnto s.base s.loaded ∧
    ∀ i persisted position, s.calls i = .returned persisted position →
      s.stream[position]? = some persisted ∧ position < s.delivered ∧
        (s.resetAt ≤ position → persisted ∈ s.loaded)

/-- The watch channel, with what the consumer is about to announce, has not passed the sequence. -/
def Ahead (s : LiveStore) (sequence : Nat) : Prop :=
  s.consumer.applied ≤ sequence ∧ ∀ event, s.unannounced = some event → event.sequence < sequence

/-- A publish uses a sequence that the channel has not passed, and no message is loaded at or above
a sequence that a call waits for, unless that call's own event is loaded or being loaded. -/
def Orderly (s : LiveStore) : StoreAction → Prop
  | .publish i _ _ => ∀ persisted, s.calls i = .locked persisted → s.Ahead persisted.sequence
  | .load position _ => ∀ event, s.stream[position]? = some event →
      ∀ i persisted own, s.calls i = .waiting persisted own → s.delivered ≤ own →
        own ≠ position → event.sequence < persisted.sequence
  | _ => True

/-! ## The invariant -/

/-- A call's event is on the stream; once it waits, either the event is loaded or the channel has
not passed its sequence; once it has returned, the event is loaded. -/
def CallInv (s : LiveStore) : AppendState → Prop
  | .waiting persisted position => s.stream[position]? = some persisted ∧
      (position < s.delivered ∨ s.Ahead persisted.sequence)
  | .returned persisted position => s.stream[position]? = some persisted ∧ position < s.delivered
  | _ => True

/-- The consumer has folded what was delivered to it. -/
structure Inv (s : LiveStore) : Prop where
  delivered : s.delivered ≤ s.stream.length
  marking : s.consumer.marking = projectOnto s.base s.loaded
  loaded : ∀ (position : Nat) persisted, s.stream[position]? = some persisted →
    s.resetAt ≤ position → position < s.delivered → persisted ∈ s.loaded
  calls : ∀ i, s.CallInv (s.calls i)

theorem Inv.readYourWrite {s : LiveStore} (h : s.Inv) : s.ReadYourWrite := by
  refine ⟨h.marking, fun i persisted position hret => ?_⟩
  have hcall := h.calls i
  rw [hret] at hcall
  exact ⟨hcall.1, hcall.2, fun hreset => h.loaded position persisted hcall.1 hreset hcall.2⟩

theorem inv_init (writeState : WriteState) (consumer : EventConsumer)
    (past pending : List PersistedEvent) : (init writeState consumer past pending).Inv where
  delivered := by simp [init]
  marking := rfl
  loaded _ _ _ hreset hlt := absurd hlt (Nat.not_lt.mpr hreset)
  calls _ := trivial

variable {fmt : EventFormat} {s s' : LiveStore}

/-- A call keeps its facts when the stream grows, more is delivered, and the channel passes no
sequence it waits for. -/
theorem CallInv.mono {c : AppendState} (h : s.CallInv c)
    (hstream : ∀ (position : Nat) persisted, s.stream[position]? = some persisted →
      s'.stream[position]? = some persisted) (hdelivered : s.delivered ≤ s'.delivered)
    (hahead : ∀ persisted position, c = .waiting persisted position → s.delivered ≤ position →
      s.Ahead persisted.sequence → position < s'.delivered ∨ s'.Ahead persisted.sequence) : s'.CallInv c := by
  cases c with
  | waiting persisted position =>
    refine ⟨hstream _ _ h.1, ?_⟩
    by_cases hlt : position < s.delivered
    · exact Or.inl (hlt.trans_le hdelivered)
    · rcases h.2 with hdel | ha
      · exact absurd hdel hlt
      · exact hahead persisted position rfl (Nat.le_of_not_lt hlt) ha
  | returned persisted position => exact ⟨hstream _ _ h.1, h.2.trans_le hdelivered⟩
  | start => trivial
  | locked _ => trivial
  | duplicate _ => trivial
  | failed _ => trivial

theorem Inv.setCall (h : s.Inv) {i : Nat} {c : AppendState} (hc : s.CallInv c) : (s.setCall i c).Inv where
  delivered := h.delivered
  marking := h.marking
  loaded := h.loaded
  calls j := by
    show s.CallInv (Function.update s.calls i c j)
    rw [Function.update_apply]
    split
    · exact hc
    · exact h.calls j

theorem Inv.writeSide (h : s.Inv) (writeState : WriteState) (lock : Option Nat) (resetting : Nat) :
    { s with writeState := writeState, lock := lock, resetting := resetting }.Inv :=
  ⟨h.delivered, h.marking, h.loaded, h.calls⟩

theorem getElem?_append_of_some {stream : List PersistedEvent} (e : PersistedEvent) {position : Nat}
    {persisted : PersistedEvent} (h : stream[position]? = some persisted) :
    (stream ++ [e])[position]? = some persisted := by
  obtain ⟨hlt, -⟩ := List.getElem?_eq_some_iff.mp h
  rw [List.getElem?_append_left hlt]
  exact h

theorem Inv.push (h : s.Inv) (e : PersistedEvent) : { s with stream := s.stream ++ [e] }.Inv where
  delivered := by
    show s.delivered ≤ (s.stream ++ [e]).length
    rw [List.length_append]
    exact Nat.le_add_right_of_le h.delivered
  marking := h.marking
  loaded position persisted hget hreset hlt := by
    refine h.loaded position persisted ?_ hreset hlt
    rw [← hget]
    exact (List.getElem?_append_left (hlt.trans_le h.delivered)).symm
  calls i := (h.calls i).mono (fun _ _ => getElem?_append_of_some e) (Nat.le_refl _)
    fun _ _ _ _ ha => Or.inr ha

/-! ## One step -/

theorem inv_settlePublish (h : s.Inv) (i : Nat) (persisted : PersistedEvent) (brokerError : String)
    (outcome : PublishOutcome) (hahead : s.Ahead persisted.sequence) :
    (s.settlePublish i persisted brokerError outcome).Inv := by
  cases outcome with
  | acked =>
    refine Inv.setCall ((h.push persisted).writeSide _ none _) ⟨?_, Or.inr hahead⟩
    exact List.getElem?_concat_length ..
  | ackLost => exact Inv.setCall ((h.push persisted).writeSide _ none _) trivial
  | duplicate => exact Inv.setCall (h.writeSide _ none _) trivial
  | failed => exact Inv.setCall (h.writeSide _ none _) trivial

theorem inv_resetCache (h : s.Inv) (h' : step fmt s .resetCache = some s') : s'.Inv := by
  cases h'
  refine ⟨h.delivered, rfl, fun _ _ _ hreset hlt => absurd hlt (Nat.not_lt.mpr hreset), ?_⟩
  exact fun i => (h.calls i).mono (fun _ _ hp => hp) (Nat.le_refl _) fun _ _ _ _ ha => Or.inr ha

/-- The consumer loads a message: a call that waits either had this one published, or its event is
loaded, or the message is below its sequence. -/
theorem inv_load (h : s.Inv) {position : Nat} {streamSequence : Option Nat} {event : PersistedEvent}
    (hget : s.stream[position]? = some event) (hle : position ≤ s.delivered)
    (horder : s.Orderly (.load position streamSequence)) : { s with
      consumer := s.consumer.load fmt ⟨streamSequence, some event⟩
      delivered := max s.delivered (position + 1)
      unannounced := some event
      loaded := s.loaded ++ [event] }.Inv where
  delivered := by
    obtain ⟨hlt, -⟩ := List.getElem?_eq_some_iff.mp hget
    exact max_le h.delivered hlt
  marking := by
    show (s.consumer.load fmt _).marking = projectOnto s.base (s.loaded ++ [event])
    rw [EventConsumer.marking_load, h.marking, projectOnto_append]
    rfl
  loaded own persisted hown hreset hlt := by
    show persisted ∈ s.loaded ++ [event]
    by_cases hdel : own < s.delivered
    · exact List.mem_append_left _ (h.loaded own persisted hown hreset hdel)
    · -- Only the message at the end of what was delivered is new.
      have hlt' : own < max s.delivered (position + 1) := hlt
      obtain rfl : own = position := by omega
      obtain rfl := Option.some.inj (hown.symm.trans hget)
      exact List.mem_append_right _ (List.mem_singleton_self _)
  calls i := by
    refine (h.calls i).mono (fun _ _ hp => hp) (Nat.le_max_left ..) fun persisted own hc hdel ha => ?_
    by_cases hown : own = position
    · exact Or.inl (hown ▸ Nat.lt_of_lt_of_le (Nat.lt_succ_self _) (Nat.le_max_right ..))
    · refine Or.inr ⟨?_, fun loaded hloaded => ?_⟩
      · show (s.consumer.load fmt _).applied ≤ _
        rw [EventConsumer.applied_load]
        exact ha.1
      · cases hloaded
        exact horder event hget i persisted own hc hdel hown

theorem inv_announce (h : s.Inv) {event : PersistedEvent} (hevent : s.unannounced = some event) :
    { s with consumer := s.consumer.announce event, unannounced := none }.Inv where
  delivered := h.delivered
  marking := h.marking
  loaded := h.loaded
  calls i := (h.calls i).mono (fun _ _ hp => hp) (Nat.le_refl _)
    fun _ _ _ _ ha => Or.inr ⟨ha.2 event hevent, by simp⟩

theorem inv_step {a : StoreAction} (h : s.Inv) (horder : s.Orderly a)
    (h' : step fmt s a = some s') : s'.Inv := by
  cases a with
  | lock i now event =>
    simp only [step] at h'
    split at h'
    · cases h'
      exact Inv.setCall (h.writeSide _ _ _) trivial
    · cases h'
  | publish i outcome brokerError =>
    simp only [step] at h'
    split at h'
    · next persisted hcall =>
      cases h'
      exact inv_settlePublish h i persisted brokerError outcome (horder persisted hcall)
    · cases h'
  | wake i =>
    simp only [step] at h'
    split at h'
    · next persisted position hcall =>
      split at h'
      · next hpassed =>
        cases h'
        have hwait := h.calls i
        rw [hcall] at hwait
        refine h.setCall ⟨hwait.1, ?_⟩
        -- The channel is past the sequence, so the call is not in the other case.
        rcases hwait.2 with hdel | ha
        · exact hdel
        · exact absurd hpassed (Nat.not_lt.mpr ha.1)
      · cases h'
    · cases h'
  | giveUp i closed =>
    simp only [step] at h'
    split at h'
    · cases h'
      exact h.setCall trivial
    · cases h'
  | resetCache => exact inv_resetCache h h'
  | resetWrite =>
    simp only [step] at h'
    split at h'
    · cases h'
      exact h.writeSide _ _ _
    · cases h'
  | load position streamSequence =>
    simp only [step] at h'
    split at h'
    · next event hidle hget =>
      split at h'
      · next hle =>
        cases h'
        exact inv_load h hget hle horder
      · cases h'
    · cases h'
  | announce =>
    simp only [step] at h'
    split at h'
    · next event hevent =>
      cases h'
      exact inv_announce h hevent
    · cases h'

end LiveStore

open LiveStore

/-- **An append that returns its event has read it back.** From every store with no call under way,
in every run whose steps are orderly, the event of every append that returned is loaded. -/
theorem append_readYourWrite (fmt : EventFormat) (writeState : WriteState) (consumer : EventConsumer)
    (past pending : List PersistedEvent) (run : List StoreAction) (s : LiveStore)
    (horder : Along (step fmt) Orderly (init writeState consumer past pending) run)
    (h : exec (step fmt) (init writeState consumer past pending) run = some s) : s.ReadYourWrite := by
  have hinv : s.Inv := exec_invariant_along (fun _ _ _ hs ho h => inv_step hs ho h)
    (inv_init writeState consumer past pending) horder h
  exact hinv.readYourWrite

def freshStore : LiveStore :=
  init ⟨0, none⟩ (EventConsumer.start (MemoryEventStore.withCaps 100 8) none none 0) [] []

/-- One append, from its lock to its return. -/
def appendOnce : List StoreAction :=
  [.lock 0 ⟨0⟩ (.errorOccurred "a"), .publish 0 .acked "", .load 0 (some 1), .announce, .wake 0]

theorem appendOnce_orderly : Along (step .plain) Orderly freshStore appendOnce := by
  refine along_cons trivial rfl (along_cons (fun persisted _ => ?_) rfl (along_cons
    (fun event hget i persisted own hcall hdel hne => ?_) rfl (along_cons trivial rfl (along_cons
    trivial rfl trivial))))
  · exact ⟨Nat.zero_le _, fun event he => absurd he (by simp [setCall, freshStore, init])⟩
  · -- The one call that waits is the one whose event is loaded.
    by_cases hi : i = 0
    · subst hi
      obtain ⟨-, rfl⟩ := AppendState.waiting.inj hcall
      exact absurd rfl hne
    · have hstart : AppendState.start = .waiting persisted own := by
        rw [← hcall]
        simp [settlePublish, setCall, hi, freshStore, init]
      cases hstart

theorem append_readYourWrite_once : ∃ s, exec (step .plain) freshStore appendOnce = some s ∧
      (∃ persisted, s.calls 0 = .returned persisted 0) ∧ s.ReadYourWrite :=
  ⟨_, rfl, ⟨_, rfl⟩, append_readYourWrite .plain _ _ _ _ appendOnce _ appendOnce_orderly rfl⟩

/-- **After a reset an append does not wait.** The channel still shows the sequence of the event
before the reset, and the new event, at sequence `0`, returns without having been delivered. -/
theorem append_returns_early : ∃ s, exec (step .plain) freshStore (appendOnce ++
        [.resetCache, .resetWrite, .lock 1 ⟨1⟩ (.errorOccurred "b"), .publish 1 .acked "", .wake 1]) =
          some s ∧ s.loaded = [] ∧ ¬ s.ReadYourWrite := by
  refine ⟨_, rfl, rfl, fun h => ?_⟩
  exact absurd (h.2 1 _ 1 rfl).2.1 (by decide)

end Mekhan

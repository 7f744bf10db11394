import Mekhan.Nats.EventStore

/-!
# Publish outcomes and the hash chain

The write state advances only on an acknowledged publish. A publish that is persisted without its
acknowledgement leaves the write state one event behind the stream, and the next event that reaches
the stream repeats its sequence.
-/

namespace Mekhan

/-! ## Chains -/

/-- Every event names the hash of the one before it, the first one `prev`. -/
def Linked : Option String → List PersistedEvent → Prop
  | _, [] => True
  | prev, e :: rest => e.previousHash = prev ∧ Linked (some e.hash) rest

/-- A stream without forks: distinct sequence numbers, each event linked to the one before it. -/
def Chain (stream : List PersistedEvent) : Prop :=
  (stream.map (·.sequence)).Nodup ∧ Linked none stream

theorem linked_append_singleton {e : PersistedEvent} : ∀ {stream : List PersistedEvent}
    {prev : Option String}, Linked prev (stream ++ [e]) ↔
      Linked prev stream ∧ e.previousHash = stream.foldl advanceTip prev
  | [], prev => by simp [Linked]
  | f :: stream, prev => by
    simp only [List.cons_append, Linked, List.foldl_cons, advanceTip]
    rw [linked_append_singleton]
    exact and_assoc.symm

theorem chain_append_singleton {stream : List PersistedEvent} {e : PersistedEvent} : Chain (stream ++ [e]) ↔
      Chain stream ∧ (∀ f ∈ stream, f.sequence ≠ e.sequence) ∧ e.previousHash = chainTip stream := by
  unfold Chain
  rw [linked_append_singleton, List.map_append, List.map_singleton, List.nodup_append]
  constructor
  · rintro ⟨⟨hnd, -, hdisj⟩, hlink, htip⟩
    exact ⟨⟨hnd, hlink⟩,
      fun f hf => hdisj _ (List.mem_map_of_mem hf) _ (List.mem_singleton_self _), htip⟩
  · rintro ⟨⟨hnd, hlink⟩, hseq, htip⟩
    refine ⟨⟨hnd, List.nodup_singleton _, ?_⟩, hlink, htip⟩
    intro a ha b hb
    obtain ⟨f, hf, rfl⟩ := List.mem_map.mp ha
    rw [List.mem_singleton.mp hb]
    exact hseq f hf

/-! ## Runs of appends -/

/-- One call of `append`, preceded by any number of events the consumer applies. -/
structure Publish where
  consumed : Nat
  now : DateTime
  event : DomainEvent
  outcome : PublishOutcome
  brokerError : String

namespace NatsEventStore

variable (fmt : EventFormat)

def consumeMany : Nat → NatsEventStore → NatsEventStore
  | 0, s => s
  | n + 1, s => consumeMany n s.consume

def publish (s : NatsEventStore) (p : Publish) : NatsEventStore :=
  ((consumeMany p.consumed s).append fmt p.now p.event p.outcome p.brokerError).2

def publishAll (s : NatsEventStore) (ps : List Publish) : NatsEventStore :=
  ps.foldl (publish fmt) s

/-- A store that is built over a hydrated cache: the stream is a chain of events below the next sequence, the
cache holds all of it, and the last hash is unset or the chain tip. The engine's factory builds the store before
its cache is hydrated, see `BridgeIds`. -/
structure Hydrated (s : NatsEventStore) : Prop where
  chain : Chain s.stream
  below : ∀ e ∈ s.stream, e.sequence < s.writeState.nextSequence
  applied : s.applied = s.stream.length
  lastHash : s.writeState.lastHash = none ∨ s.writeState.lastHash = chainTip s.stream

/-- The write state agrees with the stream. -/
structure Synced (s : NatsEventStore) : Prop where
  chain : Chain s.stream
  below : ∀ e ∈ s.stream, e.sequence < s.writeState.nextSequence
  lastHash : s.writeState.lastHash = chainTip s.stream ∨
    s.writeState.lastHash = none ∧ s.applied = s.stream.length

/-- The write state is behind the stream: the next sequence is taken. -/
structure Behind (s : NatsEventStore) : Prop where
  chain : Chain s.stream
  taken : ∃ e ∈ s.stream, e.sequence = s.writeState.nextSequence

variable {s : NatsEventStore}

theorem Hydrated.synced (h : s.Hydrated) : s.Synced where
  chain := h.chain
  below := h.below
  lastHash := by
    rcases h.lastHash with hn | htip
    · exact Or.inr ⟨hn, h.applied⟩
    · exact Or.inl htip

theorem hydrated_new : new.Hydrated where
  chain := ⟨List.nodup_nil, trivial⟩
  below := by simp [new]
  applied := rfl
  lastHash := Or.inl rfl

theorem synced_consumeMany : ∀ (n : Nat) {s : NatsEventStore}, s.Synced → (consumeMany n s).Synced
  | 0, _, h => h
  | n + 1, s, h => by
    refine synced_consumeMany n ⟨h.chain, h.below, ?_⟩
    rcases h.lastHash with htip | ⟨hn, hap⟩
    · exact Or.inl htip
    · refine Or.inr ⟨hn, ?_⟩
      show min (s.applied + 1) s.stream.length = s.stream.length
      omega

theorem consumeMany_frame : ∀ (n : Nat) (s : NatsEventStore),
    (consumeMany n s).stream = s.stream ∧ (consumeMany n s).writeState = s.writeState
  | 0, _ => ⟨rfl, rfl⟩
  | n + 1, s => consumeMany_frame n s.consume

theorem Synced.recover (h : s.Synced) : s.recoverLastHash = chainTip s.stream := by
  unfold recoverLastHash
  split
  · next hc =>
    rcases h.lastHash with htip | ⟨-, hap⟩
    · rw [cacheLastHash, ← htip, hc.2]
      have hnil : chainTip s.stream = none := htip.symm.trans hc.2
      rcases List.eq_nil_or_concat s.stream with hs | ⟨init, e, hs⟩
      · rw [hs]
        simp [chainTip]
      · rw [hs, List.concat_eq_append, chainTip_append_singleton] at hnil
        cases hnil
    · rw [cacheLastHash, hap, List.take_length]
  · next hc =>
    rcases h.lastHash with htip | ⟨hn, -⟩
    · exact htip
    · -- With nothing to recover from, the next sequence is `0` and nothing is below it.
      have hzero : s.writeState.nextSequence = 0 := by
        by_contra hne
        exact hc ⟨Nat.pos_of_ne_zero hne, hn⟩
      have hnil : s.stream = [] :=
        List.eq_nil_iff_forall_not_mem.mpr fun e he => by
          have := h.below e he
          omega
      rw [hn, hnil]
      rfl

/-! ## One append, by outcome -/

theorem synced_publish (h : s.Synced) (p : Publish) : (p.outcome = .ackLost → (s.publish fmt p).Behind) ∧
      (p.outcome ≠ .ackLost → (s.publish fmt p).Synced) := by
  have hs := synced_consumeMany p.consumed h
  rw [publish]
  generalize consumeMany p.consumed s = s' at hs
  have hrec := hs.recover
  have hchain : Chain (s'.stream ++
      [PersistedEvent.new fmt p.now s'.writeState.nextSequence p.event s'.recoverLastHash]) :=
    chain_append_singleton.mpr ⟨hs.chain, fun f hf => (hs.below f hf).ne, hrec⟩
  cases hout : p.outcome with
  | acked =>
    refine ⟨by simp, fun _ => ⟨hchain, ?_, Or.inl (chainTip_append_singleton ..).symm⟩⟩
    intro e he
    rcases List.mem_append.mp he with he | he
    · exact Nat.lt_succ_of_lt (hs.below e he)
    · rw [List.mem_singleton.mp he]
      exact Nat.lt_succ_self _
  | ackLost =>
    refine ⟨fun _ => ⟨hchain, _, List.mem_append_right _ (List.mem_singleton_self _), rfl⟩,
      by simp⟩
  | duplicate => exact ⟨by simp, fun _ => ⟨hs.chain, hs.below, Or.inl hrec⟩⟩
  | failed => exact ⟨by simp, fun _ => ⟨hs.chain, hs.below, Or.inl hrec⟩⟩

theorem behind_publish (h : s.Behind) (p : Publish) :
    (p.outcome.persists = true → ¬ Chain (s.publish fmt p).stream) ∧
      (p.outcome.persists = false → (s.publish fmt p).Behind) := by
  obtain ⟨hstream, hwrite⟩ := consumeMany_frame p.consumed s
  have hs : (consumeMany p.consumed s).Behind := ⟨hstream ▸ h.chain, hstream ▸ hwrite ▸ h.taken⟩
  rw [publish]
  generalize consumeMany p.consumed s = s' at hs
  obtain ⟨e, he, htaken⟩ := hs.taken
  cases hout : p.outcome with
  | acked =>
    refine ⟨fun _ hc => ?_, by simp [PublishOutcome.persists]⟩
    exact (chain_append_singleton.mp hc).2.1 e he htaken
  | ackLost =>
    refine ⟨fun _ hc => ?_, by simp [PublishOutcome.persists]⟩
    exact (chain_append_singleton.mp hc).2.1 e he htaken
  | duplicate => exact ⟨by simp [PublishOutcome.persists], fun _ => ⟨hs.chain, hs.taken⟩⟩
  | failed => exact ⟨by simp [PublishOutcome.persists], fun _ => ⟨hs.chain, hs.taken⟩⟩

theorem not_chain_publish (h : ¬ Chain s.stream) (p : Publish) : ¬ Chain (s.publish fmt p).stream := by
  intro hc
  refine h ?_
  rw [← (consumeMany_frame p.consumed s).1]
  rw [publish] at hc
  cases hout : p.outcome <;> rw [hout] at hc
  · exact (chain_append_singleton.mp hc).1
  · exact (chain_append_singleton.mp hc).1
  · exact hc
  · exact hc

/-! ## A run of appends -/

theorem not_chain_publishAll : ∀ (ps : List Publish) {s : NatsEventStore}, ¬ Chain s.stream →
    ¬ Chain (s.publishAll fmt ps).stream
  | [], _, h => h
  | p :: ps, _, h => not_chain_publishAll ps (not_chain_publish fmt h p)

theorem behind_publishAll : ∀ (ps : List Publish) {s : NatsEventStore}, s.Behind →
    (Chain (s.publishAll fmt ps).stream ↔ ∀ p ∈ ps, p.outcome.persists = false)
  | [], _, h => by simpa [publishAll] using h.chain
  | p :: ps, s, h => by
    show Chain ((s.publish fmt p).publishAll fmt ps).stream ↔ _
    cases hp : p.outcome.persists with
    | true =>
      refine iff_of_false (not_chain_publishAll fmt ps ((behind_publish fmt h p).1 hp)) ?_
      intro hall
      exact absurd (hall p List.mem_cons_self) (by simp [hp])
    | false =>
      rw [behind_publishAll ps ((behind_publish fmt h p).2 hp), List.forall_mem_cons]
      exact (and_iff_right hp).symm

/-- No event whose acknowledgement was lost is followed by another one that reaches the stream. -/
def NoPersistAfterLost (ps : List Publish) : Prop :=
  ps.Pairwise fun p q => p.outcome = .ackLost → q.outcome.persists = false

theorem synced_publishAll : ∀ (ps : List Publish) {s : NatsEventStore}, s.Synced →
    (Chain (s.publishAll fmt ps).stream ↔ NoPersistAfterLost ps)
  | [], _, h => by simpa [publishAll, NoPersistAfterLost] using h.chain
  | p :: ps, s, h => by
    show Chain ((s.publish fmt p).publishAll fmt ps).stream ↔ _
    rw [NoPersistAfterLost, List.pairwise_cons]
    by_cases hp : p.outcome = .ackLost
    · rw [behind_publishAll fmt ps ((synced_publish fmt h p).1 hp)]
      constructor
      · intro hall
        refine ⟨fun q hq _ => hall q hq, List.pairwise_iff_forall_sublist.mpr ?_⟩
        intro a b hab _
        exact hall b (hab.subset (by simp))
      · exact fun hpair q hq => hpair.1 q hq hp
    · rw [synced_publishAll ps ((synced_publish fmt h p).2 hp)]
      exact ⟨fun hrest => ⟨fun _ _ hlost => absurd hlost hp, hrest⟩, fun hpair => hpair.2⟩

end NatsEventStore

open NatsEventStore

/-- **The stream stays one chain exactly when nothing is persisted after a lost acknowledgement.** -/
theorem publish_keeps_chain_iff (fmt : EventFormat) (s : NatsEventStore) (hs : s.Hydrated)
    (ps : List Publish) : Chain (s.publishAll fmt ps).stream ↔ NoPersistAfterLost ps :=
  synced_publishAll fmt ps hs.synced

/-- An append whose acknowledgement is lost, then its caller's next append. -/
def lostThenAcked : List Publish :=
  [⟨0, ⟨0⟩, .errorOccurred "a", .ackLost, "timed out"⟩, ⟨1, ⟨1⟩, .errorOccurred "b", .acked, ""⟩]

theorem publish_keeps_chain_iff_new : NatsEventStore.new.Hydrated ∧
    (Chain (NatsEventStore.new.publishAll .plain lostThenAcked).stream ↔ NoPersistAfterLost lostThenAcked) :=
  ⟨hydrated_new, publish_keeps_chain_iff .plain .new hydrated_new lostThenAcked⟩

/-- **A lost acknowledgement forks the chain.** Both events carry sequence `0`. -/
theorem publish_forks : ¬ Chain (NatsEventStore.new.publishAll .plain lostThenAcked).stream := by
  intro h
  exact absurd h.1 (by decide)

end Mekhan

import Mekhan.Application.Ports
import Mekhan.Infra.Replay

/-!
# The bounded in-memory event store

`infrastructure/src/memory_event_store.rs`. The store keeps the recent events verbatim in `tail` and
folds older ones into a base (a marking, a dedup ring, a chain tip) once the tail exceeds its byte
cap. Each operation runs under one acquisition of the store's lock, so each is one step.

`Inner.Represents g hist` says that `g` stands for the complete history `hist`, evicted events
included; every operation keeps it (`append_represents`, `loadExistingEvent_represents`).
-/

namespace Mekhan

open Infra

structure Inner where
  baseCount : Nat
  baseMarking : Marking
  baseDedup : BoundedDedup
  baseLastHash : Option String
  tail : List PersistedEvent
  tailBytes : Nat
  nextSequence : Nat
  lastAppliedStreamSeq : Nat

namespace Inner

def empty (dedupCap : Nat) : Inner where
  baseCount := 0
  baseMarking := .new
  baseDedup := BoundedFifo.withCap dedupCap
  baseLastHash := none
  tail := []
  tailBytes := 0
  nextSequence := 0
  lastAppliedStreamSeq := 0

def len (g : Inner) : Nat := g.baseCount + g.tail.length

def chainTipHash (g : Inner) : Option String :=
  match g.tail.getLast? with
  | some e => some e.hash
  | none => g.baseLastHash

variable (fmt : EventFormat)

/-- One round of the eviction loop: the front event `old` leaves the tail for the base. -/
def evictFront (g : Inner) (old : PersistedEvent) (rest : List PersistedEvent) : Inner :=
  { g with
    tail := rest
    tailBytes := g.tailBytes - fmt.serLen old
    baseMarking := applyEventToMarking g.baseMarking old.event
    baseDedup := absorbDedup g.baseDedup old
    baseCount := g.baseCount + 1
    baseLastHash := some old.hash }

/-- The eviction loop, over the tail: `while tail_bytes > cap && tail.len() > 1`. -/
def evictWhile (cap : Nat) : List PersistedEvent → Inner → Inner
  | old :: next :: rest, g =>
    if cap < g.tailBytes then evictWhile cap (next :: rest) (g.evictFront fmt old (next :: rest))
    else g
  | _, g => g

def pushTail (g : Inner) (e : PersistedEvent) (cap : Nat) : Inner :=
  evictWhile fmt cap (g.tail ++ [e])
    { g with tailBytes := g.tailBytes + fmt.serLen e, tail := g.tail ++ [e] }

/-- `events_from_checked`: the events from storage position `idx` on, unless that position has been
evicted. -/
def eventsFromChecked (g : Inner) (idx : Nat) : Option (List PersistedEvent) :=
  if idx < g.baseCount then none else some (g.tail.drop (idx - g.baseCount))

/-- `marking_base`: base marking, resident tail and the extent they cover. -/
def markingBase (g : Inner) : Marking × List PersistedEvent × Nat :=
  (g.baseMarking, g.tail, g.baseCount + g.tail.length)

/-- The dedup seed: the base ring with the tail folded in. -/
def dedupSeedFull (g : Inner) : BoundedDedup := g.tail.foldl absorbDedup g.baseDedup

def snapshotInputsNow (g : Inner) : SnapshotInputs where
  marking := projectOnto g.baseMarking g.tail
  dedup := g.dedupSeedFull
  lastHash := g.chainTipHash
  eventCount := g.len
  nextSequence := g.nextSequence
  lastStreamSeq := g.lastAppliedStreamSeq
  topology := none

end Inner

structure MemoryEventStore where
  inner : Inner
  tailCapBytes : Nat
  dedupCap : Nat

namespace MemoryEventStore

variable (fmt : EventFormat)

def withCaps (tailCapBytes dedupCap : Nat) : MemoryEventStore :=
  ⟨Inner.empty dedupCap, tailCapBytes, dedupCap⟩

/-- `load_existing_event_with_stream_seq`. -/
def loadExistingEvent (s : MemoryEventStore) (event : PersistedEvent) (streamSeq : Nat) :
    MemoryEventStore :=
  { s with
    inner := Inner.pushTail fmt
      { s.inner with
        nextSequence := max s.inner.nextSequence (event.sequence + 1)
        lastAppliedStreamSeq := max s.inner.lastAppliedStreamSeq streamSeq }
      event s.tailCapBytes }

/-- Loads a history, each event with the stream sequence it was delivered at. -/
def loadAll (s : MemoryEventStore) (hist : List (PersistedEvent × Nat)) : MemoryEventStore :=
  hist.foldl (fun s e => s.loadExistingEvent fmt e.1 e.2) s

/-- `append`, at the time the clock shows. -/
def append (s : MemoryEventStore) (now : DateTime) (event : DomainEvent) :
    PersistedEvent × MemoryEventStore :=
  let persisted := PersistedEvent.new fmt now s.inner.nextSequence event s.inner.chainTipHash
  (persisted, { s with
    inner := Inner.pushTail fmt { s.inner with nextSequence := s.inner.nextSequence + 1 }
      persisted s.tailCapBytes })

def reset (s : MemoryEventStore) : MemoryEventStore := { s with inner := Inner.empty s.dedupCap }

def seedFromSnapshot (s : MemoryEventStore) (snap : NetSnapshot) : MemoryEventStore :=
  { s with
    inner :=
      { baseMarking := snap.marking
        baseDedup := snap.dedupSeed s.dedupCap
        baseLastHash := snap.lastHash
        baseCount := snap.eventCount
        nextSequence := snap.nextSequence
        lastAppliedStreamSeq := snap.lastStreamSeq
        tail := []
        tailBytes := 0 } }

end MemoryEventStore

/-! ## What a store stands for -/

def applyPersisted (m : Marking) (e : PersistedEvent) : Marking := applyEventToMarking m e.event

def advanceTip (_ : Option String) (e : PersistedEvent) : Option String := some e.hash

def chainTip (hist : List PersistedEvent) : Option String := hist.foldl advanceTip none

theorem chainTip_append_singleton (hist : List PersistedEvent) (e : PersistedEvent) :
    chainTip (hist ++ [e]) = some e.hash := by
  simp [chainTip, advanceTip]

/-- The store stands for the complete history: its base is the fold of the evicted events and its
tail is the rest. -/
structure Inner.Represents (g : Inner) (hist : List PersistedEvent) : Prop where
  marking : Checkpoint applyPersisted .new hist g.baseCount g.baseMarking g.tail
  tip : Checkpoint advanceTip none hist g.baseCount g.baseLastHash g.tail

namespace Inner.Represents

variable {g : Inner} {hist : List PersistedEvent} {fmt : EventFormat}

theorem empty (dedupCap : Nat) : (Inner.empty dedupCap).Represents [] where
  marking := Checkpoint.empty ..
  tip := Checkpoint.empty ..

theorem len_eq (h : g.Represents hist) : g.len = hist.length := h.marking.length_eq

theorem project_eq (h : g.Represents hist) :
    projectOnto g.baseMarking g.tail = projectMarking hist := h.marking.foldl_tail

theorem chainTipHash_eq (h : g.Represents hist) : g.chainTipHash = chainTip hist := by
  rw [chainTip, ← h.tip.foldl_tail, chainTipHash]
  rcases List.eq_nil_or_concat g.tail with htail | ⟨init, e, htail⟩
  · rw [htail]
    rfl
  · rw [htail]
    simp [advanceTip]

theorem evictFront {old : PersistedEvent} {rest : List PersistedEvent} (h : g.Represents hist)
    (htail : g.tail = old :: rest) : (g.evictFront fmt old rest).Represents hist where
  marking := (htail ▸ h.marking : Checkpoint _ _ _ _ _ (old :: rest)).evict
  tip := (htail ▸ h.tip : Checkpoint _ _ _ _ _ (old :: rest)).evict

theorem evictWhile {cap : Nat} : ∀ {tail : List PersistedEvent} {g : Inner}, g.tail = tail →
    g.Represents hist → (Inner.evictWhile fmt cap tail g).Represents hist
  | [], _, _, h => h
  | [_], _, _, h => h
  | old :: next :: rest, g, htail, h => by
    rw [Inner.evictWhile]
    split
    · exact evictWhile rfl (h.evictFront htail)
    · exact h

theorem pushTail (h : g.Represents hist) (e : PersistedEvent) (cap : Nat) :
    (g.pushTail fmt e cap).Represents (hist ++ [e]) :=
  evictWhile rfl ⟨h.marking.push e, h.tip.push e⟩

end Inner.Represents

namespace MemoryEventStore

variable {fmt : EventFormat} {s : MemoryEventStore} {hist : List PersistedEvent}

theorem loadExistingEvent_represents (h : s.inner.Represents hist) (e : PersistedEvent)
    (streamSeq : Nat) : (s.loadExistingEvent fmt e streamSeq).inner.Represents (hist ++ [e]) := by
  apply Inner.Represents.pushTail
  exact ⟨h.marking, h.tip⟩

theorem append_represents (h : s.inner.Represents hist) (now : DateTime) (event : DomainEvent) :
    (s.append fmt now event).2.inner.Represents (hist ++ [(s.append fmt now event).1]) := by
  apply Inner.Represents.pushTail
  exact ⟨h.marking, h.tip⟩

end MemoryEventStore

/-- The dedup ring of the base is the fold of the evicted events into an empty ring. -/
def Inner.RepresentsDedup (g : Inner) (cap : Nat) (hist : List PersistedEvent) : Prop :=
  Checkpoint absorbDedup (BoundedFifo.withCap cap) hist g.baseCount g.baseDedup g.tail

namespace Inner.RepresentsDedup

variable {g : Inner} {cap : Nat} {hist : List PersistedEvent} {fmt : EventFormat}

theorem evictWhile {tailCap : Nat} : ∀ {tail : List PersistedEvent} {g : Inner}, g.tail = tail →
    g.RepresentsDedup cap hist → (Inner.evictWhile fmt tailCap tail g).RepresentsDedup cap hist
  | [], _, _, h => h
  | [_], _, _, h => h
  | old :: next :: rest, g, htail, h => by
    rw [Inner.evictWhile]
    split
    · refine evictWhile rfl ?_
      rw [RepresentsDedup, htail] at h
      exact h.evict
    · exact h

theorem pushTail (h : g.RepresentsDedup cap hist) (e : PersistedEvent) (tailCap : Nat) :
    (g.pushTail fmt e tailCap).RepresentsDedup cap (hist ++ [e]) :=
  evictWhile rfl (Checkpoint.push h e)

theorem dedupSeedFull_eq (h : g.RepresentsDedup cap hist) :
    g.dedupSeedFull = hist.foldl absorbDedup (BoundedFifo.withCap cap) := h.foldl_tail

end Inner.RepresentsDedup

namespace MemoryEventStore

variable {fmt : EventFormat} {s : MemoryEventStore} {hist : List PersistedEvent}

variable {cap : Nat}

theorem append_representsDedup (h : s.inner.RepresentsDedup cap hist) (now : DateTime) (event : DomainEvent) :
    (s.append fmt now event).2.inner.RepresentsDedup cap (hist ++ [(s.append fmt now event).1]) := by
  apply Inner.RepresentsDedup.pushTail
  exact h

theorem loadExistingEvent_representsDedup (h : s.inner.RepresentsDedup cap hist)
    (e : PersistedEvent) (streamSeq : Nat) :
    (s.loadExistingEvent fmt e streamSeq).inner.RepresentsDedup cap (hist ++ [e]) := by
  apply Inner.RepresentsDedup.pushTail
  exact h

/-- What holds of a store and the history it stands for, and is kept by every load, holds after
loading a history. -/
theorem loadAll_induction {P : MemoryEventStore → List PersistedEvent → Prop}
    (hload : ∀ s hist e streamSeq, P s hist → P (s.loadExistingEvent fmt e streamSeq) (hist ++ [e])) :
    ∀ (loads : List (PersistedEvent × Nat)) {s : MemoryEventStore} {hist : List PersistedEvent},
      P s hist → P (s.loadAll fmt loads) (hist ++ loads.map (·.1))
  | [], s, hist, h => by simpa [loadAll] using h
  | e :: loads, s, hist, h => by
    have hrest := loadAll_induction hload loads (hload s hist e.1 e.2 h)
    rw [List.append_assoc] at hrest
    exact hrest

theorem loadAll_representsDedup (h : s.inner.RepresentsDedup cap hist)
    (fmt : EventFormat) (loads : List (PersistedEvent × Nat)) :
    (s.loadAll fmt loads).inner.RepresentsDedup cap (hist ++ loads.map (·.1)) :=
  loadAll_induction (P := fun s hist => s.inner.RepresentsDedup cap hist)
    (fun _ _ e streamSeq h => loadExistingEvent_representsDedup h e streamSeq) loads h

end MemoryEventStore

/-! ## What eviction leaves alone -/

namespace Inner

variable (fmt : EventFormat)

theorem evictWhile_counters (cap : Nat) : ∀ (tail : List PersistedEvent) (g : Inner),
    (evictWhile fmt cap tail g).nextSequence = g.nextSequence ∧
      (evictWhile fmt cap tail g).lastAppliedStreamSeq = g.lastAppliedStreamSeq
  | [], _ => ⟨rfl, rfl⟩
  | [_], _ => ⟨rfl, rfl⟩
  | old :: next :: rest, g => by
    rw [evictWhile]
    split
    · exact evictWhile_counters cap (next :: rest) _
    · exact ⟨rfl, rfl⟩

@[simp] theorem pushTail_nextSequence (g : Inner) (e : PersistedEvent) (cap : Nat) :
    (g.pushTail fmt e cap).nextSequence = g.nextSequence := (evictWhile_counters fmt cap _ _).1

@[simp] theorem pushTail_lastAppliedStreamSeq (g : Inner) (e : PersistedEvent) (cap : Nat) :
    (g.pushTail fmt e cap).lastAppliedStreamSeq = g.lastAppliedStreamSeq :=
  (evictWhile_counters fmt cap _ _).2

theorem evictWhile_total (cap : Nat) : ∀ (tail : List PersistedEvent) (g : Inner), g.tail = tail →
    projectOnto (evictWhile fmt cap tail g).baseMarking (evictWhile fmt cap tail g).tail =
        projectOnto g.baseMarking g.tail ∧ (evictWhile fmt cap tail g).len = g.len ∧
      (evictWhile fmt cap tail g).chainTipHash = g.chainTipHash
  | [], _, _ => ⟨rfl, rfl, rfl⟩
  | [_], _, _ => ⟨rfl, rfl, rfl⟩
  | old :: next :: rest, g, htail => by
    rw [evictWhile]
    split
    · obtain ⟨hproject, hlen, htip⟩ :=
        evictWhile_total cap (next :: rest) (g.evictFront fmt old (next :: rest)) rfl
      refine ⟨hproject.trans ?_, hlen.trans ?_, htip.trans ?_⟩
      · rw [htail]
        rfl
      · simp only [len, evictFront, htail, List.length_cons]
        omega
      · -- The last event is still in the tail.
        simp [chainTipHash, evictFront, htail, List.getLast?_cons_cons,
          List.getLast?_eq_some_getLast (List.cons_ne_nil next rest)]
    · exact ⟨rfl, rfl, rfl⟩

/-- Pushing an event, whatever is evicted: the projected marking, the count and the chain tip move by
that event. -/
theorem pushTail_total (g : Inner) (e : PersistedEvent) (cap : Nat) :
    projectOnto (g.pushTail fmt e cap).baseMarking (g.pushTail fmt e cap).tail =
        applyEventToMarking (projectOnto g.baseMarking g.tail) e.event ∧
      (g.pushTail fmt e cap).len = g.len + 1 ∧ (g.pushTail fmt e cap).chainTipHash = some e.hash := by
  obtain ⟨hproject, hlen, htip⟩ := evictWhile_total fmt cap (g.tail ++ [e])
    { g with tailBytes := g.tailBytes + fmt.serLen e, tail := g.tail ++ [e] } rfl
  refine ⟨hproject.trans ?_, hlen.trans ?_, htip.trans ?_⟩
  · rw [projectOnto_append]
    rfl
  · simp only [len, List.length_append, List.length_singleton]
    omega
  · simp [chainTipHash]

end Inner

/-! ## The event state -/

/-- What a store stands for: the projected marking, the event count, the chain tip and the two
counters. -/
structure EventState where
  marking : Marking
  len : Nat
  chainTipHash : Option String
  nextSequence : Nat
  lastAppliedStreamSeq : Nat

/-- The event state moves by one loaded event. -/
def EventState.load (s : EventState) (e : PersistedEvent × Nat) : EventState where
  marking := applyEventToMarking s.marking e.1.event
  len := s.len + 1
  chainTipHash := some e.1.hash
  nextSequence := max s.nextSequence (e.1.sequence + 1)
  lastAppliedStreamSeq := max s.lastAppliedStreamSeq e.2

def MemoryEventStore.eventState (s : MemoryEventStore) : EventState where
  marking := projectOnto s.inner.baseMarking s.inner.tail
  len := s.inner.len
  chainTipHash := s.inner.chainTipHash
  nextSequence := s.inner.nextSequence
  lastAppliedStreamSeq := s.inner.lastAppliedStreamSeq

namespace MemoryEventStore

variable (fmt : EventFormat)

theorem eventState_load (s : MemoryEventStore) (e : PersistedEvent) (streamSeq : Nat) :
    (s.loadExistingEvent fmt e streamSeq).eventState = s.eventState.load (e, streamSeq) := by
  obtain ⟨hproject, hlen, htip⟩ := Inner.pushTail_total fmt
    { s.inner with
      nextSequence := max s.inner.nextSequence (e.sequence + 1)
      lastAppliedStreamSeq := max s.inner.lastAppliedStreamSeq streamSeq } e s.tailCapBytes
  unfold eventState EventState.load loadExistingEvent
  simp only [hproject, hlen, htip, Inner.pushTail_nextSequence, Inner.pushTail_lastAppliedStreamSeq]
  rfl

/-- **Loading a history moves the event state by its events, whatever the caps evict.** -/
theorem eventState_loadAll : ∀ (hist : List (PersistedEvent × Nat)) (s : MemoryEventStore),
    (s.loadAll fmt hist).eventState = hist.foldl EventState.load s.eventState
  | [], _ => rfl
  | e :: hist, s => by
    show ((s.loadExistingEvent fmt e.1 e.2).loadAll fmt hist).eventState = _
    rw [eventState_loadAll hist, eventState_load]
    rfl

end MemoryEventStore

end Mekhan

/-!
## Runs of the event store

`Stored loads wakes s hist` says that `s` is a store after some sequence of operations, and `hist` all events that
were ever stored on the way, those before a hibernation included. The parameters restrict which events are loaded
and which wakes occur.
-/

namespace Mekhan

open Infra

namespace MemoryEventStore

/-- The snapshot of a store whose ring is iterated in the order `it`. -/
def hibernate (s : MemoryEventStore) (it : Iteration s.inner.snapshotInputsNow.dedup.map)
    (topology : Option PetriNet) : NetSnapshot :=
  { s.inner.snapshotInputsNow.intoSnapshot it with topology := topology }

/-- A new store with its own caps, seeded from the snapshot of `s`. -/
def wake (s : MemoryEventStore) (tailCap dedupCap : Nat) (it : Iteration s.inner.snapshotInputsNow.dedup.map)
    (topology : Option PetriNet) : MemoryEventStore :=
  (withCaps tailCap dedupCap).seedFromSnapshot (s.hibernate it topology)

end MemoryEventStore

inductive Stored (fmt : EventFormat) (loads : MemoryEventStore → PersistedEvent → Prop)
    (wakes : List PersistedEvent → Nat → List DedupKey → Prop) : MemoryEventStore → List PersistedEvent → Prop where
  | new (tailCap dedupCap : Nat) : Stored fmt loads wakes (.withCaps tailCap dedupCap) []
  | append {s hist} (h : Stored fmt loads wakes s hist) (now : DateTime) (event : DomainEvent) :
    Stored fmt loads wakes (s.append fmt now event).2 (hist ++ [(s.append fmt now event).1])
  | load {s hist} (h : Stored fmt loads wakes s hist) (e : PersistedEvent) (streamSeq : Nat) (hload : loads s e) :
    Stored fmt loads wakes (s.loadExistingEvent fmt e streamSeq) (hist ++ [e])
  | wake {s hist} (h : Stored fmt loads wakes s hist) (tailCap dedupCap : Nat)
    (it : Iteration s.inner.snapshotInputsNow.dedup.map) (topology : Option PetriNet)
    (hwake : wakes hist dedupCap it.map.keys) :
    Stored fmt loads wakes (s.wake tailCap dedupCap it topology) hist

section

variable {fmt : EventFormat} {loads : MemoryEventStore → PersistedEvent → Prop}
  {wakes : List PersistedEvent → Nat → List DedupKey → Prop} {s : MemoryEventStore} {hist : List PersistedEvent}

theorem wake_represents (h : s.inner.Represents hist) (tailCap dedupCap : Nat)
    (it : Iteration s.inner.snapshotInputsNow.dedup.map) (topology : Option PetriNet) :
    (s.wake tailCap dedupCap it topology).inner.Represents hist := by
  have hmarking : (s.wake tailCap dedupCap it topology).inner.baseMarking = projectMarking hist := h.project_eq
  have hcount : (s.wake tailCap dedupCap it topology).inner.baseCount = hist.length := h.len_eq
  have htip : (s.wake tailCap dedupCap it topology).inner.baseLastHash = chainTip hist := h.chainTipHash_eq
  constructor
  · rw [hmarking, hcount]
    exact Checkpoint.all ..
  · rw [htip, hcount]
    exact Checkpoint.all ..

/-- **In every run the store stands for everything that was ever stored.** -/
theorem Stored.represents (h : Stored fmt loads wakes s hist) : s.inner.Represents hist := by
  induction h with
  | new tailCap dedupCap => exact .empty dedupCap
  | append _ now event ih => exact MemoryEventStore.append_represents ih now event
  | load _ e streamSeq _ ih => exact MemoryEventStore.loadExistingEvent_represents ih e streamSeq
  | wake _ tailCap dedupCap it topology _ ih => exact wake_represents ih tailCap dedupCap it topology

end

end Mekhan

/-!
## The topology store

`infrastructure/src/memory_topology_store.rs`: the net of the service, and the hot reload of a script.
-/

namespace Mekhan

open Infra

/-- A transition with a new script and guard. -/
def Transition.withScript (t : Transition) (script : String) (guard : Option String) : Transition :=
  { t with script := script, guard := guard }

/-- `update_transition_script`, on the net that is set. -/
def PetriNet.updateTransitionScript (net : PetriNet) (tid : TransitionId) (script : String)
    (guard : Option String) : PetriNet :=
  { net with
    transitions := net.transitions.modify tid fun t => t.withScript script guard
    transitionsKeyed := by
      intro e he
      obtain ⟨t, ht, heq⟩ := HashMap.mem_entries_modify he
      have hid : t.id = e.1 := net.transitionsKeyed _ ht
      rw [heq]
      split
      · exact hid
      · exact hid }

/-- `update_transition_script`: whether the transition is there. -/
def updateTransitionScript (topology : Option PetriNet) (tid : TransitionId) (script : String)
    (guard : Option String) : Option PetriNet × Bool :=
  match topology with
  | some net =>
    if (net.getTransition tid).isSome then (some (net.updateTransitionScript tid script guard), true)
    else (some net, false)
  | none => (none, false)

/-- The topology once the service has appended the event: a net is set before it is announced, and a script is
updated before that is. -/
def topologyAfter (topology : Option PetriNet) : DomainEvent → Option PetriNet
  | .netInitialized net => some net
  | .transitionScriptUpdated tid script guard => (updateTransitionScript topology tid script guard).1
  | _ => topology

section

variable {net : PetriNet} {tid other : TransitionId} {script : String} {guard : Option String}

theorem getTransition_updateTransitionScript :
    (net.updateTransitionScript tid script guard).getTransition other =
      (net.getTransition other).map fun t => if other = tid then t.withScript script guard else t :=
  HashMap.lookup_modify ..

theorem getTransition_updateTransitionScript_of_ne (h : other ≠ tid) :
    (net.updateTransitionScript tid script guard).getTransition other = net.getTransition other := by
  rw [getTransition_updateTransitionScript]
  simp [h]

end

end Mekhan

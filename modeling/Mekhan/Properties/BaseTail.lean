import Mekhan.Infrastructure.MemoryEventStore

/-!
# What the bounded store keeps

Of its dedup window when it hibernates, of its log when it is split into a base and a tail, and of its hash chain.
-/

/-!
## The dedup window across hibernation

The ring evicts by insertion order, but `dedup_entries` writes it out in the iteration order of its
hash map and `dedup_seed` takes the order of that list for the insertion order.

* `dedupWindow_survives_iff` — the woken ring keeps the same keys as the ring that never hibernated
  under every sequence of further inserts exactly when the hash map happened to be iterated in
  insertion order.
* `dedupWindow_lost` — two keys iterated the other way round: the next insert evicts the younger one.
-/

namespace Mekhan

open Infra

instance : Infinite DedupKey :=
  Infinite.of_injective (fun s : String => (⟨s⟩, s)) fun _ _ h => (Prod.mk.inj h).2

namespace NetSnapshot

theorem toPair_dedupEntries (seed : BoundedDedup) (it : Iteration seed.map) :
    (dedupEntries seed it).map DedupEntry.toPair = it.map.toPairs := by
  rw [dedupEntries, List.map_map]
  exact List.map_id _

theorem map_fst_toPairs {K V : Type} (m : HashMap K V) : m.toPairs.map (·.1) = m.keys := by
  rw [HashMap.toPairs, List.map_map]
  rfl

theorem iteration_keys_perm (r : BoundedDedup) (it : Iteration r.map) : it.map.keys.Perm r.order := by
  refine (List.perm_ext_iff_of_nodup it.map.nodupKeys r.enumerates.1).mpr fun k => ?_
  rw [r.enumerates.2 k]
  exact it.mem_keys k

theorem order_restoreDedup (r : BoundedDedup) (it : Iteration r.map) {cap : Nat}
    (hcap : r.cap = max cap 1) : (restoreDedup (dedupEntries r it) cap).order = it.map.keys := by
  have hlen : it.map.keys.length ≤ max cap 1 := by
    rw [(iteration_keys_perm r it).length_eq, ← hcap]
    exact r.lengthLe
  have hfold : it.map.keys.foldl (push (max cap 1)) [] = it.map.keys.rtake (max cap 1) := by
    have hnd : ([] ++ it.map.keys).Nodup := it.map.nodupKeys
    simpa using foldl_push_fresh (max cap 1) hnd
  rw [restoreDedup, toPair_dedupEntries, BoundedFifo.order_insertAll, map_fst_toPairs,
    BoundedFifo.cap_withCap, BoundedFifo.order_withCap, hfold, List.rtake,
    Nat.sub_eq_zero_of_le hlen, List.drop_zero]

end NetSnapshot

open NetSnapshot

/-- The ring built by a history of inserts. -/
def ringAfter (cap : Nat) (hist : List (DedupKey × PersistedEvent)) : BoundedDedup :=
  (BoundedFifo.withCap cap).insertAll hist

/-- The ring after a snapshot round trip that iterates its hash map in the order `it`. -/
def wokenRing (cap : Nat) (hist : List (DedupKey × PersistedEvent))
    (it : Iteration (ringAfter cap hist).map) : BoundedDedup :=
  restoreDedup (dedupEntries (ringAfter cap hist) it) cap

/-- The window survives: after any further inserts the woken ring keeps the keys of the ring that
never hibernated, and these are the most recent insertions (an insert of a retained key being an
update) the capacity has room for. -/
def WindowSurvives (cap : Nat) (hist : List (DedupKey × PersistedEvent))
    (it : Iteration (ringAfter cap hist).map) : Prop :=
  ∀ further : List (DedupKey × PersistedEvent),
    ((wokenRing cap hist it).insertAll further).keys =
      ((ringAfter cap hist).insertAll further).keys ∧
    ((ringAfter cap hist).insertAll further).keys =
      ((((hist ++ further).map (·.1)).foldl (logInsert (max cap 1)) []).rtake (max cap 1)).toFinset

theorem order_ringAfter_insertAll (cap : Nat) (hist further : List (DedupKey × PersistedEvent)) :
    ((ringAfter cap hist).insertAll further).order =
      (((hist ++ further).map (·.1)).foldl (logInsert (max cap 1)) []).rtake (max cap 1) := by
  have hlog := foldl_push_eq_rtake (max cap 1) ((hist ++ further).map (·.1)) []
  rw [List.rtake_nil] at hlog
  rw [← hlog, BoundedFifo.order_insertAll, ringAfter, BoundedFifo.order_insertAll,
    BoundedFifo.cap_insertAll, List.map_append, List.foldl_append]
  rfl

/-- **The dedup window survives hibernation exactly when the ring's hash map is iterated in
insertion order.** -/
theorem dedupWindow_survives_iff (cap : Nat) (hist : List (DedupKey × PersistedEvent))
    (it : Iteration (ringAfter cap hist).map) :
    WindowSurvives cap hist it ↔ it.map.keys = (ringAfter cap hist).order := by
  have hcap : (ringAfter cap hist).cap = max cap 1 := BoundedFifo.cap_insertAll ..
  have hwoken : (wokenRing cap hist it).order = it.map.keys := order_restoreDedup _ it hcap
  have hwcap : (wokenRing cap hist it).cap = max cap 1 := BoundedFifo.cap_insertAll ..
  constructor
  · intro h
    have hlen : it.map.keys.length ≤ max cap 1 := by
      rw [(iteration_keys_perm _ it).length_eq, ← hcap]
      exact (ringAfter cap hist).lengthLe
    refine eq_of_foldl_push it.map.nodupKeys (ringAfter cap hist).enumerates.1
      (iteration_keys_perm _ it) hlen ?_
    · intro keys x
      let filler : PersistedEvent := ⟨0, ⟨0⟩, .errorOccurred "", "", none⟩
      have hkeys : (keys.map fun k => (k, filler)).map (·.1) = keys := by
        rw [List.map_map]
        exact List.map_id _
      have hmem := Finset.ext_iff.mp (h (keys.map fun k => (k, filler))).1 x
      rw [BoundedFifo.mem_keys, BoundedFifo.mem_keys, BoundedFifo.order_insertAll,
        BoundedFifo.order_insertAll, hkeys, hwoken, hwcap, hcap] at hmem
      exact hmem
  · intro horder further
    refine ⟨?_, ?_⟩
    · ext x
      rw [BoundedFifo.mem_keys, BoundedFifo.mem_keys, BoundedFifo.order_insertAll,
        BoundedFifo.order_insertAll, hwoken, hwcap, hcap, horder]
    · ext x
      rw [BoundedFifo.mem_keys, order_ringAfter_insertAll, List.mem_toFinset]

/-- The `TokenCreated` a redelivered message would create again. -/
def createdFor (id : String) : DedupKey × PersistedEvent :=
  ((⟨"inbox"⟩, id), ⟨0, ⟨0⟩,
    .tokenCreated (.new ⟨0⟩ ⟨0⟩ .unit) ⟨"inbox"⟩ none none none (some id), "", none⟩)

/-- A hash map of the two entries, iterated youngest first. -/
def youngestFirst : Iteration (ringAfter 2 [createdFor "old", createdFor "young"]).map where
  map := ((∅ : HashMap DedupKey PersistedEvent).insert (createdFor "old").1 (createdFor "old").2).insert
    (createdFor "young").1 (createdFor "young").2
  toMap := by decide

/-- **A wake can lose the window.** At capacity two, the ring of `old` and `young` iterated youngest
first evicts `young` on the next insert, where the ring that never hibernated evicts `old`. -/
theorem dedupWindow_lost : ¬ WindowSurvives 2 [createdFor "old", createdFor "young"] youngestFirst := by
  intro h
  have hmem := Finset.ext_iff.mp (h [createdFor "next"]).1 (createdFor "young").1
  rw [BoundedFifo.mem_keys, BoundedFifo.mem_keys] at hmem
  revert hmem
  decide

end Mekhan

/-!
## Base and tail in step

Whatever is appended, loaded, evicted and seeded, base and tail together stand for everything that was ever stored;
but a seeded ring has its entries in the order in which the snapshot happened to list them.

* `baseTail_inStep` — in every run whose seeds list the window in its order, base and tail are in step in every state,
  and they stay in step in the next seed exactly when it lists the window in its order
* `seed_outOfStep` — a seed that lists two entries the other way round
-/

namespace Mekhan

open Infra NetSnapshot

/-! ## The window of a history -/

/-- The entries that a history makes, oldest first. -/
def dedupEntriesOf (hist : List PersistedEvent) : List (DedupKey × PersistedEvent) :=
  hist.filterMap fun e => e.event.dedupKey?.map fun key => (key, e)

theorem foldl_absorbDedup_eq : ∀ (hist : List PersistedEvent) (seed : BoundedDedup),
    hist.foldl absorbDedup seed = seed.insertAll (dedupEntriesOf hist)
  | [], _ => rfl
  | e :: hist, seed => by
    rw [List.foldl_cons, foldl_absorbDedup_eq hist, absorbDedup, dedupEntriesOf, dedupEntriesOf]
    cases hkey : e.event.dedupKey? with
    | none => rw [List.filterMap_cons_none (by rw [hkey]; rfl)]
    | some key => rw [List.filterMap_cons_some (by rw [hkey]; rfl)]; rfl

/-- The keys that a ring keeps of a history, oldest first. -/
def windowOf (cap : Nat) (hist : List PersistedEvent) : List DedupKey :=
  ((dedupEntriesOf hist).map (·.1)).foldl (push (max cap 1)) []

/-- The last keys that a snapshot lists, as many as the new ring takes, are the window of the history in its order. -/
def ListsWindow (hist : List PersistedEvent) (cap : Nat) (listing : List DedupKey) : Prop :=
  listing.rtake (max cap 1) = windowOf cap hist

instance (hist : List PersistedEvent) (cap : Nat) (listing : List DedupKey) : Decidable (ListsWindow hist cap listing) :=
  inferInstanceAs (Decidable (_ = _))

theorem order_foldl_absorbDedup (cap : Nat) (hist : List PersistedEvent) :
    (hist.foldl absorbDedup (.withCap cap)).order = windowOf cap hist := by
  rw [foldl_absorbDedup_eq, BoundedFifo.order_insertAll]
  rfl

theorem order_restoreDedup_rtake (r : BoundedDedup) (it : Iteration r.map) (cap : Nat) :
    (restoreDedup (dedupEntries r it) cap).order = it.map.keys.rtake (max cap 1) := by
  have hnd : ([] ++ it.map.keys).Nodup := it.map.nodupKeys
  have hfold := foldl_push_fresh (max cap 1) hnd
  rw [restoreDedup, toPair_dedupEntries, BoundedFifo.order_insertAll, map_fst_toPairs]
  simpa using hfold

theorem get_of_mem_iteration {r : BoundedDedup} (it : Iteration r.map) {key : DedupKey} {e : PersistedEvent}
    (h : (key, e) ∈ it.map.toPairs) : r.get key = some e := by
  rw [BoundedFifo.get, ← it.toMap]
  exact AList.mem_lookup_iff.mpr (HashMap.mem_toPairs.mp h)

/-- **The ring that is read back is that of the history exactly when its window is listed in order.** -/
theorem restoreDedup_eq_iff {r : BoundedDedup} {hist : List PersistedEvent} {cap cap' : Nat}
    (hr : r = hist.foldl absorbDedup (.withCap cap')) (it : Iteration r.map) :
    restoreDedup (dedupEntries r it) cap = hist.foldl absorbDedup (.withCap cap) ↔
      ListsWindow hist cap it.map.keys := by
  have horder := order_restoreDedup_rtake r it cap
  constructor
  · intro heq
    rw [ListsWindow, ← horder, heq, order_foldl_absorbDedup]
  · intro hlists
    rw [ListsWindow, ← horder, ← order_foldl_absorbDedup] at hlists
    rw [foldl_absorbDedup_eq, restoreDedup, toPair_dedupEntries] at hlists ⊢
    refine BoundedFifo.insertAll_eq_of_order (fun k v hmem => ?_) hlists
    have hget := get_of_mem_iteration it hmem
    rw [hr, foldl_absorbDedup_eq] at hget
    exact BoundedFifo.lookup_of_get_insertAll _ hget

/-! ## Runs -/

/-- Base and tail stand together for everything that was ever stored. -/
structure InStep (fmt : EventFormat) (s : MemoryEventStore) (hist : List PersistedEvent) : Prop where
  marking : projectOnto s.inner.baseMarking s.inner.tail = projectMarking hist
  dedup : s.inner.dedupSeedFull = hist.foldl absorbDedup (.withCap s.dedupCap)
  len : s.inner.baseCount + s.inner.tail.length = hist.length
  bytes : s.inner.tailBytes = (s.inner.tail.map fmt.serLen).sum
  baseRing : s.inner.baseDedup.InOrder
  fullRing : s.inner.dedupSeedFull.InOrder

section

variable {fmt : EventFormat} {loads : MemoryEventStore → PersistedEvent → Prop}
  {wakes : List PersistedEvent → Nat → List DedupKey → Prop} {s : MemoryEventStore} {hist : List PersistedEvent}

theorem tailBytes_evictWhile {cap : Nat} : ∀ {tail : List PersistedEvent} {g : Inner}, g.tail = tail →
    g.tailBytes = (tail.map fmt.serLen).sum →
      (Inner.evictWhile fmt cap tail g).tailBytes = ((Inner.evictWhile fmt cap tail g).tail.map fmt.serLen).sum
  | [], _, htail, h => (htail.symm ▸ h :)
  | [_], _, htail, h => (htail.symm ▸ h :)
  | old :: next :: rest, g, htail, h => by
    rw [Inner.evictWhile]
    split
    · refine tailBytes_evictWhile rfl ?_
      show g.tailBytes - fmt.serLen old = _
      rw [h, List.map_cons, List.sum_cons, Nat.add_sub_cancel_left]
    · rw [htail]
      exact h

theorem tailBytes_pushTail {g : Inner} (h : g.tailBytes = (g.tail.map fmt.serLen).sum) (e : PersistedEvent)
    (cap : Nat) : (g.pushTail fmt e cap).tailBytes = ((g.pushTail fmt e cap).tail.map fmt.serLen).sum := by
  refine tailBytes_evictWhile rfl ?_
  rw [List.map_append, List.sum_append, ← h]
  rfl

theorem Stored.tailBytes (h : Stored fmt loads wakes s hist) :
    s.inner.tailBytes = (s.inner.tail.map fmt.serLen).sum := by
  induction h with
  | new => rfl
  | append _ now event ih =>
    apply tailBytes_pushTail
    exact ih
  | load _ e streamSeq _ ih =>
    apply tailBytes_pushTail
    exact ih
  | wake => rfl

theorem Stored.representsDedup (h : Stored fmt loads ListsWindow s hist) :
    s.inner.RepresentsDedup s.dedupCap hist := by
  induction h with
  | new tailCap dedupCap => exact Checkpoint.empty ..
  | append _ now event ih => exact MemoryEventStore.append_representsDedup ih now event
  | load _ e streamSeq _ ih => exact MemoryEventStore.loadExistingEvent_representsDedup ih e streamSeq
  | @wake s hist h tailCap dedupCap it topology hwake ih =>
    have hring : (s.wake tailCap dedupCap it topology).inner.baseDedup = hist.foldl absorbDedup (.withCap dedupCap) :=
      (restoreDedup_eq_iff ih.dedupSeedFull_eq it).mpr hwake
    have hcount : (s.wake tailCap dedupCap it topology).inner.baseCount = hist.length := h.represents.len_eq
    rw [Inner.RepresentsDedup, hring, hcount]
    exact Checkpoint.all ..

theorem Stored.inStep (h : Stored fmt loads wakes s hist)
    (hdedup : s.inner.dedupSeedFull = hist.foldl absorbDedup (.withCap s.dedupCap)) : InStep fmt s hist where
  marking := h.represents.project_eq
  dedup := hdedup
  len := h.represents.len_eq
  bytes := h.tailBytes
  baseRing := BoundedFifo.inOrder _
  fullRing := BoundedFifo.inOrder _

/-- **Base and tail are in step in every state of a run whose seeds list the window in its order**, and the next seed
keeps them in step exactly when it does so too. -/
theorem baseTail_inStep (h : Stored fmt loads ListsWindow s hist) : InStep fmt s hist ∧
      ∀ tailCap dedupCap (it : Iteration s.inner.snapshotInputsNow.dedup.map) topology,
        InStep fmt (s.wake tailCap dedupCap it topology) hist ↔ ListsWindow hist dedupCap it.map.keys := by
  have hdedup := h.representsDedup.dedupSeedFull_eq
  refine ⟨h.inStep hdedup, fun tailCap dedupCap it topology => ⟨fun hstep => ?_, fun hlists => ?_⟩⟩
  · exact (restoreDedup_eq_iff hdedup it).mp hstep.dedup
  · have hwake := h.wake tailCap dedupCap it topology hlists
    exact hwake.inStep hwake.representsDedup.dedupSeedFull_eq

end

/-! ## Two entries -/

def arrived (id : String) : PersistedEvent := (createdFor id).2

/-- A store that has evicted `old` and holds `young`. -/
def twoArrived : MemoryEventStore :=
  ((MemoryEventStore.withCaps 1 2).loadExistingEvent .plain (arrived "old") 0).loadExistingEvent .plain
    (arrived "young") 1

theorem stored_twoArrived {wakes : List PersistedEvent → Nat → List DedupKey → Prop} :
    Stored .plain (fun _ _ => True) wakes twoArrived [arrived "old", arrived "young"] :=
  ((Stored.new 1 2).load (arrived "old") 0 trivial).load (arrived "young") 1 trivial

/-- The ring iterated in the order of two of its keys. -/
def twoInOrder (first second : String) : HashMap DedupKey PersistedEvent :=
  ((∅ : HashMap DedupKey PersistedEvent).insert (createdFor second).1 (arrived second)).insert
    (createdFor first).1 (arrived first)

/-- Listed oldest first, the entries survive the wake. -/
theorem baseTail_inStep_oldestFirst : ∃ it : Iteration twoArrived.inner.snapshotInputsNow.dedup.map,
      InStep .plain (twoArrived.wake 1 2 it none) [arrived "old", arrived "young"] :=
  ⟨⟨twoInOrder "old" "young", by decide⟩, ((baseTail_inStep stored_twoArrived).2 1 2 _ none).mpr (by decide)⟩

/-- **A seed can bring base and tail out of step.** The ring of `old` and `young` is listed youngest first; the next
event pushes `young` out of the woken ring, and `old` out of the ring of the history. -/
theorem seed_outOfStep :
    ¬ ∀ s hist, Stored .plain (fun _ _ => True) (fun _ _ _ => True) s hist → InStep .plain s hist := by
  intro h
  have hwake : Stored .plain (fun _ _ => True) (fun _ _ _ => True)
      (twoArrived.wake 1 2 ⟨twoInOrder "young" "old", by decide⟩ none) [arrived "old", arrived "young"] :=
    stored_twoArrived.wake 1 2 _ none trivial
  have hrun := hwake.load (arrived "next") 2 trivial
  have hget := congrArg (·.get (createdFor "young").1) (h _ _ hrun).dedup
  revert hget
  decide

end Mekhan

/-!
## The hash chain of a bounded store

The link of an event to the one before it is made from the chain tip alone, which eviction and a wake carry over.

* `verifyEventChainFrom_suffix` — what is left of a chain verifies, and its first event has the hash of the last
  one that is gone
* `chainValidity_bounded` — in every run everything that was ever stored is one chain from genesis on, hence so is the
  tail, from the evicted base
-/

namespace Mekhan

open Infra

variable {fmt : EventFormat}

/-! ## Suffixes of a chain -/

/-- A chain that goes on from `prev`: each event has its hash, links to the one before it, and follows it in
sequence. -/
def Chained (fmt : EventFormat) : Option PersistedEvent → List PersistedEvent → Prop
  | _, [] => True
  | prev, e :: es =>
    e.verifyHash fmt = true ∧ e.previousHash = prev.map (·.hash) ∧
      e.sequence = (prev.map (·.sequence + 1)).getD 0 ∧ Chained fmt (some e) es

theorem getLast?_cons_or (e : PersistedEvent) (es : List PersistedEvent) (prev : Option PersistedEvent) :
    (e :: es).getLast?.or prev = es.getLast?.or (some e) := by
  cases es with
  | nil => rfl
  | cons _ _ => rw [List.getLast?_cons_cons, List.getLast?_eq_some_getLast (List.cons_ne_nil _ _)]; rfl

theorem chained_append : ∀ {es fs : List PersistedEvent} {prev : Option PersistedEvent},
    Chained fmt prev (es ++ fs) ↔ Chained fmt prev es ∧ Chained fmt (es.getLast?.or prev) fs
  | [], fs, prev => by simp [Chained]
  | e :: es, fs, prev => by
    rw [List.cons_append, Chained, Chained, chained_append, getLast?_cons_or]
    simp only [and_assoc]

variable {prev : Option PersistedEvent}

theorem checkLink_strict {i : Nat} (hi : (prev.map (·.sequence + 1)).getD 0 = i) (e : PersistedEvent) :
    checkLink fmt true i prev e = true ↔
      e.verifyHash fmt = true ∧ e.previousHash = prev.map (·.hash) ∧ e.sequence = i := by
  cases prev with
  | none =>
    obtain rfl : 0 = i := hi
    simp [checkLink]
  | some p =>
    obtain rfl : p.sequence + 1 = i := hi
    simp [checkLink]

theorem verifyFrom_strict : ∀ {events : List PersistedEvent} {i : Nat} {prev : Option PersistedEvent},
    (prev.map (·.sequence + 1)).getD 0 = i → (verifyFrom fmt true i prev events = true ↔ Chained fmt prev events)
  | [], _, _, _ => by simp [verifyFrom, Chained]
  | e :: events, i, prev, hi => by
    rw [verifyFrom, Chained, Bool.and_eq_true, checkLink_strict hi, hi]
    constructor
    · rintro ⟨⟨hhash, hprev, hseq⟩, hrest⟩
      exact ⟨hhash, hprev, hseq, (verifyFrom_strict (by rw [← hseq]; rfl)).mp hrest⟩
    · rintro ⟨hhash, hprev, hseq, hrest⟩
      exact ⟨⟨hhash, hprev, hseq⟩, (verifyFrom_strict (by rw [← hseq]; rfl)).mpr hrest⟩

theorem verifyEventChain_iff (events : List PersistedEvent) :
    verifyEventChain fmt events = true ↔ Chained fmt none events :=
  verifyFrom_strict rfl

theorem verifyFrom_of_linked : ∀ {events : List PersistedEvent} {i : Nat} {p : PersistedEvent},
    Chained fmt (some p) events → verifyFrom fmt false i (some p) events = true
  | [], _, _, _ => rfl
  | e :: events, i, p, ⟨hhash, hprev, hseq, hrest⟩ => by
    rw [verifyFrom, verifyFrom_of_linked hrest, Bool.and_true, checkLink, hhash]
    simp [hprev, show e.sequence = p.sequence + 1 from hseq]

theorem verifyEventChainFrom_of_linked : ∀ {events : List PersistedEvent},
    Chained fmt prev events → verifyEventChainFrom fmt events = true
  | [], _ => rfl
  | e :: events, ⟨hhash, hprev, hseq, hrest⟩ => by
    show verifyFrom fmt false 0 none (e :: events) = true
    rw [verifyFrom, verifyFrom_of_linked hrest, Bool.and_true, checkLink, hhash]
    cases prev with
    | none => simp [show e.previousHash = none from hprev, show e.sequence = 0 from hseq]
    | some p => simp [show e.previousHash = some p.hash from hprev, show e.sequence = p.sequence + 1 from hseq]

/-- **A suffix of a chain verifies, and its first event has the hash of the event before it.** -/
theorem verifyEventChainFrom_suffix {gone left : List PersistedEvent}
    (h : verifyEventChain fmt (gone ++ left) = true) : verifyEventChainFrom fmt left = true ∧
      ∀ e, left.head? = some e → e.previousHash = gone.getLast?.map (·.hash) := by
  have hlinked := (chained_append.mp ((verifyEventChain_iff _).mp h)).2
  rw [Option.or_none] at hlinked
  refine ⟨verifyEventChainFrom_of_linked hlinked, fun e he => ?_⟩
  cases left with
  | nil => cases he
  | cons e' left =>
    obtain rfl : e' = e := by simpa using he
    exact hlinked.2.1

/-! ## Runs -/

theorem chainTip_eq (hist : List PersistedEvent) : chainTip hist = hist.getLast?.map (·.hash) := by
  rcases List.eq_nil_or_concat hist with rfl | ⟨init, e, rfl⟩
  · rfl
  · rw [List.concat_eq_append, chainTip_append_singleton, List.getLast?_concat]
    rfl

/-- The event is next in the chain of the store. -/
def Continues (fmt : EventFormat) (s : MemoryEventStore) (e : PersistedEvent) : Prop :=
  e.verifyHash fmt = true ∧ e.previousHash = s.inner.chainTipHash ∧ e.sequence = s.inner.nextSequence

variable {wakes : List PersistedEvent → Nat → List DedupKey → Prop} {s : MemoryEventStore}
  {hist : List PersistedEvent}

theorem Chained.nextSequence : ∀ {events : List PersistedEvent} {prev : Option PersistedEvent},
    Chained fmt prev events →
      ((events.getLast?.or prev).map (·.sequence + 1)).getD 0 = (prev.map (·.sequence + 1)).getD 0 + events.length
  | [], prev, _ => by simp
  | e :: events, prev, ⟨_, _, hseq, hrest⟩ => by
    have ih := hrest.nextSequence
    rw [getLast?_cons_or, ih, ← hseq, List.length_cons, Option.map_some, Option.getD_some]
    omega

theorem chained_concat {e : PersistedEvent} (h : Chained fmt none hist) (hrep : s.inner.Represents hist)
    (hnext : s.inner.nextSequence = hist.length) (he : Continues fmt s e) : Chained fmt none (hist ++ [e]) := by
  obtain ⟨hhash, hprev, hseq⟩ := he
  have hlen := h.nextSequence
  rw [Option.or_none, Option.map_none, Option.getD_none, Nat.zero_add] at hlen
  refine chained_append.mpr ⟨h, hhash, ?_, ?_, trivial⟩
  · rw [hprev, hrep.chainTipHash_eq, chainTip_eq, Option.or_none]
  · rw [hseq, hnext, Option.or_none, hlen]

theorem continues_append (fmt : EventFormat) (s : MemoryEventStore) (now : DateTime) (event : DomainEvent) :
    Continues fmt s (s.append fmt now event).1 :=
  ⟨PersistedEvent.verifyHash_new .., rfl, rfl⟩

/-- In every run everything that was ever stored is one chain, and the next sequence number is its length. -/
theorem Stored.linked (h : Stored fmt (Continues fmt) wakes s hist) :
    Chained fmt none hist ∧ s.inner.nextSequence = hist.length := by
  induction h with
  | new => exact ⟨trivial, rfl⟩
  | @append s hist h now event ih =>
    refine ⟨chained_concat ih.1 h.represents ih.2 (continues_append fmt s now event), ?_⟩
    rw [List.length_append, List.length_singleton, ← ih.2]
    exact Inner.pushTail_nextSequence ..
  | @load s hist h e streamSeq hload ih =>
    refine ⟨chained_concat ih.1 h.represents ih.2 hload, ?_⟩
    have hseq : e.sequence = hist.length := hload.2.2.trans ih.2
    rw [MemoryEventStore.loadExistingEvent, Inner.pushTail_nextSequence, List.length_append, List.length_singleton]
    dsimp only
    omega
  | wake _ _ _ _ _ _ ih => exact ih

/-- **The chain is valid under bounded storage**: in every run of appends, loads of what is next, evictions and
wakes, all events ever stored are one chain, the tail verifies from the evicted base on, and the next append links to
the event stored last; and a suffix of any chain verifies from the event before it on. -/
theorem chainValidity_bounded (fmt : EventFormat) : (∀ wakes s hist, Stored fmt (Continues fmt) wakes s hist →
      verifyEventChain fmt hist = true ∧ verifyEventChainFrom fmt s.inner.tail = true ∧
        (∀ e, s.inner.tail.head? = some e → e.previousHash = s.inner.baseLastHash) ∧
        ∀ now event, (s.append fmt now event).1.previousHash = hist.getLast?.map (·.hash) ∧
          (s.append fmt now event).1.sequence = hist.length) ∧
    ∀ gone left, verifyEventChain fmt (gone ++ left) = true → verifyEventChainFrom fmt left = true ∧
        ∀ e, left.head? = some e → e.previousHash = gone.getLast?.map (·.hash) := by
  refine ⟨fun wakes s hist h => ?_, fun gone left hchain => verifyEventChainFrom_suffix hchain⟩
  have hrep := h.represents
  obtain ⟨hlinked, hnext⟩ := h.linked
  have hchain := (verifyEventChain_iff hist).mpr hlinked
  -- The tail is what is left of the history, and the base has the tip of what is gone.
  have hsplit : hist.take s.inner.baseCount ++ s.inner.tail = hist := by
    rw [hrep.tip.tailEq, List.take_append_drop]
  have hbase : s.inner.baseLastHash = (hist.take s.inner.baseCount).getLast?.map (·.hash) := by
    rw [hrep.tip.baseEq, ← chainTip_eq]
    rfl
  rw [← hsplit] at hchain
  obtain ⟨htail, hanchor⟩ := verifyEventChainFrom_suffix hchain
  refine ⟨hsplit ▸ hchain, htail, fun e he => (hanchor e he).trans hbase.symm, fun now event => ⟨?_, hnext⟩⟩
  rw [← chainTip_eq, ← hrep.chainTipHash_eq]
  rfl

end Mekhan

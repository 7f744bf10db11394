import Mekhan.Infrastructure.MemoryEventStore

/-!
# The incremental marking cache

`advance_marking` of `application/src/evaluation.rs`. The store and the cached pair have a lock each,
and a call takes them one after the other, so other calls and appends may run between any two of its
acquisitions. `AdvanceState` names what a call holds between acquisitions and `advanceStep` is what
it does under the next one.

`Call` adds two ghosts to that state: how long the history was when the call read its cursor, and the
positions of the events it absorbed into the cache. `Call.advance_spec` says what one step does, in
terms of the complete history the store stands for.
-/

namespace Mekhan

open Infra

inductive MarkingDelta where
  | unchanged
  | applied (events : List PersistedEvent)
  | rebuilt
  deriving DecidableEq

/-- The cached pair: a cursor in storage order and the marking there. -/
abbrev MarkingCache := Option (Nat × Marking)

/-- What a call holds between two lock acquisitions. -/
inductive AdvanceState where
  | start
  | lenRead (currentIdx : Nat)
  | stale (cachedIdx : Nat) (cachedMarking : Marking)
  | sliced (cachedIdx : Nat) (cachedMarking : Marking) (newEvents : List PersistedEvent)
  | miss
  | based (base : Marking) (tail : List PersistedEvent) (extent : Nat)
  | returned (marking : Marking) (delta : MarkingDelta)
  deriving DecidableEq

/-- The marking a slice is folded onto, under the write lock: the cached one, in place, if its cursor
is still the one we sliced from, else our own snapshot (and the last writer wins). -/
def foldTarget (cache : MarkingCache) (cachedIdx : Nat) (cachedMarking : Marking) : Marking :=
  match cache with
  | some (idx, marking) => if idx = cachedIdx then marking else cachedMarking
  | none => cachedMarking

/-- One step of a call: the next lock acquisition and what follows it up to the one after. -/
def advanceStep (g : Inner) (cache : MarkingCache) : AdvanceState →
    Option (MarkingCache × AdvanceState)
  | .start => some (cache, .lenRead g.len)
  | .lenRead currentIdx =>
    match cache with
    | some (cachedIdx, cachedMarking) =>
      if cachedIdx = currentIdx then some (cache, .returned cachedMarking .unchanged)
      else some (cache, .stale cachedIdx cachedMarking)
    | none => some (cache, .miss)
  | .stale cachedIdx cachedMarking =>
    match g.eventsFromChecked cachedIdx with
    | none => some (cache, .miss)
    | some newEvents => some (cache, .sliced cachedIdx cachedMarking newEvents)
  | .sliced cachedIdx cachedMarking newEvents =>
    let folded := projectOnto (foldTarget cache cachedIdx cachedMarking) newEvents
    some (some (cachedIdx + newEvents.length, folded), .returned folded (.applied newEvents))
  | .miss => some (cache, .based g.markingBase.1 g.markingBase.2.1 g.markingBase.2.2)
  | .based base tail extent =>
    some (some (extent, projectOnto base tail), .returned (projectOnto base tail) .rebuilt)
  | .returned .. => none

structure Call where
  state : AdvanceState
  /-- Length of the complete history when the call read its cursor. -/
  seen : Nat
  /-- Storage positions of the events the returned delta stands for. -/
  span : Nat × Nat

namespace Call

def fresh : Call := ⟨.start, 0, (0, 0)⟩

/-- The positions a step that returns accounts for. -/
def spanAfter (c : Call) : Nat × Nat :=
  match c.state with
  | .lenRead currentIdx => (currentIdx, currentIdx)
  | .sliced cachedIdx _ newEvents => (cachedIdx, cachedIdx + newEvents.length)
  | .based _ _ extent => (0, extent)
  | _ => c.span

/-- One step of the call; `histLen` is the length of the complete history at that moment. -/
def advance (g : Inner) (cache : MarkingCache) (histLen : Nat) (c : Call) :
    Option (MarkingCache × Call) :=
  (advanceStep g cache c.state).map fun r =>
    (r.1, ⟨r.2, if c.state = .start then histLen else c.seen, c.spanAfter⟩)

end Call

/-- Everything one step of a call can do to the cache and the call. -/
inductive Call.Advances (g : Inner) (cache : MarkingCache) (histLen seen : Nat) (span : Nat × Nat) :
    AdvanceState → MarkingCache → Call → Prop where
  | readLen : Advances g cache histLen seen span .start cache ⟨.lenRead g.len, histLen, span⟩
  | hit {n : Nat} {m : Marking} (hcache : cache = some (n, m)) :
    Advances g cache histLen seen span (.lenRead n) cache ⟨.returned m .unchanged, seen, (n, n)⟩
  | behind {n idx : Nat} {m : Marking} (hcache : cache = some (idx, m)) :
    Advances g cache histLen seen span (.lenRead n) cache ⟨.stale idx m, seen, (n, n)⟩
  | cold {n : Nat} : Advances g cache histLen seen span (.lenRead n) cache ⟨.miss, seen, (n, n)⟩
  | evicted {idx : Nat} {m : Marking} :
    Advances g cache histLen seen span (.stale idx m) cache ⟨.miss, seen, span⟩
  | slice {idx : Nat} {m : Marking} {events : List PersistedEvent}
      (hslice : g.eventsFromChecked idx = some events) :
    Advances g cache histLen seen span (.stale idx m) cache ⟨.sliced idx m events, seen, span⟩
  | fold {idx : Nat} {m folded : Marking} {events : List PersistedEvent}
      (hfolded : folded = projectOnto (foldTarget cache idx m) events) :
    Advances g cache histLen seen span (.sliced idx m events)
      (some (idx + events.length, folded))
      ⟨.returned folded (.applied events), seen, (idx, idx + events.length)⟩
  | readBase :
    Advances g cache histLen seen span .miss cache
      ⟨.based g.markingBase.1 g.markingBase.2.1 g.markingBase.2.2, seen, span⟩
  | rebuild {base m : Marking} {tail : List PersistedEvent} {extent : Nat}
      (hm : m = projectOnto base tail) :
    Advances g cache histLen seen span (.based base tail extent) (some (extent, m))
      ⟨.returned m .rebuilt, seen, (0, extent)⟩

variable {hist : List PersistedEvent} {cache : MarkingCache} {g : Inner} {c : Call} {m : Marking}

variable {cache' : MarkingCache} {c' : Call} {idx k l : Nat}

theorem Call.advance_cases {histLen : Nat} (h : c.advance g cache histLen = some (cache', c')) :
    Advances g cache histLen c.seen c.span c.state cache' c' := by
  obtain ⟨state, seen, span⟩ := c
  simp only [advance, Option.map_eq_some_iff] at h
  obtain ⟨⟨k, st⟩, hstep, heq⟩ := h
  cases heq
  cases state with
  | start =>
    cases hstep
    exact .readLen
  | lenRead n =>
    simp only [advanceStep] at hstep
    split at hstep
    · split at hstep
      · next hn =>
        cases hstep
        exact .hit (hn ▸ rfl)
      · cases hstep
        exact .behind rfl
    · cases hstep
      exact .cold
  | stale idx m =>
    simp only [advanceStep] at hstep
    split at hstep
    · cases hstep
      exact .evicted
    · next events hslice =>
      cases hstep
      exact .slice hslice
  | sliced idx m events =>
    cases hstep
    exact .fold rfl
  | miss =>
    cases hstep
    exact .readBase
  | based base tail extent =>
    cases hstep
    exact .rebuild rfl
  | returned m delta => exact absurd hstep (by simp [advanceStep])

/-! ## Invariants of the cache and of a call -/

/-- `m` is the replay of the first `k` events of the history. -/
def ReplayOf (hist : List PersistedEvent) (k : Nat) (m : Marking) : Prop :=
  k ≤ hist.length ∧ m = projectMarking (hist.take k)

theorem ReplayOf.append (h : ReplayOf hist k m) (e : PersistedEvent) : ReplayOf (hist ++ [e]) k m := by
  refine ⟨?_, ?_⟩
  · rw [List.length_append]
    exact Nat.le_add_right_of_le h.1
  · rw [List.take_append_of_le_length h.1]
    exact h.2

/-- Folding the events between two positions onto the replay of the first gives the replay of the
second. -/
theorem ReplayOf.fold (h : ReplayOf hist k m) (hkl : k ≤ l) (hl : l ≤ hist.length) :
    ReplayOf hist l (projectOnto m ((hist.take l).drop k)) := by
  refine ⟨hl, ?_⟩
  have hsplit : hist.take k ++ (hist.take l).drop k = hist.take l := by
    have htake : hist.take k = (hist.take l).take k := by
      rw [List.take_take, Nat.min_eq_left hkl]
    rw [htake, List.take_append_drop]
  rw [h.2, projectOnto_projectMarking, hsplit]

def CacheInv (hist : List PersistedEvent) (cache : MarkingCache) : Prop :=
  ∀ idx m, cache = some (idx, m) → ReplayOf hist idx m

/-- The events a returned delta carries are those of its span. -/
def DeltaInv (hist : List PersistedEvent) (span : Nat × Nat) : MarkingDelta → Prop
  | .unchanged => span.1 = span.2
  | .applied events => span.1 ≤ span.2 ∧ events = (hist.take span.2).drop span.1
  | .rebuilt => span.1 = 0

/-- What a call knows about the complete history. -/
def CallInv (hist : List PersistedEvent) (c : Call) : Prop :=
  match c.state with
  | .start => True
  | .lenRead n => n = c.seen ∧ n ≤ hist.length
  | .stale idx m => c.seen ≤ hist.length ∧ ReplayOf hist idx m
  | .sliced idx m events => ReplayOf hist idx m ∧ c.seen ≤ idx + events.length ∧
      idx + events.length ≤ hist.length ∧ events = (hist.take (idx + events.length)).drop idx
  | .miss => c.seen ≤ hist.length
  | .based base tail extent => c.seen ≤ extent ∧ ReplayOf hist extent (projectOnto base tail)
  | .returned m delta => c.seen ≤ c.span.2 ∧ ReplayOf hist c.span.2 m ∧ DeltaInv hist c.span delta

theorem CacheInv.append (h : CacheInv hist cache) (e : PersistedEvent) : CacheInv (hist ++ [e]) cache :=
  fun idx m hc => (h idx m hc).append e

theorem take_append_drop_eq (hl : l ≤ hist.length)
    (e : PersistedEvent) (k : Nat) : ((hist ++ [e]).take l).drop k = (hist.take l).drop k := by
  rw [List.take_append_of_le_length hl]

theorem DeltaInv.append {span : Nat × Nat} {delta : MarkingDelta}
    (h : DeltaInv hist span delta) (hl : span.2 ≤ hist.length) (e : PersistedEvent) :
    DeltaInv (hist ++ [e]) span delta := by
  cases delta with
  | unchanged => exact h
  | applied events => exact ⟨h.1, by rw [take_append_drop_eq hl]; exact h.2⟩
  | rebuilt => exact h

theorem CallInv.append (h : CallInv hist c) (e : PersistedEvent) : CallInv (hist ++ [e]) c := by
  have hlen : hist.length ≤ (hist ++ [e]).length := by simp
  unfold CallInv at h ⊢
  cases hst : c.state with
  | start => trivial
  | lenRead n =>
    simp only [hst] at h ⊢
    exact ⟨h.1, h.2.trans hlen⟩
  | stale idx m =>
    simp only [hst] at h ⊢
    exact ⟨h.1.trans hlen, h.2.append e⟩
  | sliced idx m events =>
    simp only [hst] at h ⊢
    refine ⟨h.1.append e, h.2.1, h.2.2.1.trans hlen, ?_⟩
    rw [take_append_drop_eq h.2.2.1]
    exact h.2.2.2
  | miss =>
    simp only [hst] at h ⊢
    exact h.trans hlen
  | based base tail extent =>
    simp only [hst] at h ⊢
    exact ⟨h.1, h.2.append e⟩
  | returned m delta =>
    simp only [hst] at h ⊢
    exact ⟨h.1, h.2.1.append e, h.2.2.append h.2.1.1 e⟩

/-! ## One step of a call -/

theorem eventsFromChecked_eq {events : List PersistedEvent} (hg : g.Represents hist)
    (h : g.eventsFromChecked idx = some events) : events = hist.drop idx := by
  unfold Inner.eventsFromChecked at h
  split at h
  · cases h
  · next hidx =>
    rw [← Option.some.inj h]
    exact hg.marking.slice (Nat.le_of_not_lt hidx)

theorem foldTarget_replayOf (hcache : CacheInv hist cache) (hm : ReplayOf hist idx m) :
    ReplayOf hist idx (foldTarget cache idx m) := by
  unfold foldTarget
  split
  · split
    · next hi => exact hi ▸ hcache _ _ rfl
    · exact hm
  · exact hm

/-- **One step of a call keeps the cache a replay of a prefix of the complete history, and what the
call holds true of it.** -/
theorem Call.advance_spec (hg : g.Represents hist) (hcache : CacheInv hist cache) (hc : CallInv hist c)
    (h : c.advance g cache hist.length = some (cache', c')) : CacheInv hist cache' ∧ CallInv hist c' := by
  have hstep := Call.advance_cases h
  obtain ⟨state, seen, span⟩ := c
  cases hstep with
  | readLen => exact ⟨hcache, hg.len_eq, hg.len_eq.le⟩
  | hit hhit => exact ⟨hcache, hc.1.ge, hcache _ _ hhit, rfl⟩
  | behind hbehind => exact ⟨hcache, hc.1 ▸ hc.2, hcache _ _ hbehind⟩
  | cold => exact ⟨hcache, hc.1 ▸ hc.2⟩
  | evicted => exact ⟨hcache, hc.1⟩
  | @slice idx m events hslice =>
    obtain ⟨hseen, hm⟩ := hc
    have hdrop := eventsFromChecked_eq hg hslice
    have hext : idx + events.length = hist.length := by
      have hidx := hm.1
      rw [hdrop, List.length_drop]
      omega
    refine ⟨hcache, hm, hext ▸ hseen, hext.le, ?_⟩
    rw [hext, List.take_length]
    exact hdrop
  | @fold idx m folded events hfolded =>
    obtain ⟨hm, hseen, hle, hev⟩ := hc
    -- Whichever marking the slice is folded onto, it is the replay up to the cursor.
    have hreplay := (foldTarget_replayOf hcache hm).fold (Nat.le_add_right idx events.length) hle
    rw [← hev, ← hfolded] at hreplay
    refine ⟨?_, hseen, hreplay, Nat.le_add_right .., hev⟩
    intro i k hk
    cases hk
    exact hreplay
  | readBase =>
    have hlen : g.baseCount + g.tail.length = hist.length := hg.len_eq
    have hseen : seen ≤ hist.length := hc
    refine ⟨hcache, hseen.trans hlen.ge, hlen.le, ?_⟩
    simp only [Inner.markingBase]
    rw [hlen, List.take_length]
    exact hg.project_eq
  | rebuild hm =>
    obtain ⟨hseen, hreplay⟩ := hc
    rw [← hm] at hreplay
    refine ⟨?_, hseen, hreplay, rfl⟩
    intro i k hk
    cases hk
    exact hreplay

end Mekhan

import Mekhan.Application.Evaluation
import Mekhan.Infra.Runs

/-!
# The binding memo against the marking of a pass

One evaluation pass at a time, any number of concurrent `get_marking_cached` readers, and the store,
marking cache and memo they share. A run interleaves appends and loads with the single steps of the
readers and of the pass.

Two orders of steps leave the memo behind the marking. A reader absorbs events into the cache and has
not reconciled yet when the pass snapshots the memo; or a reader reconciles events that the marking of
the pass in flight does not contain, and the pass then marks transitions empty at that older marking.
-/

namespace Mekhan

open Infra

/-! ## What a call has absorbed and what it will see -/

namespace Call

/-- The call has moved the cache over position `k` and not reconciled the memo with it yet. -/
def Pending (c : Call) (k : Nat) : Prop :=
  (∃ m delta, c.state = .returned m delta) ∧ c.span.1 ≤ k ∧ k < c.span.2

/-- How much of the history the marking of the call is known to contain. A call that has yet to read
the store will get all of it. -/
def reach (histLen : Nat) (c : Call) : Nat :=
  match c.state with
  | .start | .stale .. | .miss => histLen
  | .lenRead currentIdx => currentIdx
  | .sliced cachedIdx _ newEvents => cachedIdx + newEvents.length
  | .based _ _ extent => extent
  | .returned .. => c.span.2

/-- Every cursor the call holds lies at or below `absorbed`. -/
def Below (absorbed : Nat) (c : Call) : Prop :=
  match c.state with
  | .stale idx _ | .sliced idx _ _ => idx ≤ absorbed
  | .returned .. => c.span.2 ≤ absorbed
  | _ => True

variable {c : Call}

theorem Below.mono {a b : Nat} (hab : a ≤ b) (h : c.Below a) : c.Below b := by
  unfold Below at h ⊢
  split at h <;> first | exact h.trans hab | trivial

theorem reach_mono {m n : Nat} (h : m ≤ n) : c.reach m ≤ c.reach n := by
  unfold reach
  split <;> first | exact h | exact Nat.le_refl _

theorem reach_le {hist : List PersistedEvent} (hc : CallInv hist c) : c.reach hist.length ≤ hist.length := by
  unfold CallInv at hc
  unfold reach
  cases hst : c.state with
  | start => exact Nat.le_refl _
  | stale => exact Nat.le_refl _
  | miss => exact Nat.le_refl _
  | lenRead n =>
    simp only [hst] at hc
    exact hc.2
  | sliced idx m events =>
    simp only [hst] at hc
    exact hc.2.2.1
  | based base tail extent =>
    simp only [hst] at hc
    exact hc.2.1
  | returned m delta =>
    simp only [hst] at hc
    exact hc.2.1.1

end Call

/-- The cursor of the cache lies at or below `absorbed`. -/
def CacheBelow (absorbed : Nat) (cache : MarkingCache) : Prop :=
  ∀ idx m, cache = some (idx, m) → idx ≤ absorbed

theorem absorbs_span {absorbed lo hi seen : Nat} {m : Marking} {delta : MarkingDelta} (hlo : lo ≤ absorbed) :
    ∃ absorbed', absorbed ≤ absorbed' ∧ CacheBelow absorbed' (some (hi, m)) ∧
      Call.Below absorbed' ⟨.returned m delta, seen, (lo, hi)⟩ ∧ ∀ k, absorbed ≤ k → k < absorbed' →
        Call.Pending ⟨.returned m delta, seen, (lo, hi)⟩ k := by
  refine ⟨max absorbed hi, Nat.le_max_left .., ?_, Nat.le_max_right .., ?_⟩
  · intro idx m' hm
    obtain ⟨rfl, -⟩ := Prod.mk.inj (Option.some.inj hm)
    exact Nat.le_max_right ..
  · intro k hk hk'
    refine ⟨⟨_, _, rfl⟩, hlo.trans hk, ?_⟩
    rcases lt_max_iff.mp hk' with hk' | hk'
    · exact absurd hk (Nat.not_le.mpr hk')
    · exact hk'

/-- **One step of a call, in terms of the absorbed prefix.** The prefix grows by positions the call is
now pending on, and what the call will see never shrinks. -/
theorem Call.advance_absorbs {g : Inner} {hist : List PersistedEvent} {cache cache' : MarkingCache}
    {c c' : Call} {absorbed : Nat} (hg : g.Represents hist) (hc : CallInv hist c)
    (hcache : CacheBelow absorbed cache) (hbelow : c.Below absorbed)
    (h : c.advance g cache hist.length = some (cache', c')) : c.reach hist.length ≤ c'.reach hist.length ∧
      ∃ absorbed', absorbed ≤ absorbed' ∧ CacheBelow absorbed' cache' ∧ c'.Below absorbed' ∧
        ∀ k, absorbed ≤ k → k < absorbed' → c'.Pending k := by
  have hreach := reach_le hc
  have hstep := advance_cases h
  obtain ⟨state, seen, span⟩ := c
  have hnone : ∀ k, absorbed ≤ k → k < absorbed → c'.Pending k :=
    fun k hk hk' => absurd hk (Nat.not_le.mpr hk')
  cases hstep with
  | readLen => exact ⟨hg.len_eq.ge, absorbed, Nat.le_refl _, hcache, trivial, hnone⟩
  | hit hhit =>
    exact ⟨Nat.le_refl _, absorbed, Nat.le_refl _, hcache, hcache _ _ hhit, hnone⟩
  | behind hbehind => exact ⟨hreach, absorbed, Nat.le_refl _, hcache, hcache _ _ hbehind, hnone⟩
  | cold => exact ⟨hreach, absorbed, Nat.le_refl _, hcache, trivial, hnone⟩
  | evicted => exact ⟨Nat.le_refl _, absorbed, Nat.le_refl _, hcache, trivial, hnone⟩
  | @slice idx m events hslice =>
    refine ⟨?_, absorbed, Nat.le_refl _, hcache, hbelow, hnone⟩
    have hlen : events.length = hist.length - idx := by
      rw [eventsFromChecked_eq hg hslice, List.length_drop]
    show hist.length ≤ idx + events.length
    omega
  | fold => exact ⟨Nat.le_refl _, absorbs_span hbelow⟩
  | readBase => exact ⟨hg.len_eq.ge, absorbed, Nat.le_refl _, hcache, trivial, hnone⟩
  | rebuild => exact ⟨Nat.le_refl _, absorbs_span (Nat.zero_le _)⟩

/-! ## The binding over a stretch of the history -/

section

variable {executor : TransitionExecutor} {net : PetriNet} {schemaRegistry : Option SchemaRegistry}

variable {hist : List PersistedEvent}

theorem take_succ_project {k : Nat} {e : PersistedEvent} (he : hist[k]? = some e) :
    projectMarking (hist.take (k + 1)) = applyEventToMarking (projectMarking (hist.take k)) e.event := by
  rw [List.take_add_one, he, ← projectOnto_projectMarking]
  rfl

theorem bindingOf_stable {tid : TransitionId} {t : Transition}
    (ht : net.getTransition tid = some t) {j k : Nat} (hjk : j ≤ k) (hk : k ≤ hist.length)
    (h : ∀ i e, j ≤ i → i < k → hist[i]? = some e → ¬ BindingMemo.Touches net tid e.event) :
    bindingOf executor net (projectMarking (hist.take k)) schemaRegistry t =
      bindingOf executor net (projectMarking (hist.take j)) schemaRegistry t := by
  induction k, hjk using Nat.le_induction with
  | base => rfl
  | succ k hjk ih =>
    have he : hist[k]? = some (hist.get ⟨k, hk⟩) := List.getElem?_eq_getElem hk
    have hnot := h k _ hjk (Nat.lt_succ_self k) he
    rw [← ih (Nat.le_of_succ_le hk) fun i e hi hik => h i e hi (Nat.lt_succ_of_lt hik), take_succ_project he]
    refine findValidBinding_congr _ _ _ fun a ha => ?_
    refine tokensAt_applyEventToMarking (fun hp => hnot ⟨a, ?_, hp⟩) _
    rw [← PetriNet.getTransition_id ht]
    exact ha

end

/-! ## The system -/

inductive Pass where
  | advancing (c : Call)
  | reconciled (c : Call) (marking : Marking)
  | snapshotted (c : Call) (marking : Marking) (known : Finset TransitionId)

namespace Pass

def call : Pass → Call
  | .advancing c => c
  | .reconciled c _ => c
  | .snapshotted c _ _ => c

/-- The pass has absorbed position `k` and not reconciled yet. -/
def Pending (p : Pass) (k : Nat) : Prop :=
  match p with
  | .advancing c => c.Pending k
  | _ => False

end Pass

/-- The store, the caches, a pass and the readers beside it. -/
structure MemoSystem where
  store : MemoryEventStore
  cache : MarkingCache
  /-- Every event ever appended or loaded, evicted ones included. -/
  history : List PersistedEvent
  memo : BindingMemo
  /-- The `get_marking_cached` calls. -/
  readers : Nat → Call
  pass : Pass

namespace MemoSystem

inductive Action where
  | append (now : DateTime) (event : DomainEvent)
  | load (event : PersistedEvent) (streamSeq : Nat)
  | read (reader : Nat)
  | pass

section

variable (fmt : EventFormat) (executor : TransitionExecutor) (net : PetriNet)
  (schemaRegistry : Option SchemaRegistry)

def init (tailCapBytes dedupCap : Nat) : MemoSystem where
  store := MemoryEventStore.withCaps tailCapBytes dedupCap
  cache := none
  history := []
  memo := BindingMemo.new
  readers := fun _ => Call.fresh
  pass := .advancing Call.fresh

/-- A reader's next step: `advance_marking`, then the reconcile, after which it may call again. -/
def readStep (s : MemoSystem) (i : Nat) : Option MemoSystem :=
  match (s.readers i).state with
  | .returned _ delta => some { s with
      memo := reconcileBindingMemo s.memo (some net) delta
      readers := Function.update s.readers i Call.fresh }
  | _ => ((s.readers i).advance s.store.inner s.cache s.history.length).map fun r =>
      { s with cache := r.1, readers := Function.update s.readers i r.2 }

/-- The next step of the pass: `advance_marking`, the reconcile, the snapshot of the memo, and last
the candidate loop with its `mark_empty`. What the firing appends is an `append` of the run. -/
def passStep (s : MemoSystem) : Option MemoSystem :=
  match s.pass with
  | .advancing c =>
    match c.state with
    | .returned m delta => some { s with
        memo := reconcileBindingMemo s.memo (some net) delta
        pass := .reconciled c m }
    | _ => (c.advance s.store.inner s.cache s.history.length).map fun r =>
        { s with cache := r.1, pass := .advancing r.2 }
  | .reconciled c m => some { s with pass := .snapshotted c m s.memo.snapshot }
  | .snapshotted _ m known =>
    let sel := selectFrom executor net m schemaRegistry (some known) .normal
    some { s with memo := markAll s.memo sel.newlyEmpty, pass := .advancing Call.fresh }

def step (s : MemoSystem) : Action → Option MemoSystem
  | .append now event =>
    let (persisted, store) := s.store.append fmt now event
    some { s with store := store, history := s.history ++ [persisted] }
  | .load event streamSeq =>
    some { s with
      store := s.store.loadExistingEvent fmt event streamSeq
      history := s.history ++ [event] }
  | .read i => s.readStep net i
  | .pass => s.passStep executor net schemaRegistry

/-- No transition that the pass skips because of the memo has a binding at the marking of the
pass. -/
def NoSuppression (s : MemoSystem) : Prop :=
  ∀ c m known, s.pass = .snapshotted c m known →
    ∀ tid t, net.getTransition tid = some t → SelectPhase.normal.admits t = true → tid ∈ known →
      bindingOf executor net m schemaRegistry t = none

end

/-- Neither of the two orders: the pass snapshots the memo only when every event a reader has
absorbed and not reconciled lies beyond its marking, and a reader reconciles only events that the
marking of the pass in flight contains. -/
def InOrder (s : MemoSystem) : Action → Prop
  | .append .. | .load .. => True
  | .read i => ∀ k, (s.readers i).Pending k → k < s.pass.call.reach s.history.length
  | .pass => ∀ c m, s.pass = .reconciled c m → ∀ i k, (s.readers i).Pending k → c.span.2 ≤ k

/-! ## The invariant -/

section

variable (executor : TransitionExecutor) (net : PetriNet) (schemaRegistry : Option SchemaRegistry)

/-- An event at position `k` is still to be reconciled, by a reader or by the pass. -/
def Pending (s : MemoSystem) (k : Nat) : Prop :=
  s.pass.Pending k ∨ ∃ i, (s.readers i).Pending k

/-- The entry was true at some prefix of the history that the marking of the pass will contain, and
every absorbed event since that touches the transition is still to be reconciled. -/
def EntryInv (s : MemoSystem) (absorbed : Nat) (tid : TransitionId) (t : Transition) : Prop :=
  ∃ j ≤ s.pass.call.reach s.history.length,
    bindingOf executor net (projectMarking (s.history.take j)) schemaRegistry t = none ∧
    ∀ k e, j ≤ k → k < absorbed → s.history[k]? = some e →
      BindingMemo.Touches net tid e.event → s.Pending k

/-- `absorbed` bounds every cursor in use. -/
structure Inv (s : MemoSystem) (absorbed : Nat) : Prop where
  store : s.store.inner.Represents s.history
  cache : CacheInv s.history s.cache
  readers : ∀ i, CallInv s.history (s.readers i)
  pass : CallInv s.history s.pass.call
  returned : ∀ c m, (s.pass = .reconciled c m ∨ ∃ known, s.pass = .snapshotted c m known) →
    ∃ delta, c.state = .returned m delta
  indexed : s.memo.Indexed net
  cacheBelow : CacheBelow absorbed s.cache
  readersBelow : ∀ i, (s.readers i).Below absorbed
  passBelow : s.pass.call.Below absorbed
  /-- What the pass in flight will not see and is absorbed, a reader is still to reconcile. -/
  ahead : ∀ k, s.pass.call.reach s.history.length ≤ k → k < absorbed →
    ∃ i, (s.readers i).Pending k
  entries : ∀ tid t, net.getTransition tid = some t → tid ∈ s.memo.noBinding →
    s.EntryInv executor net schemaRegistry absorbed tid t
  known : s.NoSuppression executor net schemaRegistry

end

variable {executor : TransitionExecutor} {net : PetriNet} {schemaRegistry : Option SchemaRegistry}

theorem inv_init (tailCapBytes dedupCap : Nat) :
    (init tailCapBytes dedupCap).Inv executor net schemaRegistry 0 where
  store := Inner.Represents.empty dedupCap
  cache := fun _ _ h => absurd h (by simp [init])
  readers := fun _ => trivial
  pass := trivial
  returned := by
    rintro c m (h | ⟨known, h⟩) <;> exact absurd h (by simp [init])
  indexed := BindingMemo.indexed_new net
  cacheBelow := fun _ _ h => absurd h (by simp [init])
  readersBelow := fun _ => trivial
  passBelow := trivial
  ahead := fun k _ hk => absurd hk (Nat.not_lt_zero k)
  entries := fun tid t _ hmem => absurd hmem (Finset.notMem_empty tid)
  known := fun c m known h => absurd h (by simp [init])

variable {s : MemoSystem} {absorbed i : Nat} {c : Call} {m : Marking} {delta : MarkingDelta}
  {r : MarkingCache × Call}

theorem Inv.grow (hs : s.Inv executor net schemaRegistry absorbed)
    {store : MemoryEventStore} {e : PersistedEvent} (hstore : store.inner.Represents (s.history ++ [e])) :
    Inv executor net schemaRegistry { s with store := store, history := s.history ++ [e] }
      absorbed := by
  have hlen : s.history.length ≤ (s.history ++ [e]).length := by simp
  have hreach := Call.reach_mono (c := s.pass.call) hlen
  refine ⟨hstore, hs.cache.append e, fun i => (hs.readers i).append e, hs.pass.append e, hs.returned,
    hs.indexed, hs.cacheBelow, hs.readersBelow, hs.passBelow,
    fun k hk => hs.ahead k (hreach.trans hk), ?_, hs.known⟩
  intro tid t ht hmem
  obtain ⟨j, hj, hnone, hsince⟩ := hs.entries tid t ht hmem
  have hj' : j ≤ s.history.length := hj.trans (Call.reach_le hs.pass)
  refine ⟨j, hj.trans hreach, ?_, ?_⟩
  · show bindingOf _ _ (projectMarking ((s.history ++ [e]).take j)) _ _ = none
    rw [List.take_append_of_le_length hj']
    exact hnone
  · intro k e' hk hka he' htouch
    by_cases hkl : k < s.history.length
    · refine hsince k e' hk hka ?_ htouch
      rwa [List.getElem?_append_left hkl] at he'
    · -- A position at the end of the history is not absorbed unless a reader is pending on it.
      have hle : s.history.length ≤ k := Nat.le_of_not_lt hkl
      exact Or.inr (hs.ahead k ((Call.reach_le hs.pass).trans hle) hka)

theorem not_pending_of_survives {hist : List PersistedEvent} {memo : BindingMemo}
    (hmemo : memo.Indexed net) (hc : CallInv hist c)
    (hst : c.state = .returned m delta) {tid : TransitionId} {t : Transition}
    (ht : net.getTransition tid = some t)
    (hmem : tid ∈ (reconcileBindingMemo memo (some net) delta).noBinding) {k : Nat}
    {e : PersistedEvent} (he : hist[k]? = some e) (htouch : BindingMemo.Touches net tid e.event) :
    ¬ c.Pending k := by
  rintro ⟨-, hlo, hhi⟩
  obtain ⟨-, hrebuilt, hevents⟩ := (BindingMemo.reconcile_spec hmemo delta).2 tid t ht hmem
  simp only [CallInv, hst] at hc
  have hdelta := hc.2.2
  cases delta with
  | unchanged =>
    have hspan : c.span.1 = c.span.2 := hdelta
    omega
  | rebuilt => exact hrebuilt rfl
  | applied events =>
    refine hevents events rfl e ?_ htouch
    rw [hdelta.2]
    have hpos : ((hist.take c.span.2).drop c.span.1)[k - c.span.1]? = some e := by
      rw [List.getElem?_drop, Nat.add_sub_cancel' hlo, List.getElem?_take_of_lt hhi]
      exact he
    exact List.mem_of_getElem? hpos

/-- An entry carries over a step that does not shorten what the pass will see and reconciles nothing
that touches the transition; what is newly absorbed has to be pending. -/
theorem EntryInv.move {s' : MemoSystem} {absorbed' : Nat} {tid : TransitionId}
    {t : Transition} (h : s.EntryInv executor net schemaRegistry absorbed tid t)
    (hhist : s'.history = s.history)
    (hreach : s.pass.call.reach s.history.length ≤ s'.pass.call.reach s.history.length)
    (hkept : ∀ k e, s.history[k]? = some e → BindingMemo.Touches net tid e.event → s.Pending k → s'.Pending k)
    (hnew : ∀ k, absorbed ≤ k → k < absorbed' → s'.Pending k) :
    s'.EntryInv executor net schemaRegistry absorbed' tid t := by
  obtain ⟨j, hj, hnone, hsince⟩ := h
  refine ⟨j, ?_, ?_, ?_⟩
  · rw [hhist]
    exact hj.trans hreach
  · rw [hhist]
    exact hnone
  · intro k e hk hk' he htouch
    rw [hhist] at he
    by_cases hka : k < absorbed
    · exact hkept k e he htouch (hsince k e hk hka he htouch)
    · exact hnew k (Nat.le_of_not_lt hka) hk'

theorem pending_of_absurd : ∀ k, absorbed ≤ k → k < absorbed → s.Pending k :=
  fun _ hk hk' => absurd hk (Nat.not_le.mpr hk')

theorem forall_update {P : Call → Prop} {readers : Nat → Call} (h : ∀ j, P (readers j)) {c : Call}
    (hc : P c) (i : Nat) : ∀ j, P (Function.update readers i c j) := by
  intro j
  by_cases hj : j = i
  · rw [hj, Function.update_self]
    exact hc
  · rw [Function.update_of_ne hj]
    exact h j

theorem pending_update {readers : Nat → Call} {j k : Nat} (hij : j ≠ i)
    (h : (readers j).Pending k) : (Function.update readers i c j).Pending k := by
  rwa [Function.update_of_ne hij]

theorem not_pending_of_advance {g : Inner} {cache : MarkingCache} {n : Nat}
    (h : c.advance g cache n = some r) (k : Nat) : ¬ c.Pending k := by
  rintro ⟨⟨m, delta, hst⟩, -⟩
  simp [Call.advance, hst, advanceStep] at h

theorem Inv.readAdvance (hs : s.Inv executor net schemaRegistry absorbed)
    (h : (s.readers i).advance s.store.inner s.cache s.history.length = some r) :
    ∃ absorbed', Inv executor net schemaRegistry
      { s with cache := r.1, readers := Function.update s.readers i r.2 } absorbed' := by
  obtain ⟨hcache, hc⟩ := Call.advance_spec hs.store hs.cache (hs.readers i) h
  obtain ⟨-, absorbed', hle, hcb, hb, hnew⟩ :=
    Call.advance_absorbs hs.store (hs.readers i) hs.cacheBelow (hs.readersBelow i) h
  -- Whatever was pending still is: the reader that moves had returned nothing.
  have hkeep : ∀ k, (∃ j, (s.readers j).Pending k) →
      ∃ j, (Function.update s.readers i r.2 j).Pending k := by
    rintro k ⟨j, hj⟩
    have hij : j ≠ i := by
      rintro rfl
      exact not_pending_of_advance h k hj
    exact ⟨j, pending_update hij hj⟩
  have hpend : ∀ k, absorbed ≤ k → k < absorbed' →
      ∃ j, (Function.update s.readers i r.2 j).Pending k := by
    intro k hk hk'
    refine ⟨i, ?_⟩
    rw [Function.update_self]
    exact hnew k hk hk'
  refine ⟨absorbed', hs.store, hcache, forall_update hs.readers hc i, hs.pass, hs.returned,
    hs.indexed, hcb, forall_update (fun j => (hs.readersBelow j).mono hle) hb i, hs.passBelow.mono hle, ?_, ?_, hs.known⟩
  · intro k hk hk'
    by_cases hka : k < absorbed
    · exact hkeep k (hs.ahead k hk hka)
    · exact hpend k (Nat.le_of_not_lt hka) hk'
  · intro tid t ht hmem
    exact (hs.entries tid t ht hmem).move rfl (Nat.le_refl _)
      (fun k e _ _ hk => hk.imp id (hkeep k)) fun k hk hk' => Or.inr (hpend k hk hk')

theorem Inv.readReconcile (hs : s.Inv executor net schemaRegistry absorbed)
    (hst : (s.readers i).state = .returned m delta)
    (hcond : ∀ k, (s.readers i).Pending k → k < s.pass.call.reach s.history.length) :
    Inv executor net schemaRegistry { s with
        memo := reconcileBindingMemo s.memo (some net) delta
        readers := Function.update s.readers i Call.fresh } absorbed := by
  obtain ⟨hindexed, hspec⟩ := BindingMemo.reconcile_spec hs.indexed delta
  refine ⟨hs.store, hs.cache, forall_update hs.readers (c := Call.fresh) trivial i, hs.pass,
    hs.returned, hindexed, hs.cacheBelow,
    forall_update hs.readersBelow (c := Call.fresh) trivial i, hs.passBelow, ?_, ?_, hs.known⟩
  · intro k hk hk'
    obtain ⟨j, hj⟩ := hs.ahead k hk hk'
    have hij : j ≠ i := by
      rintro rfl
      exact absurd (hcond k hj) (Nat.not_lt.mpr hk)
    exact ⟨j, pending_update hij hj⟩
  · intro tid t ht hmem
    refine (hs.entries tid t ht (hspec tid t ht hmem).1).move rfl (Nat.le_refl _) ?_
      pending_of_absurd
    rintro k e he htouch (hp | ⟨l, hl⟩)
    · exact Or.inl hp
    · have hil : l ≠ i := by
        rintro rfl
        exact not_pending_of_survives hs.indexed (hs.readers l) hst ht hmem he htouch hl
      exact Or.inr ⟨l, pending_update hil hl⟩

theorem Inv.passAdvance (hs : s.Inv executor net schemaRegistry absorbed) (hpass : s.pass = .advancing c)
    (h : c.advance s.store.inner s.cache s.history.length = some r) :
    ∃ absorbed', Inv executor net schemaRegistry
      { s with cache := r.1, pass := .advancing r.2 } absorbed' := by
  have hcall : s.pass.call = c := by rw [hpass]; rfl
  have hci : CallInv s.history c := hcall ▸ hs.pass
  obtain ⟨hcache, hc⟩ := Call.advance_spec hs.store hs.cache hci h
  obtain ⟨hreach, absorbed', hle, hcb, hb, hnew⟩ :=
    Call.advance_absorbs hs.store hci hs.cacheBelow (hcall ▸ hs.passBelow) h
  refine ⟨absorbed', hs.store, hcache, hs.readers, hc, ?_, hs.indexed, hcb,
    fun j => (hs.readersBelow j).mono hle, hb, ?_, ?_, ?_⟩
  · rintro c' m (h' | ⟨known, h'⟩) <;> cases h'
  · intro k hk hk'
    have hk : r.2.reach s.history.length ≤ k := hk
    by_cases hka : k < absorbed
    · exact hs.ahead k (hcall ▸ hreach.trans hk) hka
    · -- What the pass itself absorbs is part of the marking it returns.
      obtain ⟨⟨m, delta, hst⟩, -, hlt⟩ := hnew k (Nat.le_of_not_lt hka) hk'
      simp only [Call.reach, hst] at hk
      exact absurd hlt (Nat.not_lt.mpr hk)
  · intro tid t ht hmem
    refine (hs.entries tid t ht hmem).move rfl (hcall ▸ hreach) ?_
      fun k hk hk' => Or.inl (hnew k hk hk')
    rintro k e he htouch (hp | hp)
    · rw [hpass] at hp
      exact absurd hp (not_pending_of_advance h k)
    · exact Or.inr hp
  · exact fun c' m known h' => absurd h' (by simp)

theorem Inv.passReconcile (hs : s.Inv executor net schemaRegistry absorbed)
    (hpass : s.pass = .advancing c) (hst : c.state = .returned m delta) : Inv executor net schemaRegistry
      { s with
        memo := reconcileBindingMemo s.memo (some net) delta
        pass := .reconciled c m } absorbed := by
  have hcall : s.pass.call = c := by rw [hpass]; rfl
  have hci : CallInv s.history c := hcall ▸ hs.pass
  obtain ⟨hindexed, hspec⟩ := BindingMemo.reconcile_spec hs.indexed delta
  refine ⟨hs.store, hs.cache, hs.readers, hci, ?_, hindexed, hs.cacheBelow, hs.readersBelow,
    hcall ▸ hs.passBelow, fun k hk => hs.ahead k (hcall ▸ hk), ?_, ?_⟩
  · rintro c' m' (h | ⟨known, h⟩)
    · cases h
      exact ⟨delta, hst⟩
    · cases h
  · intro tid t ht hmem
    refine (hs.entries tid t ht (hspec tid t ht hmem).1).move rfl (hcall ▸ Nat.le_refl _) ?_
      pending_of_absurd
    rintro k e he htouch (hp | hp)
    · rw [hpass] at hp
      exact absurd hp (not_pending_of_survives hs.indexed hci hst ht hmem he htouch)
    · exact Or.inr hp
  · exact fun c' m' known h => absurd h (by simp)

theorem Inv.snapshot (hs : s.Inv executor net schemaRegistry absorbed) (hpass : s.pass = .reconciled c m)
    (hcond : ∀ i k, (s.readers i).Pending k → c.span.2 ≤ k) {tid : TransitionId} {t : Transition}
    (ht : net.getTransition tid = some t) (hmem : tid ∈ s.memo.noBinding) :
    bindingOf executor net m schemaRegistry t = none := by
  obtain ⟨delta, hst⟩ := hs.returned c m (Or.inl hpass)
  have hcall : s.pass.call = c := by rw [hpass]; rfl
  have hci : CallInv s.history c := hcall ▸ hs.pass
  have hbelow : c.Below absorbed := hcall ▸ hs.passBelow
  simp only [CallInv, hst] at hci
  simp only [Call.Below, hst] at hbelow
  obtain ⟨j, hj, hnone, hsince⟩ := hs.entries tid t ht hmem
  have hreach : s.pass.call.reach s.history.length = c.span.2 := by
    rw [hcall, Call.reach, hst]
  rw [hci.2.1.2, bindingOf_stable ht (hreach ▸ hj) hci.2.1.1]
  · exact hnone
  · intro k e hk hk' he htouch
    rcases hsince k e hk (hk'.trans_le hbelow) he htouch with hp | ⟨i, hp⟩
    · rw [hpass] at hp
      exact hp
    · exact absurd (hcond i k hp) (Nat.not_le.mpr hk')

theorem Inv.passSnapshot (hs : s.Inv executor net schemaRegistry absorbed) (hpass : s.pass = .reconciled c m)
    (hcond : ∀ i k, (s.readers i).Pending k → c.span.2 ≤ k) :
    Inv executor net schemaRegistry { s with pass := .snapshotted c m s.memo.snapshot }
      absorbed := by
  have hcall : s.pass.call = c := by rw [hpass]; rfl
  refine ⟨hs.store, hs.cache, hs.readers, hcall ▸ hs.pass, ?_, hs.indexed, hs.cacheBelow,
    hs.readersBelow, hcall ▸ hs.passBelow, fun k hk => hs.ahead k (hcall ▸ hk), ?_, ?_⟩
  · rintro c' m' (h | ⟨known, h⟩)
    · cases h
    · obtain ⟨rfl, rfl, -⟩ := Pass.snapshotted.inj h
      exact hs.returned c m (Or.inl hpass)
  · intro tid t ht hmem
    refine (hs.entries tid t ht hmem).move rfl (hcall ▸ Nat.le_refl _) ?_ pending_of_absurd
    rintro k e he htouch (hp | hp)
    · rw [hpass] at hp
      exact hp.elim
    · exact Or.inr hp
  · intro c' m' known h tid t ht _ hmem
    cases h
    exact hs.snapshot hpass hcond ht hmem

theorem Inv.passMark {known : Finset TransitionId} (hs : s.Inv executor net schemaRegistry absorbed)
    (hpass : s.pass = .snapshotted c m known) : Inv executor net schemaRegistry { s with
        memo := markAll s.memo
          (selectFrom executor net m schemaRegistry (some known) .normal).newlyEmpty
        pass := .advancing Call.fresh } absorbed := by
  obtain ⟨delta, hst⟩ := hs.returned c m (Or.inr ⟨known, hpass⟩)
  have hcall : s.pass.call = c := by rw [hpass]; rfl
  have hci : CallInv s.history c := hcall ▸ hs.pass
  have hle := Call.reach_le hs.pass
  have hreach : s.pass.call.reach s.history.length = c.span.2 := by
    rw [hcall, Call.reach, hst]
  simp only [CallInv, hst] at hci
  refine ⟨hs.store, hs.cache, hs.readers, trivial, ?_, indexed_markAll hs.indexed _, hs.cacheBelow,
    hs.readersBelow, trivial, fun k hk => hs.ahead k (hle.trans hk), ?_, ?_⟩
  · rintro c' m' (h | ⟨known', h⟩) <;> cases h
  · intro tid t ht hmem
    rcases mem_markAll hmem with hmem | hmem
    · refine (hs.entries tid t ht hmem).move rfl hle ?_ pending_of_absurd
      rintro k e he htouch (hp | hp)
      · rw [hpass] at hp
        exact hp.elim
      · exact Or.inr hp
    · -- A new entry is true at the marking of the pass, and what came after it is pending.
      refine ⟨c.span.2, hci.2.1.1, ?_, fun k e hk hk' _ _ => ?_⟩
      · show bindingOf _ _ (projectMarking (s.history.take c.span.2)) _ _ = none
        rw [← hci.2.1.2]
        exact bindingOf_of_mem_newlyEmpty ht hmem
      · exact Or.inr (hs.ahead k (hreach ▸ hk) hk')
  · exact fun c' m' known' h => absurd h (by simp)

theorem inv_step {fmt : EventFormat} {s' : MemoSystem} {a : Action}
    (hs : ∃ absorbed, s.Inv executor net schemaRegistry absorbed) (hcond : s.InOrder a)
    (h : s.step fmt executor net schemaRegistry a = some s') :
    ∃ absorbed, s'.Inv executor net schemaRegistry absorbed := by
  obtain ⟨absorbed, hs⟩ := hs
  cases a with
  | append now event =>
    cases h
    exact ⟨absorbed, hs.grow (MemoryEventStore.append_represents hs.store now event)⟩
  | load event streamSeq =>
    cases h
    exact ⟨absorbed, hs.grow (MemoryEventStore.loadExistingEvent_represents hs.store event
      streamSeq)⟩
  | read i =>
    simp only [step, readStep] at h
    split at h
    · next m delta hst =>
      cases h
      exact ⟨absorbed, hs.readReconcile hst hcond⟩
    · obtain ⟨r, hadv, rfl⟩ := Option.map_eq_some_iff.mp h
      exact hs.readAdvance hadv
  | pass =>
    simp only [step, passStep] at h
    split at h
    · next c hpass =>
      split at h
      · next m delta hst =>
        cases h
        exact ⟨absorbed, hs.passReconcile hpass hst⟩
      · obtain ⟨r, hadv, rfl⟩ := Option.map_eq_some_iff.mp h
        exact hs.passAdvance hpass hadv
    · next c m hpass =>
      cases h
      exact ⟨absorbed, hs.passSnapshot hpass (hcond c m hpass)⟩
    · next c m known hpass =>
      cases h
      exact ⟨absorbed, hs.passMark hpass⟩

end MemoSystem

open MemoSystem in
/-- **In order, the memo never suppresses an enabled transition.** In every run in which the pass
snapshots the memo only with every reader's unreconciled events beyond its marking, and readers
reconcile only events that the marking of the pass in flight contains, every transition a pass skips
because of the memo has no binding at the marking of that pass. -/
theorem memo_never_suppresses_enabled (fmt : EventFormat) (executor : TransitionExecutor)
    (net : PetriNet) (schemaRegistry : Option SchemaRegistry) (tailCapBytes dedupCap : Nat)
    (run : List Action) (s : MemoSystem)
    (h : exec (step fmt executor net schemaRegistry) (init tailCapBytes dedupCap) run = some s)
    (horder : Along (step fmt executor net schemaRegistry) InOrder (init tailCapBytes dedupCap) run) :
    s.NoSuppression executor net schemaRegistry := by
  have hinv : ∃ absorbed, s.Inv executor net schemaRegistry absorbed :=
    exec_invariant_along (fun _ _ _ hs hc h => inv_step hs hc h) ⟨0, inv_init ..⟩ horder h
  obtain ⟨absorbed, hinv⟩ := hinv
  exact hinv.known

/-! ## A run out of order -/

/-- An interpreter that is never asked for more than a constant. -/
def constExecutor : TransitionExecutor where
  evaluateGuard _ _ := .ok true
  evaluatePriority _ _ := none
  executeScript _ _ := .ok ∅

/-- One transition, without a guard, fed from `inbox`. -/
def forwardNet : PetriNet :=
  ((PetriNet.new.addPlace (.internal "inbox")).addTransition
    { Transition.new "forward" "" with inputPorts := [.new "in"] }).addArc
    (.input ⟨0⟩ ⟨"inbox"⟩ ⟨"forward"⟩ "in")

def arrival : DomainEvent := .tokenCreated (.new ⟨0⟩ ⟨0⟩ .unit) ⟨"inbox"⟩ none none none none

/-- A pass snapshots the memo at the empty marking; a token arrives and a reader absorbs and
reconciles it; the pass marks `forward` empty; the next pass hits the cache. -/
def lateMarkRun : List MemoSystem.Action :=
  [.pass, .pass, .pass, .pass, .pass, .pass, .append ⟨0⟩ arrival,
    .read 0, .read 0, .read 0, .read 0, .read 0, .pass, .pass, .pass, .pass, .pass]

open MemoSystem in
/-- **A late `mark_empty` stalls an enabled transition.** -/
theorem memo_suppresses_enabled :
    ∃ s, exec (step .plain constExecutor forwardNet none) (init 100 1) lateMarkRun = some s ∧
      ¬ s.NoSuppression constExecutor forwardNet none := by
  refine ⟨_, rfl, fun h => ?_⟩
  have hnone := h _ _ _ rfl ⟨"forward"⟩ _ rfl rfl (by decide)
  revert hnone
  decide

/-- A pass marks `forward` empty, an event that touches nothing is appended, a reader absorbs and
reconciles it, and the next pass hits the cache. -/
def readBetweenPassesRun : List MemoSystem.Action :=
  [.pass, .pass, .pass, .pass, .pass, .pass, .pass, .append ⟨0⟩ (.errorOccurred "late"),
    .read 0, .read 0, .read 0, .read 0, .read 0, .pass, .pass, .pass, .pass]

namespace MemoSystem

variable {s : MemoSystem}

theorem inOrder_read {i : Nat}
    (h : ∀ m delta, (s.readers i).state ≠ .returned m delta) : s.InOrder (.read i) :=
  fun _ hk => hk.1.elim fun m hm => hm.elim fun delta hst => absurd hst (h m delta)

theorem inOrder_pass (h : ∀ c m, s.pass ≠ .reconciled c m) : s.InOrder .pass :=
  fun c m hpass => absurd hpass (h c m)

theorem inOrder_snapshot (h : ∀ i, (s.readers i).state = .start) : s.InOrder .pass := by
  rintro c m - i k ⟨⟨m', delta, hst⟩, -⟩
  rw [h i] at hst
  cases hst

theorem readBetweenPassesRun_inOrder : Along (step .plain constExecutor forwardNet none) InOrder (init 100 1)
      readBetweenPassesRun := by
  refine along_cons (inOrder_pass nofun) rfl <| along_cons (inOrder_pass nofun) rfl <|
    along_cons (inOrder_pass nofun) rfl <| along_cons (inOrder_pass nofun) rfl <|
    along_cons (inOrder_pass nofun) rfl <| along_cons (inOrder_snapshot fun i => rfl) rfl <|
    along_cons (inOrder_pass nofun) rfl <| along_cons trivial rfl <|
    along_cons (inOrder_read nofun) rfl <| along_cons (inOrder_read nofun) rfl <|
    along_cons (inOrder_read nofun) rfl <| along_cons (inOrder_read nofun) rfl <|
    along_cons ?_ rfl <| along_cons (inOrder_pass nofun) rfl <|
    along_cons (inOrder_pass nofun) rfl <| along_cons (inOrder_pass nofun) rfl <|
    along_cons (inOrder_snapshot fun i => ?_) rfl trivial
  · -- The reader reconciles the one event of the history, and the pass has not started.
    rintro k ⟨-, -, hk⟩
    exact hk
  · by_cases hi : i = 0
    · subst hi
      rfl
    · simp [hi, init, Call.fresh]

end MemoSystem

open MemoSystem in
theorem memo_never_suppresses_enabled_readBetweenPasses :
    ∃ s c m, exec (step .plain constExecutor forwardNet none) (init 100 1) readBetweenPassesRun =
        some s ∧ s.pass = .snapshotted c m {⟨"forward"⟩} ∧ s.NoSuppression constExecutor forwardNet none :=
  ⟨_, _, _, rfl, rfl, memo_never_suppresses_enabled .plain constExecutor forwardNet none 100 1
    readBetweenPassesRun _ rfl readBetweenPassesRun_inOrder⟩

end Mekhan

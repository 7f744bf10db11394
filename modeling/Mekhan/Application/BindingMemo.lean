import Mekhan.Application.AdvanceMarking

/-!
# The negative-binding memo

`application/src/binding_memo.rs` and `reconcile_binding_memo` of `application/src/evaluation.rs`:
the transitions proven to have no binding, and what takes them out again.
-/

namespace Mekhan

open Infra

/-- The places whose tokens an event changes. -/
def touchedPlaces : DomainEvent → List PlaceId
  | .tokenCreated _ placeId .. => [placeId]
  | .tokenConsumed _ placeId => [placeId]
  | .tokenRemoved _ placeId .. => [placeId]
  | .tokenUpdated _ placeId .. => [placeId]
  | .transitionFired _ _ consumed produced .. => consumed.map (·.1) ++ produced.map (·.1)
  | .effectCompleted _ _ consumed produced .. => consumed.map (·.1) ++ produced.map (·.1)
  | .transitionSkipped _ _ consumed produced _ => consumed.map (·.1) ++ produced.map (·.1)
  | .effectFailed _ _ consumed produced _ _ tokensConsumed .. =>
    if tokensConsumed then consumed.map (·.1) ++ produced.map (·.1) else []
  | .netInitialized .. | .transitionScriptUpdated .. | .errorOccurred .. | .tokenBridgedOut ..
  | .netCreated .. | .netCompleted .. | .netCancelled .. | .netFailed ..
  | .preDispatchEvaluated .. | .preDispatchRejected .. | .preDispatchDeferred .. => []

/-- **An event leaves the tokens of every place it does not touch.** -/
theorem tokensAt_applyEventToMarking {e : DomainEvent} {p : PlaceId} (h : p ∉ touchedPlaces e)
    (m : Marking) : (applyEventToMarking m e).tokensAt p = m.tokensAt p := by
  have hmoved : ∀ {consumed : List (PlaceId × TokenId)} {produced : List (PlaceId × Token)},
      p ∉ consumed.map (·.1) ++ produced.map (·.1) →
      ((m.removeTokens consumed).addTokens produced).tokensAt p = m.tokensAt p := by
    intro consumed produced hp
    rw [List.mem_append, not_or] at hp
    rw [Marking.tokensAt_addTokens_of_notMem _ fun c hc he => hp.2 (List.mem_map.mpr ⟨c, hc, he⟩),
      Marking.tokensAt_removeTokens_of_notMem _ fun c hc he => hp.1 (List.mem_map.mpr ⟨c, hc, he⟩)]
  cases e with
  | tokenCreated token placeId =>
    have hp : p ≠ placeId := by simpa [touchedPlaces] using h
    rw [applyEventToMarking, Marking.tokensAt_addToken, if_neg hp]
  | tokenConsumed tokenId placeId =>
    have hp : p ≠ placeId := by simpa [touchedPlaces] using h
    rw [applyEventToMarking, Marking.tokensAt_removeToken, if_neg hp]
  | tokenRemoved tokenId placeId =>
    have hp : p ≠ placeId := by simpa [touchedPlaces] using h
    rw [applyEventToMarking, Marking.tokensAt_removeToken, if_neg hp]
  | tokenUpdated tokenId placeId =>
    have hp : p ≠ placeId := by simpa [touchedPlaces] using h
    rw [applyEventToMarking, Marking.tokensAt_updateToken, if_neg hp]
  | transitionFired => exact hmoved h
  | effectCompleted => exact hmoved h
  | transitionSkipped => exact hmoved h
  | effectFailed _ _ consumed produced _ _ tokensConsumed =>
    cases tokensConsumed with
    | false => rfl
    | true => exact hmoved h
  | _ => rfl

/-! ## The memo -/

structure BindingMemo where
  noBinding : Finset TransitionId
  /-- The transitions with an input arc on a place. -/
  consumers : MapOf PlaceId (List TransitionId)
  built : Bool

namespace BindingMemo

def new : BindingMemo := ⟨∅, ∅, false⟩

/-- `consumers.entry(place).or_default().push(t)`. -/
def pushConsumer (m : MapOf PlaceId (List TransitionId)) (c : PlaceId × TransitionId) :
    MapOf PlaceId (List TransitionId) :=
  m.insert c.1 ((m.lookup c.1).getD [] ++ [c.2])

/-- The input arcs of all transitions, as (place, transition) pairs in iteration order. -/
def consumerPairs (net : PetriNet) : List (PlaceId × TransitionId) :=
  net.transitions.values.flatMap fun t => (net.inputArcs t.id).map fun a => (a.placeId, t.id)

def consumerIndex (net : PetriNet) : MapOf PlaceId (List TransitionId) :=
  (consumerPairs net).foldl pushConsumer ∅

def rebuildIndex (_ : BindingMemo) (net : PetriNet) : BindingMemo :=
  ⟨∅, consumerIndex net, true⟩

def clearEntries (m : BindingMemo) : BindingMemo := { m with noBinding := ∅ }

def markEmpty (m : BindingMemo) (t : TransitionId) : BindingMemo :=
  { m with noBinding := insert t m.noBinding }

def snapshot (m : BindingMemo) : Finset TransitionId := m.noBinding

def remove (m : BindingMemo) (t : TransitionId) : BindingMemo :=
  { m with noBinding := m.noBinding.erase t }

def invalidatePlace (m : BindingMemo) (p : PlaceId) : BindingMemo :=
  ((m.consumers.lookup p).getD []).foldl remove m

/-- Rebuilds where a topology is at hand, else clears. -/
def rebuildOrClear (m : BindingMemo) (net : Option PetriNet) : BindingMemo :=
  match net with
  | some net => m.rebuildIndex net
  | none => m.clearEntries

def applyEvent (net : Option PetriNet) (m : BindingMemo) (e : DomainEvent) : BindingMemo :=
  match e with
  | .netInitialized _ => m.rebuildOrClear net
  | .transitionScriptUpdated transitionId .. => m.remove transitionId
  | other => (touchedPlaces other).foldl invalidatePlace m

def applyEvents (m : BindingMemo) (net : Option PetriNet) (events : List DomainEvent) :
    BindingMemo :=
  events.foldl (applyEvent net) (if m.built then m else m.rebuildOrClear net)

end BindingMemo

def DomainEvent.isNetInitialized : DomainEvent → Bool
  | .netInitialized _ => true
  | _ => false

def reconcileBindingMemo (memo : BindingMemo) (topology : Option PetriNet) :
    MarkingDelta → BindingMemo
  | .unchanged => memo
  | .rebuilt => memo.rebuildOrClear topology
  | .applied events =>
    -- The topology is fetched only when the index must be (re)built.
    let needsNet := !memo.built || events.any fun pe => pe.event.isNetInitialized
    memo.applyEvents (if needsNet then topology else none) (events.map (·.event))

/-! ## The consumer index -/

namespace BindingMemo

variable {t : TransitionId} {m : BindingMemo}

variable {p : PlaceId} {topology : Option PetriNet}

theorem mem_foldl_pushConsumer :
    ∀ (cs : List (PlaceId × TransitionId)) (m : MapOf PlaceId (List TransitionId)),
      t ∈ ((cs.foldl pushConsumer m).lookup p).getD [] ↔ t ∈ (m.lookup p).getD [] ∨ (p, t) ∈ cs
  | [], m => by simp
  | c :: cs, m => by
    rw [List.foldl_cons, mem_foldl_pushConsumer cs, List.mem_cons, ← or_assoc]
    refine or_congr_left ?_
    unfold pushConsumer
    by_cases hp : p = c.1
    · subst hp
      rw [Finmap.lookup_insert, Option.getD_some, List.mem_append, List.mem_singleton]
      refine or_congr_right ⟨fun h => by rw [h], fun h => ?_⟩
      exact congrArg Prod.snd h
    · rw [Finmap.lookup_insert_of_ne _ hp]
      refine (or_iff_left fun h => ?_).symm
      exact hp (congrArg Prod.fst h)

theorem mem_consumerIndex {net : PetriNet} {tid : TransitionId} {t : Transition} {a : Arc}
    (ht : net.getTransition tid = some t) (ha : a ∈ net.inputArcs tid) :
    tid ∈ ((consumerIndex net).lookup a.placeId).getD [] := by
  refine (mem_foldl_pushConsumer _ _).mpr (Or.inr ?_)
  have hid : t.id = tid := PetriNet.getTransition_id ht
  refine List.mem_flatMap.mpr ⟨t, ?_, ?_⟩
  · exact List.mem_map.mpr ⟨_, PetriNet.mem_transitions_of_getTransition ht, rfl⟩
  · rw [hid]
    exact List.mem_map.mpr ⟨a, ha, rfl⟩

/-! ## What survives a reconcile -/

/-- Once built, the index is that of the net. -/
def Indexed (net : PetriNet) (m : BindingMemo) : Prop :=
  m.built = true → m.consumers = consumerIndex net

theorem indexed_new (net : PetriNet) : Indexed net new := fun h => absurd h (by simp [new])

/-- The event changes the tokens at an input place of the transition. -/
def Touches (net : PetriNet) (tid : TransitionId) (e : DomainEvent) : Prop :=
  ∃ a ∈ net.inputArcs tid, a.placeId ∈ touchedPlaces e

/-- `m'` has the index of `m` and no entry that `m` lacks. -/
structure Shrinks (m m' : BindingMemo) : Prop where
  consumers : m'.consumers = m.consumers
  built : m'.built = m.built
  noBinding : m'.noBinding ⊆ m.noBinding

theorem Shrinks.refl (m : BindingMemo) : Shrinks m m := ⟨rfl, rfl, Finset.Subset.refl _⟩

theorem Shrinks.trans {a b c : BindingMemo} (h : Shrinks a b) (h' : Shrinks b c) : Shrinks a c where
  consumers := h'.consumers.trans h.consumers
  built := h'.built.trans h.built
  noBinding := h'.noBinding.trans h.noBinding

theorem Shrinks.indexed {net : PetriNet} {m' : BindingMemo} (h : Shrinks m m')
    (hm : Indexed net m) : Indexed net m' := by
  intro hb
  rw [h.consumers]
  exact hm (h.built ▸ hb)

theorem shrinks_foldl {α : Type} {f : BindingMemo → α → BindingMemo}
    (hf : ∀ m a, Shrinks m (f m a)) : ∀ (as : List α) (m : BindingMemo), Shrinks m (as.foldl f m)
  | [], m => Shrinks.refl m
  | a :: as, m => (hf m a).trans (shrinks_foldl hf as (f m a))

theorem shrinks_remove (m : BindingMemo) (t : TransitionId) : Shrinks m (m.remove t) :=
  ⟨rfl, rfl, Finset.erase_subset _ _⟩

theorem shrinks_invalidatePlace (m : BindingMemo) (p : PlaceId) : Shrinks m (m.invalidatePlace p) :=
  shrinks_foldl shrinks_remove _ m

theorem notMem_foldl_remove : ∀ {ts : List TransitionId} {m : BindingMemo},
    t ∈ ts → t ∉ (ts.foldl remove m).noBinding
  | u :: ts, m, h => by
    rw [List.foldl_cons]
    rcases List.mem_cons.mp h with rfl | h
    · intro hmem
      exact Finset.notMem_erase _ _ ((shrinks_foldl shrinks_remove ts _).noBinding hmem)
    · exact notMem_foldl_remove h

theorem notMem_foldl_invalidatePlace :
    ∀ {ps : List PlaceId} {m : BindingMemo}, p ∈ ps → t ∈ (m.consumers.lookup p).getD [] →
      t ∉ (ps.foldl invalidatePlace m).noBinding
  | q :: ps, m, hp, ht => by
    rw [List.foldl_cons]
    rcases List.mem_cons.mp hp with rfl | hp
    · intro hmem
      exact notMem_foldl_remove ht ((shrinks_foldl shrinks_invalidatePlace ps _).noBinding hmem)
    · refine notMem_foldl_invalidatePlace hp ?_
      rw [(shrinks_invalidatePlace m q).consumers]
      exact ht

variable {net : PetriNet}

theorem rebuildOrClear_empty (m : BindingMemo) (net : Option PetriNet) :
    (m.rebuildOrClear net).noBinding = ∅ := by
  cases net <;> rfl

theorem indexed_rebuildOrClear (hm : Indexed net m) {topology : Option PetriNet}
    (ht : ∀ n, topology = some n → n = net) : Indexed net (m.rebuildOrClear topology) := by
  cases topology with
  | none => exact hm
  | some n => exact fun _ => congrArg consumerIndex (ht n rfl)

theorem applyEvent_spec (ht : ∀ n, topology = some n → n = net)
    {m : BindingMemo} (hm : Indexed net m) (hb : m.built = true) (e : DomainEvent) :
    Indexed net (applyEvent topology m e) ∧ (applyEvent topology m e).built = true ∧
      ∀ tid t, net.getTransition tid = some t → tid ∈ (applyEvent topology m e).noBinding →
        tid ∈ m.noBinding ∧ ¬ Touches net tid e := by
  have htouched : Shrinks m ((touchedPlaces e).foldl invalidatePlace m) :=
    shrinks_foldl shrinks_invalidatePlace _ m
  have hdropped : ∀ tid t, net.getTransition tid = some t →
      tid ∈ ((touchedPlaces e).foldl invalidatePlace m).noBinding →
        tid ∈ m.noBinding ∧ ¬ Touches net tid e := by
    intro tid t hget hmem
    refine ⟨htouched.noBinding hmem, ?_⟩
    rintro ⟨a, ha, hp⟩
    refine notMem_foldl_invalidatePlace hp ?_ hmem
    rw [hm hb]
    exact mem_consumerIndex hget ha
  unfold applyEvent
  split
  · refine ⟨indexed_rebuildOrClear hm ht, ?_, fun tid t _ hmem => ?_⟩
    · cases topology with
      | none => exact hb
      | some n => rfl
    · rw [rebuildOrClear_empty] at hmem
      exact absurd hmem (Finset.notMem_empty tid)
  · refine ⟨(shrinks_remove m _).indexed hm, hb, fun tid t _ hmem => ?_⟩
    exact ⟨(shrinks_remove m _).noBinding hmem, by simp [Touches, touchedPlaces]⟩
  · exact ⟨htouched.indexed hm, htouched.built.trans hb, hdropped⟩

theorem foldl_applyEvent_spec (ht : ∀ n, topology = some n → n = net) :
    ∀ (es : List DomainEvent) {m : BindingMemo}, Indexed net m → m.built = true →
      Indexed net (es.foldl (applyEvent topology) m) ∧ ∀ tid t, net.getTransition tid = some t →
          tid ∈ (es.foldl (applyEvent topology) m).noBinding →
            tid ∈ m.noBinding ∧ ∀ e ∈ es, ¬ Touches net tid e
  | [], m, hm, _ => ⟨hm, fun tid t _ hmem => ⟨hmem, by simp⟩⟩
  | e :: es, m, hm, hb => by
    obtain ⟨hm', hb', hone⟩ := applyEvent_spec ht hm hb e
    obtain ⟨hidx, hrest⟩ := foldl_applyEvent_spec ht es hm' hb'
    refine ⟨hidx, fun tid t hget hmem => ?_⟩
    obtain ⟨hin, hes⟩ := hrest tid t hget hmem
    obtain ⟨hin, he⟩ := hone tid t hget hin
    exact ⟨hin, List.forall_mem_cons.mpr ⟨he, hes⟩⟩

/-- **What a reconcile leaves.** The index stays that of the net, and an entry that survives was
there before, survives no rebuild, and is touched by no event of the delta. -/
theorem reconcile_spec (hm : Indexed net m) (delta : MarkingDelta) :
    Indexed net (reconcileBindingMemo m (some net) delta) ∧ ∀ tid t, net.getTransition tid = some t →
        tid ∈ (reconcileBindingMemo m (some net) delta).noBinding → tid ∈ m.noBinding ∧ delta ≠ .rebuilt ∧
            ∀ events, delta = .applied events → ∀ e ∈ events, ¬ Touches net tid e.event := by
  cases delta with
  | unchanged => exact ⟨hm, fun tid t _ hmem => ⟨hmem, by simp, by simp⟩⟩
  | rebuilt =>
    refine ⟨fun _ => rfl, fun tid t _ hmem => ?_⟩
    exact absurd hmem (Finset.notMem_empty tid)
  | applied events =>
    show Indexed net (applyEvents m _ _) ∧ _
    have hsome : ∀ {c : Bool} n, (if c then some net else none) = some n → n = net := by
      intro c n hn
      split at hn
      · exact (Option.some.inj hn).symm
      · cases hn
    cases hb : m.built with
    | false =>
      -- Not built yet: the net is fetched and the rebuild drops every entry.
      have hindexed : Indexed net (m.rebuildIndex net) := fun _ => rfl
      have hnet : ∀ n, some net = some n → n = net := fun n hn => (Option.some.inj hn).symm
      have hspec := foldl_applyEvent_spec hnet (events.map (·.event)) hindexed rfl
      simp only [reconcileBindingMemo, applyEvents, hb, Bool.not_false, Bool.true_or, if_true,
        Bool.false_eq_true, if_false]
      refine ⟨hspec.1, fun tid t hget hmem => ?_⟩
      exact absurd (hspec.2 tid t hget hmem).1 (Finset.notMem_empty tid)
    | true =>
      simp only [reconcileBindingMemo, applyEvents, hb, if_true]
      obtain ⟨hidx, hrest⟩ := foldl_applyEvent_spec hsome (events.map (·.event)) hm hb
      refine ⟨hidx, fun tid t hget hmem => ?_⟩
      obtain ⟨hin, hes⟩ := hrest tid t hget hmem
      refine ⟨hin, by simp, ?_⟩
      intro evs hevs e he
      cases hevs
      exact hes e.event (List.mem_map_of_mem he)

end BindingMemo

end Mekhan

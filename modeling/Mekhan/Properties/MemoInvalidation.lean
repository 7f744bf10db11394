import Mekhan.Application.Binding
import Mekhan.Application.BindingMemo

/-!
# What the memo keeps

A verdict that survives `apply_events` still holds: no event of the list changes what the search for a binding of
its transition looks at.

* `applyEvents_survivor` — what an entry has survived
-/

namespace Mekhan

open Infra

namespace BindingMemo

/-- A memo that its operations have made of the net. -/
inductive Made (net : PetriNet) : BindingMemo → Prop where
  | new : Made net new
  | rebuildIndex {m} (h : Made net m) : Made net (m.rebuildIndex net)
  | clearEntries {m} (h : Made net m) : Made net m.clearEntries
  | markEmpty {m} (h : Made net m) (tid : TransitionId) : Made net (m.markEmpty tid)
  | applyEvents {m} (h : Made net m) (topology : Option PetriNet) (hnet : ∀ n, topology = some n → n = net)
    (events : List DomainEvent) : Made net (m.applyEvents topology events)

/-- Every listed transition of the net is without a valid binding at the marking. -/
def SoundAt (executor : TransitionExecutor) (schemaRegistry : Option SchemaRegistry) (net : PetriNet)
    (memo : BindingMemo) (marking : Marking) : Prop :=
  ∀ tid ∈ memo.noBinding, ∀ t, net.getTransition tid = some t →
    findValidBinding executor t schemaRegistry (net.inputArcs tid) marking = none

section

variable {net : PetriNet} {m : BindingMemo} {topology : Option PetriNet} {tid : TransitionId}

/-! ## The index -/

theorem applyEvent_noBinding_subset (topology : Option PetriNet) (m : BindingMemo) (e : DomainEvent) :
    (applyEvent topology m e).noBinding ⊆ m.noBinding := by
  unfold applyEvent
  split
  · rw [rebuildOrClear_empty]
    exact Finset.empty_subset _
  · exact Finset.erase_subset _ _
  · exact (shrinks_foldl shrinks_invalidatePlace _ m).noBinding

theorem foldl_applyEvent_noBinding_subset (topology : Option PetriNet) : ∀ (events : List DomainEvent)
    (m : BindingMemo), (events.foldl (applyEvent topology) m).noBinding ⊆ m.noBinding
  | [], _ => Finset.Subset.refl _
  | e :: events, m =>
    (foldl_applyEvent_noBinding_subset topology events _).trans (applyEvent_noBinding_subset topology m e)

theorem shrinks_applyEvent_none (m : BindingMemo) (e : DomainEvent) : Shrinks m (applyEvent none m e) := by
  unfold applyEvent
  split
  · exact ⟨rfl, rfl, Finset.empty_subset _⟩
  · exact shrinks_remove m _
  · exact shrinks_foldl shrinks_invalidatePlace _ m

theorem Made.indexed (h : Made net m) : Indexed net m := by
  induction h with
  | new => exact indexed_new net
  | rebuildIndex => exact fun _ => rfl
  | clearEntries _ ih => exact ih
  | markEmpty _ _ ih => exact ih
  | @applyEvents m _ topology hnet events ih =>
    rw [BindingMemo.applyEvents]
    split
    · next hbuilt => exact (foldl_applyEvent_spec hnet events ih hbuilt).1
    · next hbuilt =>
      cases topology with
      | none =>
        refine (shrinks_foldl shrinks_applyEvent_none events _).indexed fun h => ?_
        exact absurd h hbuilt
      | some n =>
        obtain rfl := hnet n rfl
        exact (foldl_applyEvent_spec hnet events (fun _ => rfl) rfl).1

/-! ## Survivors -/

/-- What an entry survives: events other than a new net, an update of its own transition, and those that touch an
input place. -/
structure Survives (net : PetriNet) (tid : TransitionId) (e : DomainEvent) : Prop where
  kept : e.isNetInitialized = false
  unchanged : ∀ script guard, e ≠ .transitionScriptUpdated tid script guard
  untouched : ¬ Touches net tid e

theorem isNetInitialized_of_mem_foldl : ∀ {events : List DomainEvent} {m : BindingMemo},
    tid ∈ (events.foldl (applyEvent topology) m).noBinding → ∀ e ∈ events, e.isNetInitialized = false
  | [], _, _ => by simp
  | e :: events, m, hmem => by
    refine List.forall_mem_cons.mpr ⟨?_, isNetInitialized_of_mem_foldl hmem⟩
    have hfirst := foldl_applyEvent_noBinding_subset topology events _ hmem
    cases e with
    | netInitialized n =>
      rw [show (applyEvent topology m (.netInitialized n)).noBinding = ∅ from rebuildOrClear_empty ..] at hfirst
      exact absurd hfirst (Finset.notMem_empty tid)
    | _ => rfl

variable {t : Transition}

variable {e : DomainEvent} {events : List DomainEvent}

theorem applyEvent_survivor (hm : Indexed net m) (hb : m.built = true)
    (ht : net.getTransition tid = some t) (hmem : tid ∈ (applyEvent topology m e).noBinding) :
    tid ∈ m.noBinding ∧ Survives net tid e ∧ Indexed net (applyEvent topology m e) ∧
      (applyEvent topology m e).built = true := by
  have hkept : e.isNetInitialized = false := by
    have hfold : tid ∈ ([e].foldl (applyEvent topology) m).noBinding := hmem
    exact isNetInitialized_of_mem_foldl hfold e (List.mem_singleton_self e)
  -- No other event looks at the topology.
  have hnone : applyEvent topology m e = applyEvent none m e := by
    cases e with
    | netInitialized n => exact absurd hkept (by simp [DomainEvent.isNetInitialized])
    | _ => rfl
  rw [hnone] at hmem ⊢
  have hspec := applyEvent_spec (fun n (hn : none = some n) => nomatch hn) hm hb e
  obtain ⟨hindexed, hbuilt, hsurvivor⟩ := hspec
  obtain ⟨hin, huntouched⟩ := hsurvivor tid t ht hmem
  refine ⟨hin, ⟨hkept, ?_, huntouched⟩, hindexed, hbuilt⟩
  rintro script guard rfl
  exact Finset.notMem_erase tid m.noBinding hmem

/-- **What an entry has survived**, whatever topology was at hand. -/
theorem foldl_applyEvent_survivor (ht : net.getTransition tid = some t) :
    ∀ {events : List DomainEvent} {m : BindingMemo}, Indexed net m → m.built = true →
      tid ∈ (events.foldl (applyEvent topology) m).noBinding →
        tid ∈ m.noBinding ∧ ∀ e ∈ events, Survives net tid e
  | [], m, _, _, hmem => ⟨hmem, by simp⟩
  | e :: events, m, hm, hb, hmem => by
    have hfirst := foldl_applyEvent_noBinding_subset topology events _ hmem
    obtain ⟨hin, hsurvives, hindexed, hbuilt⟩ := applyEvent_survivor hm hb ht hfirst
    obtain ⟨-, hrest⟩ := foldl_applyEvent_survivor ht hindexed hbuilt hmem
    exact ⟨hin, List.forall_mem_cons.mpr ⟨hsurvives, hrest⟩⟩

theorem applyEvents_survivor (hm : Indexed net m)
    (ht : net.getTransition tid = some t) (hmem : tid ∈ (m.applyEvents topology events).noBinding) :
    tid ∈ m.noBinding ∧ ∀ e ∈ events, Survives net tid e := by
  rw [applyEvents] at hmem
  cases hbuilt : m.built with
  | true =>
    rw [if_pos hbuilt] at hmem
    exact foldl_applyEvent_survivor ht hm hbuilt hmem
  | false =>
    -- The rebuild leaves nothing that could survive.
    rw [if_neg (by simp [hbuilt])] at hmem
    have hempty := foldl_applyEvent_noBinding_subset topology events _ hmem
    rw [rebuildOrClear_empty] at hempty
    exact absurd hempty (Finset.notMem_empty tid)

/-! ## What survivors see -/

theorem tokensAt_foldl_applyEventToMarking {p : PlaceId} : ∀ {events : List DomainEvent},
    (∀ e ∈ events, p ∉ touchedPlaces e) → ∀ marking : Marking,
      (events.foldl applyEventToMarking marking).tokensAt p = marking.tokensAt p
  | [], _, _ => rfl
  | e :: events, h, marking => by
    obtain ⟨he, hevents⟩ := List.forall_mem_cons.mp h
    rw [List.foldl_cons, tokensAt_foldl_applyEventToMarking hevents, tokensAt_applyEventToMarking he]

/-- The transition and its input arcs are those of the net. -/
def SameTransition (net : PetriNet) (tid : TransitionId) (topology : Option PetriNet) : Prop :=
  ∃ net', topology = some net' ∧ net'.getTransition tid = net.getTransition tid ∧
    net'.inputArcs tid = net.inputArcs tid

theorem SameTransition.topologyAfter (h : SameTransition net tid topology)
    (hsurvives : Survives net tid e) : SameTransition net tid (topologyAfter topology e) := by
  obtain ⟨net', rfl, htransition, harcs⟩ := h
  unfold Mekhan.topologyAfter
  split
  · exact absurd hsurvives.kept (by simp [DomainEvent.isNetInitialized])
  · next other script guard =>
    have hne : tid ≠ other := fun heq => hsurvives.unchanged script guard (by rw [heq])
    rw [updateTransitionScript]
    split
    · exact ⟨_, rfl, (getTransition_updateTransitionScript_of_ne hne).trans htransition, harcs⟩
    · exact ⟨_, rfl, htransition, harcs⟩
  · exact ⟨_, rfl, htransition, harcs⟩

theorem SameTransition.foldl : ∀ {events : List DomainEvent} {topology : Option PetriNet},
    (∀ e ∈ events, Survives net tid e) → SameTransition net tid topology →
      SameTransition net tid (events.foldl Mekhan.topologyAfter topology)
  | [], _, _, h => h
  | e :: events, _, hsurvives, h => by
    obtain ⟨he, hevents⟩ := List.forall_mem_cons.mp hsurvives
    rw [List.foldl_cons]
    exact foldl hevents (h.topologyAfter he)

theorem isSome_getTransition_foldl : ∀ {events : List DomainEvent} {net net' : PetriNet},
    (∀ e ∈ events, e.isNetInitialized = false) → events.foldl topologyAfter (some net) = some net' →
      (net'.getTransition tid).isSome = (net.getTransition tid).isSome
  | [], _, _, _, h => by rw [Option.some.inj h]
  | e :: events, net, net', hkept, h => by
    obtain ⟨he, hevents⟩ := List.forall_mem_cons.mp hkept
    have hstep : ∃ next, topologyAfter (some net) e = some next ∧
        (next.getTransition tid).isSome = (net.getTransition tid).isSome := by
      unfold topologyAfter
      split
      · exact absurd he (by simp [DomainEvent.isNetInitialized])
      · rw [updateTransitionScript]
        split
        · exact ⟨_, rfl, by rw [getTransition_updateTransitionScript, Option.isSome_map]⟩
        · exact ⟨_, rfl, rfl⟩
      · exact ⟨_, rfl, rfl⟩
    obtain ⟨next, hnext, hsome⟩ := hstep
    rw [List.foldl_cons, hnext] at h
    exact (isSome_getTransition_foldl hevents h).trans hsome

theorem findValidBinding_of_survives {executor : TransitionExecutor}
    {schemaRegistry : Option SchemaRegistry} {marking : Marking} (h : ∀ e ∈ events, Survives net tid e)
    (hnone : findValidBinding executor t schemaRegistry (net.inputArcs tid) marking = none) :
    findValidBinding executor t schemaRegistry (net.inputArcs tid) (events.foldl applyEventToMarking marking) =
      none := by
  rw [← hnone]
  refine findValidBinding_congr executor t schemaRegistry fun a ha => ?_
  exact tokensAt_foldl_applyEventToMarking (fun e he hp => (h e he).untouched ⟨a, ha, hp⟩) marking

end

end BindingMemo

open BindingMemo

/-- **Invalidation is complete**: of a memo that was made of the net and is sound at a marking, what is left after
any list of events is sound at the marking after them, for the net as it was and for the net after them. -/
theorem memoInvalidation_complete {executor : TransitionExecutor} {schemaRegistry : Option SchemaRegistry}
    {net : PetriNet} {memo : BindingMemo} {marking : Marking} (hmade : Made net memo)
    (hsound : SoundAt executor schemaRegistry net memo marking) (topology : Option PetriNet)
    (events : List DomainEvent) : SoundAt executor schemaRegistry net (memo.applyEvents topology events)
        (events.foldl applyEventToMarking marking) ∧
      ∀ net', events.foldl topologyAfter (some net) = some net' →
        SoundAt executor schemaRegistry net' (memo.applyEvents topology events)
          (events.foldl applyEventToMarking marking) := by
  have hbound : ∀ tid ∈ (memo.applyEvents topology events).noBinding, ∀ t, net.getTransition tid = some t →
      (∀ e ∈ events, Survives net tid e) ∧
        findValidBinding executor t schemaRegistry (net.inputArcs tid)
          (events.foldl applyEventToMarking marking) = none := by
    intro tid hmem t ht
    obtain ⟨hin, hsurvives⟩ := applyEvents_survivor hmade.indexed ht hmem
    exact ⟨hsurvives, findValidBinding_of_survives hsurvives (hsound tid hin t ht)⟩
  refine ⟨fun tid hmem t ht => (hbound tid hmem t ht).2, fun net' hnet' tid hmem t ht => ?_⟩
  have hsome : (net.getTransition tid).isSome := by
    rw [← isSome_getTransition_foldl (isNetInitialized_of_mem_foldl hmem) hnet', ht]
    rfl
  obtain ⟨t', ht'⟩ := Option.isSome_iff_exists.mp hsome
  obtain ⟨hsurvives, hnone⟩ := hbound tid hmem t' ht'
  obtain ⟨_, heq, htransition, harcs⟩ := SameTransition.foldl hsurvives ⟨net, rfl, rfl, rfl⟩
  obtain rfl := Option.some.inj (hnet'.symm.trans heq)
  rw [harcs]
  rw [ht, ht'] at htransition
  rwa [Option.some.inj htransition]

/-- One transition that waits for a token, and a place it does not look at. -/
def waitingNet : PetriNet :=
  (((PetriNet.new.addPlace (.internal "inbox")).addPlace (.internal "log")).addTransition
    { Transition.new "wait" "" with inputPorts := [.new "in"] }).addArc (.input ⟨0⟩ ⟨"inbox"⟩ ⟨"wait"⟩ "in")

def waitingMemo : BindingMemo := (BindingMemo.new.rebuildIndex waitingNet).markEmpty ⟨"wait"⟩

/-- A token elsewhere, and the entry is still there. -/
theorem memoInvalidation_complete_waiting :
    ⟨"wait"⟩ ∈ (waitingMemo.applyEvents none [.tokenCreated (.new ⟨0⟩ ⟨0⟩ .unit) ⟨"log"⟩ none none none none]).noBinding ∧
      SoundAt ⟨fun _ _ => .ok true, fun _ _ => none, fun _ _ => .ok ∅⟩ none waitingNet
        (waitingMemo.applyEvents none [.tokenCreated (.new ⟨0⟩ ⟨0⟩ .unit) ⟨"log"⟩ none none none none])
        ([.tokenCreated (.new ⟨0⟩ ⟨0⟩ .unit) ⟨"log"⟩ none none none none].foldl applyEventToMarking Marking.new) := by
  have hmade : Made waitingNet waitingMemo := (Made.new.rebuildIndex).markEmpty _
  refine ⟨by decide, (memoInvalidation_complete hmade (fun tid hmem t ht => ?_) none _).1⟩
  obtain rfl : tid = ⟨"wait"⟩ := by simpa [waitingMemo, BindingMemo.markEmpty, BindingMemo.rebuildIndex] using hmem
  rfl

end Mekhan

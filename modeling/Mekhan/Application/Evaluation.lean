import Mekhan.Application.Binding
import Mekhan.Application.BindingMemo

/-!
# Selecting the next transition

`select_next_transition` of `application/src/evaluation.rs`. A pass reads the memo once (`known`),
evaluates every candidate it does not know to be empty, and writes the newly found empty ones back at
the end; `selectFrom` is the part between the two.
-/

namespace Mekhan

open Infra

/-- Which transitions a selection considers. -/
inductive SelectPhase where
  | normal
  | finalizing

/-- The phase gate: finalizers only in the post-failure drain, everything else only before it. -/
def SelectPhase.admits (phase : SelectPhase) (t : Transition) : Bool :=
  match phase with
  | .normal => !t.finalizer
  | .finalizing => t.finalizer

structure Best where
  id : TransitionId
  time : DateTime
  inputCount : Nat
  priority : Option F64

/-- Whether a candidate beats the best so far: earlier enabling time, then more input arcs, then
higher priority, then the smaller id. -/
def isBetter (best : Option Best) (id : TransitionId) (time : Option DateTime) (inputCount : Nat)
    (priority : Option F64) : Bool :=
  match best, time with
  | none, time => time.isSome
  | some _, none => false
  | some best, some time =>
    if time.nanos < best.time.nanos then true
    else if time = best.time then
      if best.inputCount < inputCount then true
      else if inputCount = best.inputCount then
        match priority, best.priority with
        | some p, some bp =>
          if bp.lt p then true else if p.lt bp then false else id.name < best.id.name
        | some _, none => true
        | none, some _ => false
        | none, none => id.name < best.id.name
      else false
    else false

structure Selection where
  best : Option Best
  newlyEmpty : List TransitionId

section

variable (executor : TransitionExecutor) (net : PetriNet) (marking : Marking)
  (schemaRegistry : Option SchemaRegistry)

/-- The binding of a transition of the net at the marking. -/
def bindingOf (t : Transition) : Option TokenBinding :=
  findValidBinding executor t schemaRegistry (net.inputArcs t.id) marking

def considerTransition (known : Option (Finset TransitionId)) (phase : SelectPhase)
    (sel : Selection) (t : Transition) : Selection :=
  if !phase.admits t then sel
  else if known.any fun k => decide (t.id ∈ k) then sel
  else
    match bindingOf executor net marking schemaRegistry t with
    | none => if known.isSome then { sel with newlyEmpty := sel.newlyEmpty ++ [t.id] } else sel
    | some b =>
      let inputCount := (net.inputArcs t.id).length
      let priority := t.priority.bind fun p => executor.evaluatePriority p b.portInputs
      if isBetter sel.best t.id b.maxCreatedAt inputCount priority then
        { sel with best := b.maxCreatedAt.map fun time => ⟨t.id, time, inputCount, priority⟩ }
      else sel

/-- The candidate loop, over the transitions in iteration order. -/
def selectFrom (known : Option (Finset TransitionId)) (phase : SelectPhase) : Selection :=
  net.transitions.values.foldl (considerTransition executor net marking schemaRegistry known phase)
    ⟨none, []⟩

/-- Writes the newly found empty transitions to the memo. -/
def markAll (memo : BindingMemo) (newlyEmpty : List TransitionId) : BindingMemo :=
  newlyEmpty.foldl BindingMemo.markEmpty memo

/-- `select_next_transition` run on its own: the selected transition and the memo after it. -/
def selectNextTransition (memo : Option BindingMemo) (phase : SelectPhase) :
    Option TransitionId × Option BindingMemo :=
  let sel := selectFrom executor net marking schemaRegistry (memo.map (·.snapshot)) phase
  (sel.best.map (·.id), memo.map fun m => markAll m sel.newlyEmpty)

end

/-! ## What is marked empty -/

variable {executor : TransitionExecutor} {net : PetriNet} {marking : Marking}
  {schemaRegistry : Option SchemaRegistry}

variable {tid : TransitionId} {known : Option (Finset TransitionId)} {phase : SelectPhase}

theorem mem_newlyEmpty_considerTransition {sel : Selection} {u : Transition}
    (h : tid ∈ (considerTransition executor net marking schemaRegistry known phase sel u).newlyEmpty) :
    tid ∈ sel.newlyEmpty ∨ (tid = u.id ∧ bindingOf executor net marking schemaRegistry u = none) := by
  unfold considerTransition at h
  split at h
  · exact Or.inl h
  · split at h
    · exact Or.inl h
    · split at h
      · next hnone =>
        split at h
        · rcases List.mem_append.mp h with h | h
          · exact Or.inl h
          · exact Or.inr ⟨List.mem_singleton.mp h, hnone⟩
        · exact Or.inl h
      · dsimp only at h
        split at h <;> exact Or.inl h

theorem mem_newlyEmpty_foldl : ∀ {ts : List Transition} {sel : Selection},
    tid ∈ (ts.foldl (considerTransition executor net marking schemaRegistry known phase) sel).newlyEmpty →
    tid ∈ sel.newlyEmpty ∨ ∃ u ∈ ts, tid = u.id ∧ bindingOf executor net marking schemaRegistry u = none
  | [], _, h => Or.inl h
  | u :: ts, sel, h => by
    rw [List.foldl_cons] at h
    rcases mem_newlyEmpty_foldl h with hin | ⟨v, hv, hempty⟩
    · rcases mem_newlyEmpty_considerTransition hin with hin | hempty
      · exact Or.inl hin
      · exact Or.inr ⟨u, List.mem_cons_self .., hempty⟩
    · exact Or.inr ⟨v, List.mem_cons_of_mem _ hv, hempty⟩

theorem bindingOf_of_mem_newlyEmpty {t : Transition} (ht : net.getTransition tid = some t)
    (h : tid ∈ (selectFrom executor net marking schemaRegistry known phase).newlyEmpty) :
    bindingOf executor net marking schemaRegistry t = none := by
  rcases mem_newlyEmpty_foldl h with hin | ⟨u, hu, hid, hnone⟩
  · cases hin
  · have hget := net.getTransition_of_mem_values hu
    rw [← hid, ht] at hget
    rw [Option.some.inj hget]
    exact hnone

theorem mem_markAll : ∀ {ts : List TransitionId} {m : BindingMemo},
    tid ∈ (markAll m ts).noBinding → tid ∈ m.noBinding ∨ tid ∈ ts
  | [], _, h => Or.inl h
  | t :: ts, m, h => by
    have h' : tid ∈ (markAll (m.markEmpty t) ts).noBinding := h
    rcases mem_markAll h' with hin | hin
    · rcases Finset.mem_insert.mp hin with rfl | hin
      · exact Or.inr List.mem_cons_self
      · exact Or.inl hin
    · exact Or.inr (List.mem_cons_of_mem _ hin)

theorem indexed_markAll {m : BindingMemo} (h : m.Indexed net) :
    ∀ (ts : List TransitionId), (markAll m ts).Indexed net := by
  intro ts
  induction ts generalizing m with
  | nil => exact h
  | cons t ts ih => exact ih h

end Mekhan

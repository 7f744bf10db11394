import Mekhan.Application.CrossProduct
import Mekhan.Application.Evaluation
import Mekhan.Infra.Tournament

/-!
# Bindings without a choice

A transition that takes the only token of one place and otherwise reads has one candidate: whatever
the indices, the search builds the same binding, and the guard decides.
-/

namespace Mekhan

open Infra

/-- The ports of bound tokens with their data. -/
def portsOf (bound : List (Arc × Token)) : HashMap String Json :=
  bound.foldl (fun m x => m.insert x.1.portName (tokenColorToJson x.2.color)) ∅

/-- The latest creation of the bound tokens. -/
def latestOf (bound : List (Arc × Token)) : Option DateTime :=
  bound.foldl (fun time x => TokenBinding.laterOf time x.2) none

/-! ## The only candidate -/

def bindToken (b : TokenBinding) (x : Arc × Token) : TokenBinding :=
  ({ b with consumedReplyRouting :=
      if x.1.read then b.consumedReplyRouting else x.2.replyRouting }.take x.1 [x.2]).setPort
    x.1.portName (tokenColorToJson x.2.color)

def bindTokens (bound : List (Arc × Token)) : TokenBinding := bound.foldl bindToken .empty

theorem maxCreatedAt_bindToken (b : TokenBinding) (x : Arc × Token) :
    (bindToken b x).maxCreatedAt = TokenBinding.laterOf b.maxCreatedAt x.2 := by
  unfold bindToken TokenBinding.take
  split <;> rfl

theorem portInputs_bindToken (b : TokenBinding) (x : Arc × Token) : (bindToken b x).portInputs =
      b.portInputs.insert x.1.portName (tokenColorToJson x.2.color) := by
  unfold bindToken TokenBinding.take
  split <;> rfl

@[simp] theorem maxCreatedAt_bindTokens (bound : List (Arc × Token)) :
    (bindTokens bound).maxCreatedAt = latestOf bound := by
  have h : ∀ (l : List (Arc × Token)) (b : TokenBinding), (l.foldl bindToken b).maxCreatedAt =
      l.foldl (fun time x => TokenBinding.laterOf time x.2) b.maxCreatedAt := by
    intro l
    induction l with
    | nil => exact fun b => rfl
    | cons x l ih => exact fun b => by rw [List.foldl_cons, ih, maxCreatedAt_bindToken]; rfl
  exact h bound .empty

@[simp] theorem portInputs_bindTokens (bound : List (Arc × Token)) :
    (bindTokens bound).portInputs = portsOf bound := by
  have h : ∀ (l : List (Arc × Token)) (b : TokenBinding), (l.foldl bindToken b).portInputs =
      l.foldl (fun m x => m.insert x.1.portName (tokenColorToJson x.2.color)) b.portInputs := by
    intro l
    induction l with
    | nil => exact fun b => rfl
    | cons x l ih => exact fun b => by rw [List.foldl_cons, ih, portInputs_bindToken]; rfl
  exact h bound .empty

section

variable {executor : TransitionExecutor} {transition : Transition}
  {schemaRegistry : Option SchemaRegistry} {marking : Marking}

/-- An arc that can bind one token only: it reads the newest one, or it takes the only one. -/
structure Pinned (transition : Transition) (schemaRegistry : Option SchemaRegistry)
    (marking : Marking) (x : Arc × Token) : Prop where
  countFrom : x.1.countFrom = none
  drainMax : x.1.drainMax = none
  weight : x.1.weight = 1
  single : (transition.inputPort x.1.portName).map (·.cardinality) ≠ some .batch
  newest : (marking.tokensAt x.1.placeId).getLast? = some x.2
  only : x.1.read = false → marking.tokensAt x.1.placeId = [x.2]
  valid : matchesSchema schemaRegistry (transition.inputPort x.1.portName)
    [tokenColorToJson x.2.color] = true

def arcTokens (marking : Marking) (a : Arc) : ArcTokens := ⟨a, marking.tokensAt a.placeId⟩

namespace Pinned

variable {x : Arc × Token} {idx : Nat} {b : TokenBinding}

theorem bindPlain (h : Pinned transition schemaRegistry marking x)
    (hidx : idx < (marking.tokensAt x.1.placeId).length)
    (hrouting : x.1.read = false → b.consumedReplyRouting = none) :
    Mekhan.bindPlain transition schemaRegistry b (arcTokens marking x.1) idx = some (bindToken b x) := by
  have hbatch : ((transition.inputPort x.1.portName).map (·.cardinality) = some .batch) = False :=
    eq_false h.single
  unfold Mekhan.bindPlain arcTokens bindToken
  cases hread : x.1.read with
  | true =>
    simp [List.getElem?_eq_getElem hidx, h.newest, hbatch, h.valid]
  | false =>
    have honly := h.only hread
    obtain rfl : idx = 0 := by
      rw [honly] at hidx
      exact Nat.lt_one_iff.mp hidx
    have hmerge : mergeRoutings b.consumedReplyRouting [x.2] = some x.2.replyRouting := by
      rw [hrouting hread]
      unfold mergeRoutings
      cases x.2.replyRouting <;> rfl
    simp [honly, hmerge, hbatch, h.valid]

theorem bindArc (h : Pinned transition schemaRegistry marking x)
    (hidx : idx < (marking.tokensAt x.1.placeId).length)
    (hrouting : x.1.read = false → b.consumedReplyRouting = none) :
    Mekhan.bindArc transition schemaRegistry b (arcTokens marking x.1, idx) = some (bindToken b x) := by
  have hdrain : (arcTokens marking x.1).arc.drainMax = none := h.drainMax
  have hcount : (arcTokens marking x.1).arc.countFrom = none := h.countFrom
  unfold Mekhan.bindArc
  simp only [hdrain, hcount]
  exact h.bindPlain hidx hrouting

end Pinned

variable {reads : List (Arc × Token)}

theorem foldlM_reads : ∀ {indices : List Nat} {b : TokenBinding},
      (∀ x ∈ reads, Pinned transition schemaRegistry marking x ∧ x.1.read = true) →
      indices ∈ combinations (reads.map fun x => (marking.tokensAt x.1.placeId).length) →
      ((reads.map fun x => arcTokens marking x.1).zip indices).foldlM
        (bindArc transition schemaRegistry) b = some (reads.foldl bindToken b) := by
  induction reads with
  | nil => exact fun _ _ => rfl
  | cons x reads ih =>
    intro indices b hreads hindices
    obtain ⟨i, is, rfl, hi, his⟩ := mem_combinations_cons.mp hindices
    obtain ⟨hpinned, hread⟩ := hreads x List.mem_cons_self
    have hstep : bindArc transition schemaRegistry b (arcTokens marking x.1, i) =
        some (bindToken b x) := hpinned.bindArc hi fun h => absurd h (by simp [hread])
    rw [List.map_cons, List.zip_cons_cons, List.foldlM_cons, hstep, Option.bind_eq_bind,
      Option.bind_some, List.foldl_cons]
    exact ih (fun y hy => hreads y (List.mem_cons_of_mem _ hy)) his

/-- The token a transition takes and the tokens it reads. -/
structure PinnedAll (transition : Transition) (schemaRegistry : Option SchemaRegistry)
    (marking : Marking) (x : Arc × Token) (reads : List (Arc × Token)) : Prop where
  taken : Pinned transition schemaRegistry marking x
  reads : ∀ y ∈ reads, Pinned transition schemaRegistry marking y ∧ y.1.read = true

namespace PinnedAll

variable {x : Arc × Token} {reads : List (Arc × Token)}

theorem pinned (h : PinnedAll transition schemaRegistry marking x reads) :
    ∀ y ∈ x :: reads, Pinned transition schemaRegistry marking y := by
  intro y hy
  rcases List.mem_cons.mp hy with rfl | hy
  · exact h.taken
  · exact (h.reads y hy).1

theorem buildBindingForIndices (h : PinnedAll transition schemaRegistry marking x reads)
    {indices : List Nat} (hindices : indices ∈
      combinations ((x :: reads).map fun y => (marking.tokensAt y.1.placeId).length)) :
    Mekhan.buildBindingForIndices transition schemaRegistry
      ((x :: reads).map fun y => arcTokens marking y.1) indices =
        some (bindTokens (x :: reads)) := by
  have hplain : ∀ a ∈ ((x :: reads).map fun y => arcTokens marking y.1).zip indices,
      a.1.arc.countFrom = none := by
    intro a ha
    obtain ⟨y, hy, hya⟩ := List.mem_map.mp (List.of_mem_zip ha).1
    rw [← hya]
    exact (h.pinned y hy).countFrom
  have hall : (((x :: reads).map fun y => arcTokens marking y.1).zip indices).filter
      (fun a => a.1.arc.countFrom.isNone) =
        ((x :: reads).map fun y => arcTokens marking y.1).zip indices :=
    List.filter_eq_self.mpr fun a ha => by rw [hplain a ha]; rfl
  have hnone : (((x :: reads).map fun y => arcTokens marking y.1).zip indices).filter
      (fun a => a.1.arc.countFrom.isSome) = [] :=
    List.filter_eq_nil_iff.mpr fun a ha => by rw [hplain a ha]; simp
  obtain ⟨i, is, rfl, hi, his⟩ := mem_combinations_cons.mp hindices
  have hfirst : bindArc transition schemaRegistry .empty (arcTokens marking x.1, i) =
      some (bindToken .empty x) := h.taken.bindArc hi fun _ => rfl
  unfold Mekhan.buildBindingForIndices
  simp only [hall, hnone]
  rw [List.map_cons, List.zip_cons_cons, List.foldlM_cons, hfirst, Option.bind_eq_bind,
    Option.bind_some, foldlM_reads h.reads his]
  rfl

theorem length_pos (h : PinnedAll transition schemaRegistry marking x reads) :
    ∀ y ∈ x :: reads, 0 < (marking.tokensAt y.1.placeId).length := by
  intro y hy
  have hsome := (h.pinned y hy).newest
  exact List.length_pos_of_ne_nil fun hnil => by simp [hnil] at hsome

theorem zeros_mem (h : PinnedAll transition schemaRegistry marking x reads) : ((x :: reads).map fun _ => 0) ∈
      combinations ((x :: reads).map fun y => (marking.tokensAt y.1.placeId).length) := by
  have hzeros : ∀ l : List (Arc × Token), (∀ y ∈ l, 0 < (marking.tokensAt y.1.placeId).length) →
      (l.map fun _ => 0) ∈ combinations (l.map fun y => (marking.tokensAt y.1.placeId).length) := by
    intro l
    induction l with
    | nil => exact fun _ => List.mem_singleton_self _
    | cons y l ih =>
      intro hl
      exact mem_combinations_cons.mpr ⟨0, _, rfl, hl y List.mem_cons_self,
        ih fun z hz => hl z (List.mem_cons_of_mem _ hz)⟩
  exact hzeros _ h.length_pos

theorem joinPlan (h : PinnedAll transition schemaRegistry marking x reads)
    (constraints : List JoinConstraint) :
    JoinPlan.build transition ((x :: reads).map fun y => arcTokens marking y.1) constraints =
      none := by
  have hread : ∀ i a, 0 < i → ((x :: reads).map fun y => arcTokens marking y.1)[i]? = some a →
      JoinPlan.indexable transition a.arc = false := by
    intro i a hi ha
    obtain ⟨j, rfl⟩ := Nat.exists_eq_succ_of_ne_zero (Nat.pos_iff_ne_zero.mp hi)
    obtain ⟨y, hy, hya⟩ := List.mem_map.mp
      (List.mem_of_getElem? (l := reads.map fun y => arcTokens marking y.1) ha)
    have hyread := (h.reads y hy).2
    simp [JoinPlan.indexable, ← hya, arcTokens, hyread]
  have hedge : ∀ con, JoinPlan.backEdge? transition
      ((x :: reads).map fun y => arcTokens marking y.1) con = none := by
    intro con
    unfold JoinPlan.backEdge?
    refine Option.bind_eq_none_iff.mpr fun ia _ => Option.bind_eq_none_iff.mpr fun ib _ =>
      Option.bind_eq_none_iff.mpr fun a ha => Option.bind_eq_none_iff.mpr fun b hb => ?_
    rw [if_pos]
    by_contra hnot
    rw [not_or, not_or, not_not, not_not] at hnot
    obtain ⟨hne, hia, hib⟩ := hnot
    have hazero : ia = 0 := by
      by_contra hpos
      rw [hread ia a (Nat.pos_of_ne_zero hpos) ha] at hia
      cases hia
    have hbzero : ib = 0 := by
      by_contra hpos
      rw [hread ib b (Nat.pos_of_ne_zero hpos) hb] at hib
      cases hib
    exact hne (hazero.trans hbzero.symm)
  have hedges : constraints.filterMap (JoinPlan.backEdge? transition
      ((x :: reads).map fun y => arcTokens marking y.1)) = [] :=
    List.filterMap_eq_nil_iff.mpr fun con _ => hedge con
  simp only [JoinPlan.build, hedges, if_true]

end PinnedAll

/-- Whether the guard of a transition holds on the ports. -/
def guardHolds (executor : TransitionExecutor) (transition : Transition)
    (ports : HashMap String Json) : Bool :=
  match transition.guard with
  | none => true
  | some script =>
    match executor.evaluateGuard script ports with
    | .ok true => true
    | _ => false

/-- **The search finds the only candidate, if the guard holds on it.** -/
theorem findValidBinding_pinned {x : Arc × Token}
    (h : PinnedAll transition schemaRegistry marking x reads) {arcs : List Arc}
    (harcs : arcs = (x :: reads).map Prod.fst) :
    findValidBinding executor transition schemaRegistry arcs marking =
      if guardHolds executor transition (portsOf (x :: reads)) then some (bindTokens (x :: reads))
      else none := by
  have hcollected : (arcs.map fun a => (⟨a, marking.tokensAt a.placeId⟩ : ArcTokens)) =
      (x :: reads).map fun y => arcTokens marking y.1 := by
    rw [harcs, List.map_map]
    rfl
  have henough : (((x :: reads).map fun y => arcTokens marking y.1).any fun a =>
      a.arc.countFrom.isNone && a.arc.drainMax.isNone && a.tokens.length < a.arc.weight) =
        false := by
    refine List.any_eq_false.mpr fun a ha => ?_
    obtain ⟨y, hy, rfl⟩ := List.mem_map.mp ha
    have hpos := h.length_pos y hy
    have hweight := (h.pinned y hy).weight
    simp only [arcTokens, hweight, Bool.and_eq_true, decide_eq_true_eq, not_and, Nat.not_lt]
    exact fun _ => hpos
  have hnonempty : ((x :: reads).map fun y => arcTokens marking y.1) ≠ [] := by simp
  have hzeros : (((x :: reads).map fun y => arcTokens marking y.1).map fun _ => 0) =
      (x :: reads).map fun _ => 0 := by rw [List.map_map]; rfl
  have hfifo : buildBindingForIndices transition schemaRegistry
      ((x :: reads).map fun y => arcTokens marking y.1)
      (((x :: reads).map fun y => arcTokens marking y.1).map fun _ => 0) =
        some (bindTokens (x :: reads)) := by
    rw [hzeros]
    exact h.buildBindingForIndices h.zeros_mem
  have hsizes : (((x :: reads).map fun y => arcTokens marking y.1).map (·.tokens.length)) =
      (x :: reads).map fun y => (marking.tokensAt y.1.placeId).length := by
    rw [List.map_map]
    rfl
  unfold findValidBinding searchBinding
  simp only [hcollected, henough, hnonempty, Bool.false_eq_true, if_false]
  cases hguard : transition.guard with
  | none =>
    dsimp only
    rw [hfifo]
    simp only [guardHolds, hguard, if_true]
    cases schemaRegistry <;> rfl
  | some script =>
    dsimp only
    rw [h.joinPlan, ite_self, hsizes]
    have htry : ∀ indices ∈ combinations
        ((x :: reads).map fun y => (marking.tokensAt y.1.placeId).length),
        tryIndices executor transition schemaRegistry (some script)
          ((x :: reads).map fun y => arcTokens marking y.1) indices =
            if guardHolds executor transition (portsOf (x :: reads)) then
              some (bindTokens (x :: reads)) else none := by
      intro indices hindices
      rw [tryIndices, h.buildBindingForIndices hindices, Option.bind_eq_bind, Option.bind_some]
      simp only [portInputs_bindTokens, guardHolds, hguard]
      cases executor.evaluateGuard script (portsOf (x :: reads)) with
      | error failure => rfl
      | ok holds => cases holds <;> rfl
    cases hholds : guardHolds executor transition (portsOf (x :: reads)) with
    | false =>
      rw [if_neg (by simp)]
      refine List.findSome?_eq_none_iff.mpr fun indices hindices => ?_
      rw [htry indices hindices, hholds]
      rfl
    | true =>
      rw [if_pos rfl]
      cases hcomb : combinations
          ((x :: reads).map fun y => (marking.tokensAt y.1.placeId).length) with
      | nil =>
        have hmem := h.zeros_mem
        rw [hcomb] at hmem
        exact absurd hmem (List.not_mem_nil)
      | cons indices rest =>
        have hmem : indices ∈ combinations
            ((x :: reads).map fun y => (marking.tokensAt y.1.placeId).length) := by
          rw [hcomb]
          exact List.mem_cons_self ..
        rw [List.findSome?_cons_of_isSome]
        · rw [htry indices hmem, hholds, if_pos rfl]
        · rw [htry indices hmem, hholds, if_pos rfl]
          rfl

end

/-! ## The transition that is selected -/

section

variable (executor : TransitionExecutor) (net : PetriNet) (marking : Marking)
  (schemaRegistry : Option SchemaRegistry)

/-- The rank of a transition that has a binding. -/
def rankOf (t : Transition) : Option Best :=
  (bindingOf executor net marking schemaRegistry t).bind fun b => b.maxCreatedAt.map fun time =>
    { id := t.id
      time := time
      inputCount := (net.inputArcs t.id).length
      priority := t.priority.bind fun p => executor.evaluatePriority p b.portInputs }

/-- The rank of a transition that the selection considers. -/
def candidateOf (known : Option (Finset TransitionId)) (phase : SelectPhase) (t : Transition) :
    Option Best :=
  if !phase.admits t then none
  else if known.any fun k => decide (t.id ∈ k) then none
  else rankOf executor net marking schemaRegistry t

def Best.beats (r : Best) (best : Option Best) : Bool :=
  isBetter best r.id (some r.time) r.inputCount r.priority

def Best.wins (r r' : Best) : Bool := r.beats (some r')

def KnownEmpty (known : Option (Finset TransitionId)) : Prop :=
  ∀ k, known = some k → ∀ t ∈ net.transitions.values, t.id ∈ k →
    bindingOf executor net marking schemaRegistry t = none

end

variable {executor : TransitionExecutor} {net : PetriNet} {marking : Marking}
  {schemaRegistry : Option SchemaRegistry} {known : Option (Finset TransitionId)}
  {phase : SelectPhase}

namespace Best

variable {r r' : Best}

/-- One rank goes before another, and not the other way round. -/
def Above (r r' : Best) : Prop := r.beats (some r') = true ∧ r'.beats (some r) = false

theorem above_of_time (h : r.time.nanos < r'.time.nanos) : r.Above r' := by
  have hne : r'.time ≠ r.time := fun he => by
    rw [he] at h
    exact Int.lt_irrefl _ h
  simp [Above, beats, isBetter, h, hne, Int.lt_asymm h]

theorem above_of_inputCount (htime : r.time = r'.time) (h : r'.inputCount < r.inputCount) : r.Above r' := by
  have hne : r'.inputCount ≠ r.inputCount := Nat.ne_of_lt h
  simp [Above, beats, isBetter, htime, h, hne, Nat.lt_asymm h]

theorem above_of_priority (htime : r.time = r'.time) (hcount : r.inputCount = r'.inputCount)
    {p p' : F64} (hp : r.priority = some p) (hp' : r'.priority = some p') (h : p'.lt p = true)
    (h' : p.lt p' = false) : r.Above r' := by
  simp [Above, beats, isBetter, htime, hcount, hp, hp', h, h']

end Best

theorem best_considerTransition (sel : Selection) (t : Transition) :
    (considerTransition executor net marking schemaRegistry known phase sel t).best =
      match candidateOf executor net marking schemaRegistry known phase t with
      | none => sel.best
      | some r => challenge Best.wins sel.best r := by
  unfold considerTransition candidateOf rankOf
  split
  · rfl
  · split
    · rfl
    · cases hb : bindingOf executor net marking schemaRegistry t with
      | none =>
        dsimp only [Option.bind_none]
        split <;> rfl
      | some b =>
        cases htime : b.maxCreatedAt with
        | none =>
          have hnot : ∀ c p, isBetter sel.best t.id none c p = false := by
            intro c p
            cases sel.best <;> rfl
          simp [htime, hnot]
        | some time =>
          simp only [htime, Option.bind_some, Option.map_some]
          cases hbest : sel.best with
          | none => rfl
          | some r => exact (apply_ite Selection.best _ _ _).trans (by rw [hbest]; rfl)

/-- **The loop is a tournament of the candidates**, in iteration order. -/
theorem best_selectFrom : (selectFrom executor net marking schemaRegistry known phase).best =
      champion Best.wins
        (net.transitions.values.filterMap (candidateOf executor net marking schemaRegistry known phase)) := by
  have hfold : ∀ (ts : List Transition) (sel : Selection),
      (ts.foldl (considerTransition executor net marking schemaRegistry known phase) sel).best =
        (ts.filterMap (candidateOf executor net marking schemaRegistry known phase)).foldl
          (challenge Best.wins) sel.best := by
    intro ts
    induction ts with
    | nil => exact fun sel => rfl
    | cons t ts ih =>
      intro sel
      rw [List.foldl_cons, ih, best_considerTransition]
      cases hc : candidateOf executor net marking schemaRegistry known phase t with
      | none => rw [List.filterMap_cons_none hc]
      | some r => rw [List.filterMap_cons_some hc, List.foldl_cons]
  exact hfold _ _

theorem candidateOf_eq_rankOf {t : Transition} (hphase : phase.admits t = true)
    (hknown : KnownEmpty executor net marking schemaRegistry known) (ht : t ∈ net.transitions.values) :
    candidateOf executor net marking schemaRegistry known phase t =
      rankOf executor net marking schemaRegistry t := by
  unfold candidateOf
  rw [hphase, Bool.not_true, if_neg (by simp)]
  split
  · next hmem =>
    cases known with
    | none => cases hmem
    | some k =>
      rw [rankOf, hknown k rfl t ht (by simpa using hmem)]
      rfl
  · rfl

/-- **A transition that ranks before every other one is selected**, whatever the order in which they
are considered. -/
theorem best_of_beats {t : Transition} {r : Best} (ht : t ∈ net.transitions.values)
    (hphase : ∀ u ∈ net.transitions.values, phase.admits u = true)
    (hknown : KnownEmpty executor net marking schemaRegistry known)
    (hr : rankOf executor net marking schemaRegistry t = some r)
    (hbeats : ∀ u ∈ net.transitions.values, u ≠ t → ∀ r',
      rankOf executor net marking schemaRegistry u = some r' → r.Above r') :
    (selectFrom executor net marking schemaRegistry known phase).best = some r := by
  have hcandidate : ∀ u ∈ net.transitions.values,
      candidateOf executor net marking schemaRegistry known phase u =
        rankOf executor net marking schemaRegistry u :=
    fun u hu => candidateOf_eq_rankOf (hphase u hu) hknown hu
  rw [best_selectFrom]
  refine champion_of_dominates ⟨List.mem_filterMap.mpr ⟨t, ht, by rw [hcandidate t ht, hr]⟩, ?_⟩
  intro r' hr' hne
  obtain ⟨u, hu, hru⟩ := List.mem_filterMap.mp hr'
  rw [hcandidate u hu] at hru
  refine hbeats u hu (fun hut => hne ?_) r' hru
  rw [hut, hr] at hru
  exact (Option.some.inj hru).symm

end Mekhan

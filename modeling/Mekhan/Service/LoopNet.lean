import Mekhan.Application.NetScheduling

/-!
# The net of a Loop node

`service/src/compiler/lower/loop_.rs`: `lower_loop` parks the iteration counter, with the accumulators
as further fields, in the node's data place. `t_continue` consumes it and parks the next one, `t_exit`
only reads it, so that what comes after the loop can borrow it. The body is whatever consumes
`body_in` and produces `body_out`.
-/

namespace Mekhan

open Infra
open Rhai (prop int increment)

inductive LoopPlace where
  | input
  | bodyIn
  | bodyOut
  | output
  | data
  /-- The parked data of a producer that an expression of the loop reads. -/
  | borrowed (k : Nat)
  deriving DecidableEq

inductive LoopTransition where
  | tEnter
  | tContinue
  | tExit
  deriving DecidableEq

/-- A fold over the iterations: its field, and its two expressions on the input, the counter and the
borrowed data. -/
structure Accumulator where
  var : String
  init : RhaiMap → List RhaiMap → Json
  mergeExpr : RhaiMap → RhaiMap → List RhaiMap → Json

structure LoopNode where
  id : String
  maxIterations : Nat
  /-- On the body's token, the counter and the data the condition borrows. -/
  loopCondition : RhaiMap → RhaiMap → List RhaiMap → Bool
  accumulators : List Accumulator
  /-- The producers that the initial values, the condition and the merge expressions read. -/
  initBorrows : List Nat
  guardBorrows : List Nat
  mergeBorrows : List Nat
  /-- `validate_loop`. -/
  positive : 0 < maxIterations
  /-- An `i64`. -/
  fits : maxIterations < 2 ^ 63

abbrev LoopToken := Stamped (Traced RhaiMap)

instance : DecidableEq LoopToken := inferInstance

abbrev LoopMarking := Queues LoopPlace LoopToken

namespace LoopNet

variable (node : LoopNode)

/-! ## Scripts -/

/-- The counter that `t_enter` parks. -/
def initial (input : RhaiMap) (borrowed : List RhaiMap) : RhaiMap :=
  ("iteration", int 0) :: node.accumulators.map fun a => (a.var, a.init input borrowed)

/-- The counter that `t_continue` parks. -/
def advanced (input counter : RhaiMap) (borrowed : List RhaiMap) : RhaiMap :=
  ("iteration", increment (prop counter "iteration")) ::
    node.accumulators.map fun a => (a.var, a.mergeExpr input counter borrowed)

/-- The condition sees the data it borrows, which the transitions read first. -/
def condition (input counter : RhaiMap) (borrowed : List RhaiMap) : Bool :=
  node.loopCondition input counter (borrowed.take node.guardBorrows.length)

/-- `<slug>.iteration < max && (condition)`. -/
def continues (input counter : RhaiMap) (borrowed : List RhaiMap) : Bool :=
  Rhai.lt (prop counter "iteration") (int node.maxIterations) &&
    condition node input counter borrowed

/-- `<slug>.iteration >= max || !(condition)`. -/
def exits (input counter : RhaiMap) (borrowed : List RhaiMap) : Bool :=
  Rhai.ge (prop counter "iteration") (int node.maxIterations) ||
    !condition node input counter borrowed

/-! ## The net -/

def peeks (ks : List Nat) : List (InArc LoopPlace RhaiMap) := ks.map fun k => .peek (.borrowed k)

def tEnter : QueueTransition LoopPlace RhaiMap where
  inputs := .take .input :: peeks node.initBorrows
  guard := fun _ => true
  outputs := fun bound =>
    match bound.flatten with
    | input :: borrowed => [(.bodyIn, input), (.data, initial node input borrowed)]
    | _ => []

def tContinue : QueueTransition LoopPlace RhaiMap where
  inputs := .take .bodyOut :: .take .data :: peeks (node.guardBorrows ++ node.mergeBorrows)
  guard := fun bound =>
    match bound.flatten with
    | input :: counter :: borrowed => continues node input counter borrowed
    | _ => false
  outputs := fun bound =>
    match bound.flatten with
    | input :: counter :: borrowed => [(.bodyIn, input), (.data, advanced node input counter borrowed)]
    | _ => []

def tExit : QueueTransition LoopPlace RhaiMap where
  inputs := .take .bodyOut :: .peek .data :: peeks node.guardBorrows
  guard := fun bound =>
    match bound.flatten with
    | input :: counter :: borrowed => exits node input counter borrowed
    | _ => false
  outputs := fun bound =>
    match bound.flatten with
    | input :: _ => [(.output, input)]
    | _ => []

/-- `lower_loop`. -/
def loopNet : LoopTransition → QueueTransition LoopPlace RhaiMap
  | .tEnter => tEnter node
  | .tContinue => tContinue node
  | .tExit => tExit node

def transitionId : LoopTransition → TransitionId
  | .tEnter => ⟨"t_" ++ node.id ++ "_enter"⟩
  | .tContinue => ⟨"t_" ++ node.id ++ "_continue"⟩
  | .tExit => ⟨"t_" ++ node.id ++ "_exit"⟩

def transitions : List LoopTransition := [.tEnter, .tContinue, .tExit]

def selected (m : LoopMarking) : Option (LoopTransition × Best) :=
  selectCandidate (transitionId node) (fun t => traced (loopNet node t)) m transitions

def colours (tokens : List LoopToken) : List RhaiMap := tokens.map (·.colour.colour)

/-- The newest data at the borrowed places. -/
def newest (m : LoopMarking) (ks : List Nat) : List LoopToken :=
  ks.filterMap fun k => (m (.borrowed k)).getLast?

/-! ## What a firing does -/

/-- The firings at a marking, with the tokens they bind. -/
inductive Fires (m : LoopMarking) (now : DateTime) : LoopTransition → LoopMarking → Prop
  | enter {l₁ l₂ : List LoopToken} {x : LoopToken} (hinput : m .input = l₁ ++ x :: l₂)
      (hbound : boundBy (loopNet node) m .tEnter = some (x :: newest m node.initBorrows)) :
      Fires m now .tEnter (enqueue (Function.update m .input (l₁ ++ l₂))
        [(.bodyIn, ⟨x.colour, now⟩),
          (.data, ⟨⟨initial node x.colour.colour (colours (newest m node.initBorrows)),
            x.colour.origin⟩, now⟩)])
  | next {l₁ l₂ d₁ d₂ : List LoopToken} {x c : LoopToken} (hbody : m .bodyOut = l₁ ++ x :: l₂)
      (hdata : m .data = d₁ ++ c :: d₂)
      (hbound : boundBy (loopNet node) m .tContinue =
        some (x :: c :: newest m (node.guardBorrows ++ node.mergeBorrows)))
      (hguard : continues node x.colour.colour c.colour.colour
        (colours (newest m (node.guardBorrows ++ node.mergeBorrows))) = true) :
      Fires m now .tContinue
        (enqueue (Function.update (Function.update m .bodyOut (l₁ ++ l₂)) .data (d₁ ++ d₂))
          [(.bodyIn, ⟨x.colour, now⟩),
            (.data, ⟨⟨advanced node x.colour.colour c.colour.colour
              (colours (newest m (node.guardBorrows ++ node.mergeBorrows))), x.colour.origin⟩, now⟩)])
  | exit {l₁ l₂ : List LoopToken} {x c : LoopToken} (hbody : m .bodyOut = l₁ ++ x :: l₂)
      (hdata : (m .data).getLast? = some c)
      (hbound : boundBy (loopNet node) m .tExit = some (x :: c :: newest m node.guardBorrows))
      (hguard : exits node x.colour.colour c.colour.colour
        (colours (newest m node.guardBorrows)) = true) :
      Fires m now .tExit (enqueue (Function.update m .bodyOut (l₁ ++ l₂))
        [(.output, ⟨x.colour, now⟩)])

variable {node}

theorem peeks_inputs (ks : List Nat) : ((peeks ks).map (InArc.comap Traced.colour)).map
    (InArc.comap Stamped.colour) = (ks.map LoopPlace.borrowed).map (.peek (C := LoopToken)) := by
  simp [peeks, InArc.comap, Function.comp_def]

variable {m : LoopMarking} {ks : List Nat} {t : LoopTransition}

variable {m' : LoopMarking} {c x : LoopToken}

theorem newest_eq {cs : List LoopToken} (hsame : ∀ k, m' (.borrowed k) = m (.borrowed k))
    (h : (ks.map LoopPlace.borrowed).map (fun p => (m' p).getLast?) = cs.map some) :
    cs = newest m ks := by
  have hfilter := congrArg (List.filterMap id) h
  rw [List.map_map, List.filterMap_map, List.filterMap_map] at hfilter
  simp only [Function.comp_def, hsame, id] at hfilter
  rw [newest, hfilter]
  simp

theorem fires_of_fire {now : DateTime}
    (h : (timed now (traced (loopNet node t))).fire? m = some m') : Fires node m now t m' := by
  obtain ⟨bound, rest, hb, rfl⟩ := QueueTransition.fire?_eq_some h
  obtain ⟨hmem, hguard⟩ := QueueTransition.binding?_eq_some hb
  have hbound := boundBy_of_binding (congrArg (Option.map Prod.fst) hb)
  cases t with
  | tEnter =>
    have hinputs : (timed now (traced (loopNet node .tEnter))).inputs =
        .take .input :: (node.initBorrows.map .borrowed).map .peek :=
      congrArg (InArc.take LoopPlace.input :: ·) (peeks_inputs node.initBorrows)
    rw [hinputs] at hmem
    obtain ⟨l₁, x, l₂, hinput, hmem⟩ := mem_choices_take.mp hmem
    obtain ⟨rfl, cs, hcs, rfl⟩ := mem_choices_peeks.mp hmem
    obtain rfl := newest_eq (m := m) (by simp) hcs
    have hflat : ([] ++ [[x]] ++ (newest m node.initBorrows).map fun c => [c]).flatten =
        x :: newest m node.initBorrows := by
      simp [flatten_map_single]
    rw [hflat] at hbound
    rw [outputs_timed_traced hflat (by
      simp only [loopNet, tEnter, flatten_colours, hflat, List.map_cons]
      rfl)]
    exact .enter hinput hbound
  | tContinue =>
    have hinputs : (timed now (traced (loopNet node .tContinue))).inputs =
        .take .bodyOut :: .take .data ::
          ((node.guardBorrows ++ node.mergeBorrows).map .borrowed).map .peek :=
      congrArg (InArc.take LoopPlace.bodyOut :: InArc.take LoopPlace.data :: ·)
        (peeks_inputs (node.guardBorrows ++ node.mergeBorrows))
    rw [hinputs] at hmem
    obtain ⟨l₁, x, l₂, hbody, hmem⟩ := mem_choices_take.mp hmem
    obtain ⟨d₁, c, d₂, hdata, hmem⟩ := mem_choices_take.mp hmem
    rw [Function.update_of_ne (by decide)] at hdata
    obtain ⟨rfl, cs, hcs, rfl⟩ := mem_choices_peeks.mp hmem
    obtain rfl := newest_eq (m := m) (by simp) hcs
    have hflat : ([] ++ [[x]] ++ [[c]] ++
        (newest m (node.guardBorrows ++ node.mergeBorrows)).map fun c => [c]).flatten =
          x :: c :: newest m (node.guardBorrows ++ node.mergeBorrows) := by
      simp [flatten_map_single]
    have hguard' : continues node x.colour.colour c.colour.colour
        (colours (newest m (node.guardBorrows ++ node.mergeBorrows))) = true := by
      simpa only [timed, traced, QueueTransition.comap, loopNet, tContinue, flatten_colours, hflat,
        colours, List.map_cons] using hguard
    rw [hflat] at hbound
    rw [outputs_timed_traced hflat (by
      simp only [loopNet, tContinue, flatten_colours, hflat, List.map_cons]
      rfl)]
    exact .next hbody hdata hbound hguard'
  | tExit =>
    have hinputs : (timed now (traced (loopNet node .tExit))).inputs =
        .take .bodyOut :: .peek .data :: (node.guardBorrows.map .borrowed).map .peek :=
      congrArg (InArc.take LoopPlace.bodyOut :: InArc.peek LoopPlace.data :: ·)
        (peeks_inputs node.guardBorrows)
    rw [hinputs] at hmem
    obtain ⟨l₁, x, l₂, hbody, hmem⟩ := mem_choices_take.mp hmem
    obtain ⟨c, hdata, hmem⟩ := mem_choices_peek.mp hmem
    rw [Function.update_of_ne (by decide)] at hdata
    obtain ⟨rfl, cs, hcs, rfl⟩ := mem_choices_peeks.mp hmem
    obtain rfl := newest_eq (m := m) (by simp) hcs
    have hflat : ([] ++ [[x]] ++ [[c]] ++ (newest m node.guardBorrows).map fun c => [c]).flatten =
        x :: c :: newest m node.guardBorrows := by
      simp [flatten_map_single]
    have hguard' : exits node x.colour.colour c.colour.colour
        (colours (newest m node.guardBorrows)) = true := by
      simpa only [timed, traced, QueueTransition.comap, loopNet, tExit, flatten_colours, hflat,
        colours, List.map_cons] using hguard
    rw [hflat] at hbound
    rw [outputs_timed_traced hflat (by
      simp only [loopNet, tExit, flatten_colours, hflat, List.map_cons]
      rfl)]
    exact .exit hbody hdata hbound hguard'

/-! ## What is enabled -/

theorem fires_of_boundBy {tokens : List LoopToken}
    (h : boundBy (loopNet node) m t = some tokens) : ∃ m', Fires node m ⟨0⟩ t m' := by
  obtain ⟨bound, hbound, -⟩ := Option.map_eq_some_iff.mp h
  obtain ⟨b, hb, -⟩ := Option.map_eq_some_iff.mp hbound
  exact ⟨_, fires_of_fire (by rw [QueueTransition.fire?, hb]; rfl)⟩

theorem boundBy_isSome (bound : List (List LoopToken))
    (hmem : ∃ r, (bound, r) ∈ choices (timed ⟨0⟩ (traced (loopNet node t))).inputs [] m)
    (hguard : (timed ⟨0⟩ (traced (loopNet node t))).guard bound = true) :
    (boundBy (loopNet node) m t).isSome = true := by
  obtain ⟨r, hmem⟩ := hmem
  obtain ⟨b, hb⟩ : ∃ b, (timed ⟨0⟩ (traced (loopNet node t))).binding? m = some b :=
    Option.isSome_iff_exists.mp (List.find?_isSome.mpr ⟨_, hmem, hguard⟩)
  rw [boundBy, boundAt, hb]
  rfl

theorem newest_append (m : LoopMarking) (ks ks' : List Nat) :
    newest m (ks ++ ks') = newest m ks ++ newest m ks' := List.filterMap_append

theorem map_newest (h : ∀ k ∈ ks, m (.borrowed k) ≠ []) :
    (ks.map LoopPlace.borrowed).map (fun p => (m p).getLast?) = (newest m ks).map some := by
  have hps : ∀ p ∈ ks.map LoopPlace.borrowed, m p ≠ [] := by
    intro p hp
    obtain ⟨k, hk, rfl⟩ := List.mem_map.mp hp
    exact h k hk
  obtain ⟨cs, hcs⟩ := exists_newest hps
  rw [hcs, newest_eq (m := m) (fun _ => rfl) hcs]

theorem length_newest (h : ∀ k ∈ ks, m (.borrowed k) ≠ []) : (newest m ks).length = ks.length := by
  simpa using (congrArg List.length (map_newest h)).symm

theorem continue_isSome (hx : x ∈ m .bodyOut) (hc : c ∈ m .data)
    (hready : ∀ k ∈ node.guardBorrows ++ node.mergeBorrows, m (.borrowed k) ≠ [])
    (hguard : continues node x.colour.colour c.colour.colour
      (colours (newest m (node.guardBorrows ++ node.mergeBorrows))) = true) :
    (boundBy (loopNet node) m .tContinue).isSome = true := by
  obtain ⟨l₁, l₂, hbody⟩ := List.append_of_mem hx
  obtain ⟨d₁, d₂, hdata⟩ := List.append_of_mem hc
  have hinputs : (timed ⟨0⟩ (traced (loopNet node .tContinue))).inputs =
      .take .bodyOut :: .take .data ::
        ((node.guardBorrows ++ node.mergeBorrows).map .borrowed).map .peek :=
    congrArg (InArc.take LoopPlace.bodyOut :: InArc.take LoopPlace.data :: ·)
      (peeks_inputs (node.guardBorrows ++ node.mergeBorrows))
  refine boundBy_isSome ([] ++ [[x]] ++ [[c]] ++
    (newest m (node.guardBorrows ++ node.mergeBorrows)).map fun c => [c]) ?_ ?_
  · rw [hinputs]
    refine ⟨_, mem_choices_take.mpr ⟨l₁, x, l₂, hbody, mem_choices_take.mpr ⟨d₁, c, d₂, ?_,
      mem_choices_peeks.mpr ⟨rfl, _, ?_, rfl⟩⟩⟩⟩
    · rw [Function.update_of_ne (by decide)]
      exact hdata
    · rw [← map_newest hready]
      refine List.map_congr_left fun p hp => ?_
      obtain ⟨k, -, rfl⟩ := List.mem_map.mp hp
      simp
  · simpa only [timed, traced, QueueTransition.comap, loopNet, tContinue, flatten_colours,
      List.nil_append, List.cons_append, List.flatten_cons, flatten_map_single, List.map_id',
      colours, List.map_cons] using hguard

theorem exit_isSome (hx : x ∈ m .bodyOut) (hc : (m .data).getLast? = some c)
    (hready : ∀ k ∈ node.guardBorrows, m (.borrowed k) ≠ [])
    (hguard : exits node x.colour.colour c.colour.colour
      (colours (newest m node.guardBorrows)) = true) : (boundBy (loopNet node) m .tExit).isSome = true := by
  obtain ⟨l₁, l₂, hbody⟩ := List.append_of_mem hx
  have hinputs : (timed ⟨0⟩ (traced (loopNet node .tExit))).inputs =
      .take .bodyOut :: .peek .data :: (node.guardBorrows.map .borrowed).map .peek :=
    congrArg (InArc.take LoopPlace.bodyOut :: InArc.peek LoopPlace.data :: ·)
      (peeks_inputs node.guardBorrows)
  refine boundBy_isSome ([] ++ [[x]] ++ [[c]] ++
    (newest m node.guardBorrows).map fun c => [c]) ?_ ?_
  · rw [hinputs]
    refine ⟨_, mem_choices_take.mpr ⟨l₁, x, l₂, hbody, mem_choices_peek.mpr ⟨c, ?_,
      mem_choices_peeks.mpr ⟨rfl, _, ?_, rfl⟩⟩⟩⟩
    · rw [Function.update_of_ne (by decide)]
      exact hc
    · rw [← map_newest hready]
      refine List.map_congr_left fun p hp => ?_
      obtain ⟨k, -, rfl⟩ := List.mem_map.mp hp
      simp
  · simpa only [timed, traced, QueueTransition.comap, loopNet, tExit, flatten_colours,
      List.nil_append, List.cons_append, List.flatten_cons, flatten_map_single, List.map_id',
      colours, List.map_cons] using hguard

theorem exits_eq_not_continues {input counter : RhaiMap} {n : Nat}
    (hcounter : prop counter "iteration" = int n) (hn : n < 2 ^ 63)
    (hready : ∀ k ∈ node.guardBorrows, m (.borrowed k) ≠ []) :
    exits node input counter (colours (newest m node.guardBorrows)) = !continues node input counter
        (colours (newest m (node.guardBorrows ++ node.mergeBorrows))) := by
  have htake : (colours (newest m (node.guardBorrows ++ node.mergeBorrows))).take
      node.guardBorrows.length = colours (newest m node.guardBorrows) := by
    rw [newest_append, colours, List.map_append, ← length_newest hready]
    simp [colours]
  have hall : (colours (newest m node.guardBorrows)).take node.guardBorrows.length =
      colours (newest m node.guardBorrows) :=
    List.take_of_length_le (by simp [colours, length_newest hready])
  simp only [exits, continues, condition, htake, hall, hcounter, int, Bool.not_and]
  rw [Rhai.ge_posInt hn node.fits]

end LoopNet

end Mekhan

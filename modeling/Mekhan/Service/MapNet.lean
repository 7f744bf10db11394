import Mekhan.Application.NetScheduling
import Mekhan.Service.GatherBarrier

/-!
# The net of a Map node

`service/src/compiler/lower/map.rs`: `lower_map` scatters the array that `itemsRef` names into one
token per element, collects what the bodies return and gathers it with the counted barrier. The body
is whatever consumes `body_in` and produces `body_out`.

Tokens carry the number of the activation they descend from.
-/

namespace Mekhan

open Infra
open Rhai (prop)

/-! ## Control tokens -/

/-- What a slim control token keeps: identity and routing. -/
def isControlLeaf (key : String) : Bool := key.startsWith "_" || key = "task_id" || key = "status"

/-- The `ctrl` output of `YIELD_LOGIC`. -/
def slim (tok : RhaiMap) : RhaiMap := tok.filter fun x => isControlLeaf x.1

/-! ## The net -/

/-- The places of a map's net. -/
inductive MapPlace where
  | input
  /-- The parked data of a producer that `itemsRef` reads. -/
  | borrowed (k : Nat)
  | items
  | count
  | bodyIn
  | bodyOut
  | results
  | gathered
  | data
  | ctrl
  | output
  deriving DecidableEq

/-- Its transitions. -/
inductive MapTransition where
  | tScatter
  | tDispatch
  | tCollect
  | tGather
  | tYield
  | tEmit
  deriving DecidableEq

/-- What the net is lowered from. -/
structure MapNode where
  id : String
  itemVar : String
  resultVar : String
  /-- How many producers `itemsRef` reads. -/
  borrows : Nat
  /-- The value of `itemsRef` on the input and the parked data. -/
  itemsRef : List RhaiMap → Json
  /-- A vector has less than `2 ^ 63` elements. -/
  fits : ∀ bound elems, itemsRef bound = .arr elems → elems.length < 2 ^ 63

abbrev MapToken := Stamped (Traced RhaiMap)

abbrev MapMarking := Queues MapPlace MapToken

namespace MapNet

open Rhai (int)

variable (node : MapNode)

/-- `__arr`: anything that is not an array counts as empty. -/
def sourceArray (bound : List RhaiMap) : List Json :=
  match node.itemsRef bound with
  | .arr elems => elems
  | _ => []

/-- Says how many results to wait for. -/
def coordinator (expected : Nat) : RhaiMap :=
  [("expected", int expected), ("__map_id", .str node.id)]

/-- An element with its index, under the item variable as well. -/
def item (i : Nat) (x : Json) : RhaiMap :=
  [("__map_item", x), ("__map_idx", int i), ("__map_id", .str node.id), (node.itemVar, x)]

/-- An empty array is gathered at once, without a coordinator. -/
def scattered (elems : List Json) : List (MapPlace × RhaiMap) :=
  if elems = [] then [(.gathered, [("output", .arr [])])]
  else (.count, coordinator node elems.length) ::
    elems.zipIdx.map fun x => (.items, item node x.2 x.1)

/-- One token for each element, and the coordinator. -/
def tScatter : QueueTransition MapPlace RhaiMap where
  inputs := .take .input :: (List.range node.borrows).map fun k => .peek (.borrowed k)
  guard := fun _ => true
  outputs := fun bound => scattered node (sourceArray node bound.flatten)

/-- An element goes into the body. -/
def tDispatch : QueueTransition MapPlace RhaiMap where
  inputs := [.take .items]
  guard := fun _ => true
  outputs := fun bound => bound.flatten.map fun item => (.bodyIn, item)

/-- `.key` on a value: `()` where there is no such property. -/
def field (value : Json) (key : String) : Json := (value.get? key).getD .null

/-- `body.detail.outputs.<result_var>`. -/
def resultValue (body : RhaiMap) : Json :=
  field (field (prop body "detail") "outputs") node.resultVar

def result (body : RhaiMap) : RhaiMap :=
  [("value", resultValue node body), ("__map_idx", prop body "__map_idx"),
    ("__map_id", prop body "__map_id")]

/-- A result comes out of the body. -/
def tCollect : QueueTransition MapPlace RhaiMap where
  inputs := [.take .bodyOut]
  guard := fun _ => true
  outputs := fun bound => bound.flatten.map fun body => (.results, result node body)

/-- The barrier waits for as many results as expected. -/
def tGather : QueueTransition MapPlace RhaiMap :=
  gatherBarrier .count .results .gathered "expected" "__map_id"

/-- The array of the results is parked. -/
def tYield : QueueTransition MapPlace RhaiMap where
  inputs := [.take .gathered]
  guard := fun _ => true
  outputs := fun bound => bound.flatten.flatMap fun tok => [(.data, tok), (.ctrl, slim tok)]

/-- Control goes on. -/
def tEmit : QueueTransition MapPlace RhaiMap where
  inputs := [.take .ctrl]
  guard := fun _ => true
  outputs := fun bound => bound.flatten.map fun ctrl => (.output, ctrl)

/-- `lower_map`. -/
def mapNet : MapTransition → QueueTransition MapPlace RhaiMap
  | .tScatter => scripted (tScatter node)
  | .tDispatch => scripted tDispatch
  | .tCollect => scripted (tCollect node)
  | .tGather => scripted tGather
  | .tYield => scripted tYield
  | .tEmit => scripted tEmit

def transitionId : MapTransition → TransitionId
  | .tScatter => ⟨"t_" ++ node.id ++ "_scatter"⟩
  | .tDispatch => ⟨"t_" ++ node.id ++ "_dispatch"⟩
  | .tCollect => ⟨"t_" ++ node.id ++ "_collect"⟩
  | .tGather => ⟨"t_" ++ node.id ++ "_gather"⟩
  | .tYield => ⟨"t_" ++ node.id ++ "_yield"⟩
  | .tEmit => ⟨"t_" ++ node.id ++ "_emit"⟩

/-- In the order of the net. -/
def transitions : List MapTransition :=
  [.tScatter, .tDispatch, .tCollect, .tGather, .tYield, .tEmit]

def selected (m : MapMarking) : Option (MapTransition × Best) :=
  selectCandidate (transitionId node) (fun t => traced (mapNet node t)) m transitions

/-- The engine finds nothing to fire. -/
def Quiescent (m : MapMarking) : Prop := selected node m = none

/-- What the scatter would bind: the input, and the newest parked data. -/
def scatterBound (m : MapMarking) : Option (List MapToken) := boundBy (mapNet node) m .tScatter

/-! ## What a firing does -/

/-- A token that a script put out, of the activation and at the time. -/
def putOut (out : RhaiMap) (origin : Nat) (now : DateTime) : MapToken := ⟨⟨Rhai.dynamicToJsonEntries out, origin⟩, now⟩

/-- What a firing does to the marking, transition by transition. -/
inductive Fires (m : MapMarking) (now : DateTime) : MapTransition → MapMarking → Prop
  | scatter {l₁ l₂ : List MapToken} {x : MapToken} {borrowed : List MapToken}
      (hinput : m .input = l₁ ++ x :: l₂) (hbound : scatterBound node m = some (x :: borrowed)) :
      Fires m now .tScatter (enqueue (Function.update m .input (l₁ ++ l₂))
        ((scattered node (sourceArray node ((x :: borrowed).map (·.colour.colour)))).map
          fun out => (out.1, putOut out.2 x.colour.origin now)))
  | dispatch {x : MapToken} {l : List MapToken} (hitems : m .items = x :: l) :
      Fires m now .tDispatch (enqueue (Function.update m .items l)
        [(.bodyIn, putOut x.colour.colour x.colour.origin now)])
  | collect {x : MapToken} {l : List MapToken} (hbody : m .bodyOut = x :: l) :
      Fires m now .tCollect (enqueue (Function.update m .bodyOut l)
        [(.results, putOut (result node x.colour.colour) x.colour.origin now)])
  | gather {c : MapToken} {k : Nat} {mine rest : List MapToken}
      (hcount : (m .count).getLast? = some c)
      (hquota : Gather.quota "expected" [[c.colour.colour]] = some (k + 1))
      (hmine : mine = ((m .results).filter fun x =>
        Gather.correlated "__map_id" [[c.colour.colour]] x.colour.colour).take (k + 1))
      (hlen : mine.length = k + 1) (hperm : (m .results).Perm (rest ++ mine)) :
      Fires m now .tGather (enqueue (Function.update m .results rest)
        [(.gathered, putOut (Gather.gathered (mine.map (·.colour.colour))) c.colour.origin now)])
  | yield {x : MapToken} {l : List MapToken} (hgathered : m .gathered = x :: l) :
      Fires m now .tYield (enqueue (Function.update m .gathered l)
        [(.data, putOut x.colour.colour x.colour.origin now), (.ctrl, putOut (slim x.colour.colour) x.colour.origin now)])
  | emit {x : MapToken} {l : List MapToken} (hctrl : m .ctrl = x :: l) :
      Fires m now .tEmit (enqueue (Function.update m .ctrl l) [(.output, putOut x.colour.colour x.colour.origin now)])

variable {node}

theorem fires_of_fire {m m' : MapMarking} {now : DateTime} {t : MapTransition}
    (h : (timed now (traced (mapNet node t))).fire? m = some m') : Fires node m now t m' := by
  cases t with
  | tScatter =>
    obtain ⟨bound, rest, hb, rfl⟩ := QueueTransition.fire?_eq_some h
    obtain ⟨hmem, -⟩ := QueueTransition.binding?_eq_some hb
    have hinputs : (timed now (traced (mapNet node .tScatter))).inputs =
        .take .input :: ((List.range node.borrows).map .borrowed).map .peek := by
      simp [timed, traced, QueueTransition.comap, mapNet, scripted, tScatter, InArc.comap]
    rw [hinputs] at hmem
    obtain ⟨l₁, x, l₂, hinput, hmem⟩ := mem_choices_take.mp hmem
    obtain ⟨rfl, borrowed, -, rfl⟩ := mem_choices_peeks.mp hmem
    have hflat : ([] ++ [[x]] ++ borrowed.map fun c => [c]).flatten = x :: borrowed := by
      simp [flatten_map_single]
    have hbound := boundBy_of_binding (congrArg (Option.map Prod.fst) hb)
    rw [hflat] at hbound
    rw [outputs_timed_traced hflat (by
      simp only [mapNet, scripted, tScatter, flatten_colours, hflat]
      rfl), List.map_map]
    exact .scatter hinput hbound
  | tDispatch =>
    obtain ⟨x, l, hitems, rfl⟩ := QueueTransition.fire?_one rfl (fun _ => rfl) h
    exact .dispatch hitems
  | tCollect =>
    obtain ⟨x, l, hbody, rfl⟩ := QueueTransition.fire?_one rfl (fun _ => rfl) h
    exact .collect hbody
  | tGather =>
    rw [timed, traced, mapNet, comap_scripted, QueueTransition.comap_comap] at h
    obtain ⟨c, k, hcount, hquota, hlen, mine, rest, hmine, hperm, rfl⟩ :=
      Gather.fire?_gatherBarrier h
    exact .gather hcount hquota hmine (by rw [hmine, List.length_take_of_le hlen]) hperm
  | tYield =>
    obtain ⟨x, l, hgathered, rfl⟩ := QueueTransition.fire?_one rfl (fun _ => rfl) h
    exact .yield hgathered
  | tEmit =>
    obtain ⟨x, l, hctrl, rfl⟩ := QueueTransition.fire?_one rfl (fun _ => rfl) h
    exact .emit hctrl

end MapNet

end Mekhan

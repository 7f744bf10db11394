import Mekhan.Infra.Runs
import Mekhan.Service.MapNet

/-!
# A Map gathers its own scatter

A run of a Map node's net with any number of activations: input tokens and parked data arrive at any
moment, each body returns with the index and the map id of its item, in any order, and the engine
evaluates in between.
-/

namespace Mekhan

namespace MapGather

open Infra MapNet
open Rhai (int)
open Rhai (prop)

/-! ## Runs -/

structure State where
  marking : MapMarking
  arrivals : Nat
  /-- The length of the array each activation scattered. -/
  sizes : Nat → Nat
  /-- What the body of each item of each activation returned. -/
  returned : Nat → Nat → Json

def init : State := ⟨fun _ => [], 0, fun _ => 0, fun _ _ => .null⟩

inductive Action where
  | arrive (token : RhaiMap) (now : DateTime)
  /-- A producer that `itemsRef` reads parks its data. -/
  | park (k : Nat) (token : RhaiMap) (now : DateTime)
  /-- The body of the item at the position returns. -/
  | finish (pos : Nat) (body : RhaiMap) (now : DateTime)
  | evaluate (now : DateTime)

section

variable (node : MapNode)

/-- The activation whose array the scatter would take next, and the array. -/
def scattering (m : MapMarking) : Option (Nat × List Json) :=
  match scatterBound node m with
  | some (x :: borrowed) =>
    some (x.colour.origin, sourceArray node ((x :: borrowed).map (·.colour.colour)))
  | _ => none

/-- The state after a firing; a scatter is noted with the length of its array. -/
def record (s : State) (t : MapTransition) (m : MapMarking) : State :=
  match t, scattering node s.marking with
  | .tScatter, some (o, elems) =>
    { s with marking := m, sizes := Function.update s.sizes o elems.length }
  | _, _ => { s with marking := m }

/-- The state after the body of an item returned. -/
def finished (s : State) (pos : Nat) (item : MapToken) (body : RhaiMap) (now : DateTime) : State :=
  { s with
    marking := enqueue
      (Function.update s.marking .bodyIn ((s.marking .bodyIn).eraseIdx pos))
      [(.bodyOut, ⟨⟨body, item.colour.origin⟩, now⟩)]
    returned := fun o i =>
      if o = item.colour.origin ∧ prop item.colour.colour "__map_idx" = int i then
        resultValue node body
      else s.returned o i }

def step (s : State) : Action → Option State
  | .arrive token now =>
    some { s with
      marking := enqueue s.marking [(.input, ⟨⟨token, s.arrivals⟩, now⟩)]
      arrivals := s.arrivals + 1 }
  | .park k token now =>
    some { s with marking := enqueue s.marking [(.borrowed k, ⟨⟨token, 0⟩, now⟩)] }
  | .finish pos body now =>
    match (s.marking .bodyIn)[pos]? with
    | none => none
    | some item =>
      if prop body "__map_idx" = prop item.colour.colour "__map_idx" ∧
          prop body "__map_id" = prop item.colour.colour "__map_id" then
        some (finished node s pos item body now)
      else none
  | .evaluate now =>
    (selected node s.marking).bind fun sel =>
      ((timed now (traced (mapNet node sel.1))).fire? s.marking).map (record node s sel.1)

/-! ## The property -/

/-- The collections that were gathered, in their order. -/
def outputs (m : MapMarking) : List Json :=
  (m .data ++ m .gathered).map fun x => prop x.colour.colour "output"

/-- The results of an activation in the order of its array. -/
def results (s : State) (o : Nat) : Json :=
  .arr ((List.range (s.sizes o)).map (s.returned o))

/-- Once all bodies have returned and nothing is left to fire, every activation has its collection. -/
def Gathers (s : State) : Prop :=
  Quiescent node s.marking → s.marking .bodyIn = [] →
    (∀ k < node.borrows, s.marking (.borrowed k) ≠ []) →
    (outputs s.marking).Perm ((List.range s.arrivals).map (results s))

/-- The items of a map on their way to the barrier. -/
def inFlight (m : MapMarking) : List MapToken := m .items ++ m .bodyIn ++ m .bodyOut ++ m .results

/-- A non-empty array is scattered only when nothing is in flight, and a body returns a value that comes
back from the interpreter as it is. -/
def separate (s : State) : Action → Bool
  | .finish _ body _ => Rhai.dynamicToJsonValue (resultValue node body) = resultValue node body
  | .evaluate _ =>
    match (selected node s.marking).map Prod.fst, scattering node s.marking with
    | some .tScatter, some (_, _ :: _) => inFlight s.marking = []
    | _, _ => true
  | _ => true

def Separate (s : State) (act : Action) : Prop := separate node s act = true

instance (s : State) (act : Action) : Decidable (Separate node s act) :=
  inferInstanceAs (Decidable (_ = true))

/-! ## The invariant -/

/-- The activation `o` is being worked on. -/
structure Busy (s : State) (o : Nat) : Prop where
  pos : 0 < s.sizes o
  fits : s.sizes o < 2 ^ 63
  coordinator : ∃ c, (s.marking .count).getLast? = some c ∧
    c.colour.colour = coordinator node (s.sizes o)
  indices : ((inFlight s.marking).map fun x => prop x.colour.colour "__map_idx").Perm
    ((List.range (s.sizes o)).map int)
  own : ∀ x ∈ inFlight s.marking,
    x.colour.origin = o ∧ x.colour.colour.lookup "__map_id" = some (.str node.id)
  bodies : ∀ x ∈ s.marking .bodyOut, ∀ i, prop x.colour.colour "__map_idx" = int i →
    resultValue node x.colour.colour = s.returned o i
  values : ∀ x ∈ s.marking .results, ∀ i, prop x.colour.colour "__map_idx" = int i →
    prop x.colour.colour "value" = s.returned o i

/-- The activations in `done` have been gathered, `current` is being worked on, the rest waits. -/
structure Flow (s : State) (done : List Nat) (current : Option Nat) : Prop where
  origins : (done ++ current.toList ++ (s.marking .input).map (·.colour.origin)).Perm
    (List.range s.arrivals)
  gathered : outputs s.marking = done.map (results s)
  kept : ∀ o i, Rhai.dynamicToJsonValue (s.returned o i) = s.returned o i
  idle : current = none → inFlight s.marking = []
  busy : ∀ o, current = some o → Busy node s o

/-- The marking is that of the results so far and the elements still to come. -/
def Inv (s : State) : Prop := ∃ done current, Flow node s done current

variable {node}

theorem inv_init : Inv node init :=
  ⟨[], none, List.Perm.refl _, rfl, fun _ _ => rfl, fun _ => rfl, fun o h => absurd h (by simp)⟩

def stations : List MapPlace := [.count, .items, .bodyIn, .bodyOut, .results]

variable {s s' : State} {done : List Nat} {current : Option Nat} {x y : MapToken} {now : DateTime}
  {l : List MapToken} {m : MapMarking} {o : Nat} {p p' : MapPlace}

theorem inFlight_congr {m' : MapMarking} (h : ∀ p ∈ stations, m' p = m p) : inFlight m' = inFlight m := by
  simp only [inFlight, h .items (by decide), h .bodyIn (by decide), h .bodyOut (by decide),
    h .results (by decide)]

theorem Busy.congr (h : Busy node s o) (hsizes : s'.sizes o = s.sizes o)
    (hreturned : s'.returned o = s.returned o)
    (hm : ∀ p ∈ stations, s'.marking p = s.marking p) : Busy node s' o := by
  have hflight := inFlight_congr hm
  constructor
  · exact hsizes ▸ h.pos
  · exact hsizes ▸ h.fits
  · rw [hm .count (by decide), hsizes]
    exact h.coordinator
  · rw [hflight, hsizes]
    exact h.indices
  · rw [hflight]
    exact h.own
  · rw [hm .bodyOut (by decide), hreturned]
    exact h.bodies
  · rw [hm .results (by decide), hreturned]
    exact h.values

theorem Flow.congr (h : Flow node s done current)
    (horigins : (done ++ current.toList ++ (s'.marking .input).map (·.colour.origin)).Perm
      (List.range s'.arrivals)) (hsizes : s'.sizes = s.sizes) (hreturned : s'.returned = s.returned)
    (hm : ∀ p ∈ stations, s'.marking p = s.marking p)
    (houtputs : outputs s'.marking = outputs s.marking) : Flow node s' done current := by
  refine ⟨horigins, ?_, hreturned ▸ h.kept, fun hnone => ?_, fun o ho => ?_⟩
  · have hresults : results s' = results s := by
      funext o
      rw [results, results, hsizes, hreturned]
    rw [houtputs, h.gathered, hresults]
  · rw [inFlight_congr hm]
    exact h.idle hnone
  · exact (h.busy o ho).congr (by rw [hsizes]) (by rw [hreturned]) hm

theorem flow_arrive {token : RhaiMap} (h : Flow node s done current) : Flow node { s with
      marking := enqueue s.marking [(.input, ⟨⟨token, s.arrivals⟩, now⟩)]
      arrivals := s.arrivals + 1 } done current := by
  refine h.congr ?_ rfl rfl (fun p hp => ?_) ?_
  · have hinput : (enqueue s.marking [(MapPlace.input, (⟨⟨token, s.arrivals⟩, now⟩ : MapToken))]
        .input).map (·.colour.origin) =
          (s.marking .input).map (·.colour.origin) ++ [s.arrivals] := by
      simp [enqueue]
    rw [hinput, ← List.append_assoc, List.range_succ]
    exact h.origins.append_right _
  · simp [stations] at hp
    rcases hp with rfl | rfl | rfl | rfl | rfl <;> simp [enqueue]
  · simp [outputs, enqueue]

variable {k : Nat} {l₁ l₂ : List MapToken}

theorem flow_park (h : Flow node s done current) :
    Flow node { s with marking := enqueue s.marking [(.borrowed k, x)] } done current := by
  refine h.congr ?_ rfl rfl (fun p hp => ?_) ?_
  · simpa [enqueue] using h.origins
  · simp [stations] at hp
    rcases hp with rfl | rfl | rfl | rfl | rfl <;> simp [enqueue]
  · simp [outputs, enqueue]

theorem Flow.results_kept (h : Flow node s done current) (o : Nat) :
    Rhai.dynamicToJsonValue (results s o) = results s o :=
  dynamicToJsonValue_arr fun v hv => by
    obtain ⟨i, -, rfl⟩ := List.mem_map.mp hv
    exact h.kept o i

theorem flow_yield {z : MapToken} {origin : Nat} (h : Flow node s done current)
    (hgathered : s.marking .gathered = x :: l) : Flow node { s with
      marking := enqueue (Function.update s.marking .gathered l)
        [(.data, putOut x.colour.colour origin now), (.ctrl, z)] } done current := by
  have hy : prop (putOut x.colour.colour origin now).colour.colour "output" = prop x.colour.colour "output" := by
    have hout : prop x.colour.colour "output" ∈ outputs s.marking := by simp [outputs, hgathered]
    rw [h.gathered] at hout
    obtain ⟨o, -, ho⟩ := List.mem_map.mp hout
    rw [putOut, prop_dynamicToJsonEntries, ← ho, h.results_kept]
  refine h.congr ?_ rfl rfl (fun p hp => ?_) ?_
  · simpa [enqueue] using h.origins
  · simp [stations] at hp
    rcases hp with rfl | rfl | rfl | rfl | rfl <;> simp [enqueue]
  · simp [outputs, enqueue, hgathered, hy]

theorem flow_emit (h : Flow node s done current) : Flow node { s with
      marking := enqueue (Function.update s.marking .ctrl l) [(.output, y)] } done current := by
  refine h.congr ?_ rfl rfl (fun p hp => ?_) ?_
  · simpa [enqueue] using h.origins
  · simp [stations] at hp
    rcases hp with rfl | rfl | rfl | rfl | rfl <;> simp [enqueue]
  · simp [outputs, enqueue]

/-! ## An item moves on -/

/-- How an element moves on. -/
inductive Next : MapPlace → MapPlace → Prop
  | dispatch : Next .items .bodyIn
  | finish : Next .bodyIn .bodyOut
  | collect : Next .bodyOut .results

theorem inFlight_bodyIn (hx : (m .bodyIn).Perm (x :: l)) :
    (inFlight m).Perm (x :: (m .items ++ l ++ m .bodyOut ++ m .results)) :=
  List.perm_iff_count.mpr fun a => by
    simp [inFlight, List.count_cons, hx.count_eq a]
    omega

theorem inFlight_move (hp : Next p p') (hx : (m p).Perm (x :: l)) : ∃ rest, (inFlight m).Perm (x :: rest) ∧
      (inFlight (enqueue (Function.update m p l) [(p', y)])).Perm (y :: rest) := by
  have hcount := fun a => hx.count_eq a
  cases hp with
  | dispatch =>
    refine ⟨l ++ m .bodyIn ++ m .bodyOut ++ m .results, List.perm_iff_count.mpr fun a => ?_,
      List.perm_iff_count.mpr fun a => ?_⟩
    · simp [inFlight, List.count_cons, hcount a]
      omega
    · simp [inFlight, enqueue, List.count_cons]
      omega
  | finish =>
    refine ⟨m .items ++ l ++ m .bodyOut ++ m .results, inFlight_bodyIn hx,
      List.perm_iff_count.mpr fun a => ?_⟩
    simp [inFlight, enqueue, List.count_cons]
    omega
  | collect =>
    refine ⟨m .items ++ m .bodyIn ++ l ++ m .results, List.perm_iff_count.mpr fun a => ?_,
      List.perm_iff_count.mpr fun a => ?_⟩
    · simp [inFlight, List.count_cons, hcount a]
      omega
    · simp [inFlight, enqueue, List.count_cons]
      omega

/-- The item keeps its index, its map id and its activation; what it carries as a result is checked
where it gets one. -/
theorem Busy.move (h : Busy node s o) (hp : Next p p') (hx : (s.marking p).Perm (x :: l))
    (hm : s'.marking = enqueue (Function.update s.marking p l) [(p', y)]) (hsizes : s'.sizes = s.sizes)
    (hidx : prop y.colour.colour "__map_idx" = prop x.colour.colour "__map_idx")
    (hid : y.colour.colour.lookup "__map_id" = some (.str node.id))
    (horigin : y.colour.origin = x.colour.origin)
    (hbodies : ∀ z ∈ s'.marking .bodyOut, ∀ i, prop z.colour.colour "__map_idx" = int i →
      resultValue node z.colour.colour = s'.returned o i)
    (hvalues : ∀ z ∈ s'.marking .results, ∀ i, prop z.colour.colour "__map_idx" = int i →
      prop z.colour.colour "value" = s'.returned o i) : Busy node s' o := by
  obtain ⟨rest, hbefore, hafter⟩ := inFlight_move (y := y) hp hx
  rw [← hm] at hafter
  refine ⟨hsizes ▸ h.pos, hsizes ▸ h.fits, ?_, ?_, ?_, hbodies, hvalues⟩
  · have hcount : s'.marking .count = s.marking .count := by
      rw [hm]
      cases hp <;> simp [enqueue]
    rw [hcount, hsizes]
    exact h.coordinator
  · have hsame := hafter.map fun z => prop z.colour.colour "__map_idx"
    rw [List.map_cons, hidx, ← List.map_cons (f := fun z : MapToken => prop z.colour.colour "__map_idx")] at hsame
    rw [hsizes]
    exact hsame.trans ((hbefore.map _).symm.trans h.indices)
  · intro z hz
    rcases List.mem_cons.mp (hafter.mem_iff.mp hz) with rfl | hz
    · rw [horigin]
      exact ⟨(h.own x (hbefore.mem_iff.mpr List.mem_cons_self)).1, hid⟩
    · exact h.own z (hbefore.mem_iff.mpr (List.mem_cons_of_mem _ hz))

theorem Flow.busy_of_mem (h : Flow node s done current) (hx : x ∈ inFlight s.marking) :
    current = some x.colour.origin ∧ Busy node s x.colour.origin := by
  cases current with
  | none =>
    rw [h.idle rfl] at hx
    exact absurd hx (List.not_mem_nil)
  | some o =>
    have hbusy := h.busy o rfl
    rw [(hbusy.own x hx).1]
    exact ⟨rfl, hbusy⟩

theorem mem_inFlight (hp : p = .items ∨ p = .bodyIn ∨ p = .bodyOut ∨ p = .results) (hx : x ∈ m p) :
    x ∈ inFlight m := by
  rcases hp with rfl | rfl | rfl | rfl <;> simp [inFlight, hx]

theorem Flow.nodup (h : Flow node s done current) :
    (done ++ current.toList ++ (s.marking .input).map (·.colour.origin)).Nodup :=
  h.origins.nodup_iff.mpr List.nodup_range

theorem Flow.move (h : Flow node s done current) (hp : Next p p') (hx : (s.marking p).Perm (x :: l))
    (hm : s'.marking = enqueue (Function.update s.marking p l) [(p', y)])
    (hsizes : s'.sizes = s.sizes) (harrivals : s'.arrivals = s.arrivals)
    (hkept : ∀ o i, Rhai.dynamicToJsonValue (s'.returned o i) = s'.returned o i)
    (hreturned : ∀ o, o ≠ x.colour.origin → s'.returned o = s.returned o)
    (hbusy : Busy node s x.colour.origin → Busy node s' x.colour.origin) : Flow node s' done current := by
  have hflight : x ∈ inFlight s.marking := by
    refine mem_inFlight ?_ (hx.mem_iff.mpr List.mem_cons_self)
    cases hp <;> simp
  obtain ⟨rfl, hown⟩ := h.busy_of_mem hflight
  have hsame : ∀ q, q = .input ∨ q = .data ∨ q = .gathered → s'.marking q = s.marking q := by
    intro q hq
    rw [hm]
    cases hp <;> rcases hq with rfl | rfl | rfl <;> simp [enqueue]
  refine ⟨?_, ?_, hkept, fun hnone => absurd hnone (by simp), fun o ho => ?_⟩
  · rw [hsame .input (by simp), harrivals]
    exact h.origins
  · have hout : outputs s'.marking = outputs s.marking := by
      rw [outputs, outputs, hsame .data (by simp), hsame .gathered (by simp)]
    rw [hout, h.gathered]
    refine List.map_congr_left fun o ho => ?_
    have hne : o ≠ x.colour.origin := by
      rintro rfl
      have hnodup := (List.nodup_append.mp (List.nodup_append.mp h.nodup).1).2.2
      exact hnodup _ ho _ (by simp) rfl
    rw [results, results, hsizes, hreturned o hne]
  · cases ho
    exact hbusy hown

/-- The index of an item comes back from the interpreter as it is. -/
theorem Busy.idx_kept (h : Busy node s o) (hx : x ∈ inFlight s.marking) :
    Rhai.dynamicToJsonValue (prop x.colour.colour "__map_idx") = prop x.colour.colour "__map_idx" := by
  obtain ⟨i, hi, hidx⟩ := List.mem_map.mp (h.indices.mem_iff.mp
    (List.mem_map_of_mem (f := fun x : MapToken => prop x.colour.colour "__map_idx") hx))
  rw [← hidx, dynamicToJsonValue_int ((List.mem_range.mp hi).trans h.fits)]

theorem flow_dispatch (h : Flow node s done current) (hitems : s.marking .items = x :: l) : Flow node { s with
      marking := enqueue (Function.update s.marking .items l)
        [(.bodyIn, putOut x.colour.colour x.colour.origin now)] } done current := by
  have hx : (s.marking .items).Perm (x :: l) := by rw [hitems]
  refine h.move .dispatch hx rfl rfl rfl h.kept (fun _ _ => rfl) fun hbusy => ?_
  have hmem : x ∈ inFlight s.marking := mem_inFlight (Or.inl rfl) (by simp [hitems])
  refine hbusy.move .dispatch hx rfl rfl ?_ ?_ rfl ?_ ?_
  · rw [putOut, prop_dynamicToJsonEntries, hbusy.idx_kept hmem]
  · rw [putOut, lookup_dynamicToJsonEntries, (hbusy.own x hmem).2]
    rfl
  · simpa [enqueue] using hbusy.bodies
  · simpa [enqueue] using hbusy.values

theorem flow_collect (h : Flow node s done current) (hbody : s.marking .bodyOut = x :: l) : Flow node { s with
      marking := enqueue (Function.update s.marking .bodyOut l)
        [(.results, putOut (result node x.colour.colour) x.colour.origin now)] } done current := by
  have hx : (s.marking .bodyOut).Perm (x :: l) := by rw [hbody]
  refine h.move .collect hx rfl rfl rfl h.kept (fun _ _ => rfl) fun hbusy => ?_
  have hmem : x ∈ inFlight s.marking :=
    mem_inFlight (Or.inr (Or.inr (Or.inl rfl))) (by simp [hbody])
  have hid : prop x.colour.colour "__map_id" = .str node.id := by
    rw [prop, (hbusy.own x hmem).2]
    rfl
  have hidx : prop (putOut (result node x.colour.colour) x.colour.origin now).colour.colour "__map_idx" =
      prop x.colour.colour "__map_idx" := (prop_dynamicToJsonEntries ..).trans (hbusy.idx_kept hmem)
  refine hbusy.move .collect hx rfl rfl hidx ?_ rfl ?_ ?_
  · show some (Rhai.dynamicToJsonValue (prop x.colour.colour "__map_id")) = _
    rw [hid]
    rfl
  · intro z hz
    have hz' : z ∈ l := by simpa [enqueue] using hz
    exact hbusy.bodies z (by simp [hbody, hz'])
  · intro z hz i hi
    have hz' : z ∈ s.marking .results ∨
        z = putOut (result node x.colour.colour) x.colour.origin now := by simpa [enqueue] using hz
    rcases hz' with hz | rfl
    · exact hbusy.values z hz i hi
    · have hvalue := hbusy.bodies x (by simp [hbody]) i (hidx ▸ hi)
      refine (prop_dynamicToJsonEntries ..).trans ?_
      show Rhai.dynamicToJsonValue (resultValue node x.colour.colour) = _
      rw [hvalue, h.kept]

theorem Busy.idx_ne (h : Busy node s o) {x z : MapToken} {rest : List MapToken}
    (hx : (inFlight s.marking).Perm (x :: rest)) (hz : z ∈ rest) :
    prop z.colour.colour "__map_idx" ≠ prop x.colour.colour "__map_idx" := by
  have hnodup : ((x :: rest).map fun x => prop x.colour.colour "__map_idx").Nodup := by
    refine ((hx.map _).symm.trans h.indices).nodup_iff.mpr ?_
    exact List.nodup_range.map fun i j hij => Number.posInt.inj (Json.num.inj hij)
  rw [List.map_cons, List.nodup_cons] at hnodup
  intro heq
  exact hnodup.1 (List.mem_map.mpr ⟨z, hz, heq⟩)

theorem flow_finish {pos : Nat} {item : MapToken} {body : RhaiMap} (h : Flow node s done current)
    (hitem : (s.marking .bodyIn)[pos]? = some item)
    (hidx : prop body "__map_idx" = prop item.colour.colour "__map_idx")
    (hid : prop body "__map_id" = prop item.colour.colour "__map_id")
    (hkept : Rhai.dynamicToJsonValue (resultValue node body) = resultValue node body) :
    Flow node (finished node s pos item body now) done current := by
  obtain ⟨hpos, hget⟩ := List.getElem?_eq_some_iff.mp hitem
  have hx : (s.marking .bodyIn).Perm (item :: (s.marking .bodyIn).eraseIdx pos) := by
    rw [← hget]
    exact (List.getElem_cons_eraseIdx_perm hpos).symm
  refine h.move .finish hx rfl rfl rfl (fun o i => ?_) (fun o ho => ?_) fun hbusy => ?_
  · simp only [finished]
    split
    · exact hkept
    · exact h.kept o i
  · funext i
    simp [finished, ho]
  · have hmem : item ∈ inFlight s.marking :=
      mem_inFlight (Or.inr (Or.inl rfl)) (hx.mem_iff.mpr List.mem_cons_self)
    -- The entry that is written is no other item's.
    have hreturned : ∀ z, z ∈ s.marking .bodyOut ∨ z ∈ s.marking .results → ∀ i,
        prop z.colour.colour "__map_idx" = int i →
        (finished node s pos item body now).returned item.colour.origin i =
          s.returned item.colour.origin i := by
      intro z hz i hi
      have hne := hbusy.idx_ne (inFlight_bodyIn hx) (z := z) (by
        rcases hz with hz | hz <;> simp [hz])
      rw [hi] at hne
      simp [finished, Ne.symm hne]
    have hmapId : prop body "__map_id" = .str node.id := by
      rw [hid, prop, (hbusy.own item hmem).2]
      rfl
    refine hbusy.move .finish hx rfl rfl hidx (Rhai.lookup_of_prop_str hmapId) rfl ?_ ?_
    · intro z hz i hi
      have hz' : z ∈ s.marking .bodyOut ∨ z = ⟨⟨body, item.colour.origin⟩, now⟩ := by
        simpa [finished, enqueue] using hz
      rcases hz' with hz | rfl
      · rw [hreturned z (Or.inl hz) i hi]
        exact hbusy.bodies z hz i hi
      · have hi' : prop item.colour.colour "__map_idx" = int i := hidx ▸ hi
        simp [finished, hi']
    · intro z hz i hi
      have hz' : z ∈ s.marking .results := by simpa [finished, enqueue] using hz
      rw [hreturned z (Or.inr hz') i hi]
      exact hbusy.values z hz' i hi

/-! ## Gathering -/

theorem Busy.length (h : Busy node s o) : (inFlight s.marking).length = s.sizes o := by
  simpa using h.indices.length_eq

theorem Busy.filter_correlated {n : Nat} (h : Busy node s o) {c : RhaiMap}
    (hc : c = MapNet.coordinator node n) : ((s.marking .results).filter fun x =>
      Gather.correlated "__map_id" [[c]] x.colour.colour) = s.marking .results := by
  refine List.filter_eq_self.mpr fun y hy => ?_
  have hid := (h.own y (mem_inFlight (Or.inr (Or.inr (Or.inr rfl))) hy)).2
  have hcoord : c.lookup "__map_id" = some (.str node.id) := by
    rw [hc]
    rfl
  simp [Gather.correlated, hid, hcoord, Json.eqv]

theorem flow_gather {c : MapToken} {mine rest : List MapToken} {origin : Nat} (h : Flow node s done current)
    (hcount : (s.marking .count).getLast? = some c)
    (hquota : Gather.quota "expected" [[c.colour.colour]] = some (k + 1))
    (hmine : mine = ((s.marking .results).filter fun x =>
      Gather.correlated "__map_id" [[c.colour.colour]] x.colour.colour).take (k + 1))
    (hlen : mine.length = k + 1) (hperm : (s.marking .results).Perm (rest ++ mine)) : ∃ o, Flow node { s with
      marking := enqueue (Function.update s.marking .results rest)
        [(.gathered, putOut (Gather.gathered (mine.map (·.colour.colour))) origin now)] }
      (done ++ [o]) none := by
  obtain ⟨x, hx⟩ : ∃ x, x ∈ s.marking .results := by
    cases hmine' : mine with
    | nil => simp [hmine'] at hlen
    | cons x l => exact ⟨x, hperm.mem_iff.mpr (by simp [hmine'])⟩
  obtain ⟨rfl, hbusy⟩ := h.busy_of_mem (mem_inFlight (Or.inr (Or.inr (Or.inr rfl))) hx)
  generalize x.colour.origin = o at hbusy h
  obtain ⟨c', hc', hcolour⟩ := hbusy.coordinator
  obtain rfl := Option.some.inj (hcount.symm.trans hc')
  have hsize : s.sizes o = k + 1 := by
    rw [hcolour] at hquota
    exact Option.some.inj hquota
  rw [hbusy.filter_correlated hcolour] at hmine
  have htotal : (s.marking .items).length + (s.marking .bodyIn).length +
      (s.marking .bodyOut).length + (s.marking .results).length = k + 1 := by
    rw [← hsize, ← hbusy.length]
    simp [inFlight]
    omega
  have hsplit : (s.marking .results).length = rest.length + mine.length := by
    simpa using hperm.length_eq
  -- Everything in flight is a result, and the barrier takes all of it.
  have hitems : s.marking .items = [] := List.length_eq_zero_iff.mp (by omega)
  have hbodyIn : s.marking .bodyIn = [] := List.length_eq_zero_iff.mp (by omega)
  have hbodyOut : s.marking .bodyOut = [] := List.length_eq_zero_iff.mp (by omega)
  have hrest : rest = [] := List.length_eq_zero_iff.mp (by omega)
  have hmine' : mine = s.marking .results := by
    rw [hmine]
    exact List.take_of_length_le (by omega)
  have hflight : inFlight s.marking = s.marking .results := by
    simp [inFlight, hitems, hbodyIn, hbodyOut]
  have hvalue : prop (Gather.gathered (mine.map (·.colour.colour))) "output" = results s o := by
    refine congrArg Json.arr (Gather.map_value_sortByIdx hbusy.fits ?_ ?_)
    · rw [List.map_map, hmine', ← hflight]
      exact hbusy.indices
    · intro y hy i hi
      obtain ⟨z, hz, rfl⟩ := List.mem_map.mp hy
      exact hbusy.values z (hmine' ▸ hz) i hi
  refine ⟨o, ?_, ?_, h.kept, fun _ => ?_, fun o' ho' => absurd ho' (by simp)⟩
  · simpa [enqueue] using h.origins
  · have hout : outputs (enqueue (Function.update s.marking .results rest)
        [(.gathered, putOut (Gather.gathered (mine.map (·.colour.colour))) origin now)]) =
          outputs s.marking ++ [results s o] := by
      simp [outputs, enqueue, putOut, prop_dynamicToJsonEntries, hvalue, h.results_kept]
    rw [hout, h.gathered, List.map_append]
    rfl
  · simp [inFlight, enqueue, hitems, hbodyIn, hbodyOut, hrest]

/-! ## Scattering -/

theorem sourceArray_length_lt (bound : List RhaiMap) : (sourceArray node bound).length < 2 ^ 63 := by
  unfold sourceArray
  split
  · next elems h => exact node.fits bound elems h
  · exact Nat.two_pow_pos 63

theorem Flow.origin_ne (h : Flow node s done current) (hx : x ∈ s.marking .input) {o : Nat}
    (ho : o ∈ done ++ current.toList) : o ≠ x.colour.origin := by
  have hnodup := (List.nodup_append.mp h.nodup).2.2
  exact hnodup o ho _ (List.mem_map.mpr ⟨x, hx, rfl⟩)

theorem flow_scatter_empty (h : Flow node s done current) (hinput : s.marking .input = l₁ ++ x :: l₂) :
    Flow node { s with
      marking := enqueue (Function.update s.marking .input (l₁ ++ l₂))
        [(.gathered, putOut [("output", .arr [])] x.colour.origin now)]
      sizes := Function.update s.sizes x.colour.origin 0 }
      (done ++ [x.colour.origin]) current := by
  have hx : x ∈ s.marking .input := by simp [hinput]
  refine ⟨?_, ?_, h.kept, fun hnone => ?_, fun o ho => ?_⟩
  · refine List.Perm.trans (List.perm_iff_count.mpr fun a => ?_) h.origins
    simp [enqueue, hinput, List.count_cons]
    omega
  · have hout : outputs (enqueue (Function.update s.marking .input (l₁ ++ l₂))
        [(.gathered, putOut [("output", .arr [])] x.colour.origin now)]) = outputs s.marking ++ [.arr []] := by
      simp [outputs, enqueue, putOut, Rhai.dynamicToJsonEntries, Rhai.dynamicToJsonValue, Rhai.dynamicToJsonValues, prop]
    rw [hout, h.gathered, List.map_append]
    congr 1
    · refine List.map_congr_left fun o ho => ?_
      simp only [results, Function.update_of_ne (h.origin_ne hx (List.mem_append_left _ ho))]
    · simp [results]
  · rw [inFlight_congr fun p hp => ?_]
    · exact h.idle hnone
    · simp [stations] at hp
      rcases hp with rfl | rfl | rfl | rfl | rfl <;> simp [enqueue]
  · refine (h.busy o ho).congr ?_ rfl fun p hp => ?_
    · exact Function.update_of_ne (h.origin_ne hx (by simp [ho])) ..
    · simp [stations] at hp
      rcases hp with rfl | rfl | rfl | rfl | rfl <;> simp [enqueue]

/-- The tokens of a scatter of a non-empty array. -/
def scatteredTokens (node : MapNode) (elems : List Json) (origin : Nat) (now : DateTime) :
    List (MapPlace × MapToken) :=
  (.count, ⟨⟨coordinator node elems.length, origin⟩, now⟩) ::
    elems.zipIdx.map fun x => (.items, putOut (item node x.2 x.1) origin now)

theorem tokensAt_scattered (node : MapNode) (elems : List Json) (origin : Nat) (now : DateTime)
    (p : MapPlace) : tokensAt p (scatteredTokens node elems origin now) =
      if p = .count then [⟨⟨coordinator node elems.length, origin⟩, now⟩]
      else if p = .items then elems.zipIdx.map fun x => putOut (item node x.2 x.1) origin now
      else [] := by
  have hitems : tokensAt p (elems.zipIdx.map fun x =>
      (MapPlace.items, putOut (item node x.2 x.1) origin now)) =
        if MapPlace.items = p then elems.zipIdx.map fun x => putOut (item node x.2 x.1) origin now
        else [] := by
    rw [← tokensAt_map_mk, List.map_map]
    rfl
  rw [scatteredTokens, tokensAt_cons, hitems]
  cases p <;> simp

theorem flow_scatter {elems : List Json} (h : Flow node s done current)
    (hinput : s.marking .input = l₁ ++ x :: l₂) (hne : elems ≠ []) (hfits : elems.length < 2 ^ 63)
    (hflight : inFlight s.marking = []) : Flow node { s with
      marking := enqueue (Function.update s.marking .input (l₁ ++ l₂))
        (scatteredTokens node elems x.colour.origin now)
      sizes := Function.update s.sizes x.colour.origin elems.length }
      done (some x.colour.origin) := by
  have hx : x ∈ s.marking .input := by simp [hinput]
  obtain rfl : current = none := by
    cases hcurrent : current with
    | none => rfl
    | some o =>
      have hbusy := h.busy o hcurrent
      have hlen := hbusy.length
      rw [hflight] at hlen
      exact absurd hbusy.pos (by simp [← hlen])
  refine ⟨?_, ?_, h.kept, fun hnone => absurd hnone (by simp), fun o ho => ?_⟩
  · refine List.Perm.trans (List.perm_iff_count.mpr fun a => ?_) h.origins
    simp [enqueue, tokensAt_scattered, hinput, List.count_cons]
    omega
  · have hout : outputs (enqueue (Function.update s.marking .input (l₁ ++ l₂))
        (scatteredTokens node elems x.colour.origin now)) = outputs s.marking := by
      simp [outputs, enqueue, tokensAt_scattered]
    rw [hout, h.gathered]
    refine List.map_congr_left fun o ho => ?_
    simp only [results, Function.update_of_ne (h.origin_ne hx (List.mem_append_left _ ho))]
  · cases ho
    have hstations : s.marking .items = [] ∧ s.marking .bodyIn = [] ∧ s.marking .bodyOut = [] ∧
        s.marking .results = [] := by simpa [inFlight, and_assoc] using hflight
    obtain ⟨hitems, hbodyIn, hbodyOut, hresults⟩ := hstations
    have hflight' : inFlight (enqueue (Function.update s.marking .input (l₁ ++ l₂))
        (scatteredTokens node elems x.colour.origin now)) =
          elems.zipIdx.map fun y => putOut (item node y.2 y.1) x.colour.origin now := by
      simp [inFlight, enqueue, tokensAt_scattered, hitems, hbodyIn, hbodyOut, hresults]
    constructor
    · simpa using List.length_pos_iff.mpr hne
    · simpa using hfits
    · refine ⟨⟨⟨coordinator node elems.length, x.colour.origin⟩, now⟩, ?_, ?_⟩
      · simp [enqueue, tokensAt_scattered]
      · simp
    · rw [hflight', List.map_map]
      have hidx : elems.zipIdx.map ((fun x : MapToken => prop x.colour.colour "__map_idx") ∘
          fun y => putOut (item node y.2 y.1) x.colour.origin now) = (elems.zipIdx.map Prod.snd).map int := by
        rw [List.map_map]
        refine List.map_congr_left fun y hy => (prop_dynamicToJsonEntries ..).trans ?_
        exact dynamicToJsonValue_int ((List.snd_lt_of_mem_zipIdx hy).trans_le (by omega))
      rw [hidx, List.zipIdx_map_snd, ← List.range_eq_range']
      simp
    · intro z hz
      rw [hflight'] at hz
      obtain ⟨y, -, rfl⟩ := List.mem_map.mp hz
      exact ⟨rfl, rfl⟩
    · simp [enqueue, tokensAt_scattered, hbodyOut]
    · simp [enqueue, tokensAt_scattered, hresults]

/-! ## Steps -/

theorem inv_fires {t : MapTransition} (hinv : Inv node s) (hfires : Fires node s.marking now t m)
    (hseparate : t = .tScatter → ∀ o elems, scattering node s.marking = some (o, elems) →
      elems ≠ [] → inFlight s.marking = []) : Inv node (record node s t m) := by
  obtain ⟨done, current, h⟩ := hinv
  cases hfires with
  | @scatter l₁ l₂ x borrowed hinput hbound =>
    have hscattering : scattering node s.marking =
        some (x.colour.origin, sourceArray node ((x :: borrowed).map (·.colour.colour))) := by
      rw [scattering, hbound]
    have hfits : (sourceArray node ((x :: borrowed).map (·.colour.colour))).length < 2 ^ 63 :=
      sourceArray_length_lt _
    simp only [record, hscattering]
    generalize sourceArray node ((x :: borrowed).map (·.colour.colour)) = elems at *
    by_cases hempty : elems = []
    · subst hempty
      exact ⟨_, _, flow_scatter_empty h hinput⟩
    · have htokens : ((scattered node elems).map fun out : MapPlace × RhaiMap =>
          (out.1, putOut out.2 x.colour.origin now)) = scatteredTokens node elems x.colour.origin now := by
        simp [scattered, hempty, scatteredTokens, Function.comp_def, putOut, coordinator, Rhai.dynamicToJsonEntries,
          dynamicToJsonValue_int hfits]
      rw [htokens]
      exact ⟨_, _, flow_scatter h hinput hempty hfits (hseparate rfl _ _ hscattering hempty)⟩
  | dispatch hitems => exact ⟨done, current, flow_dispatch h hitems⟩
  | collect hbody => exact ⟨done, current, flow_collect h hbody⟩
  | gather hcount hquota hmine hlen hperm =>
    obtain ⟨o, h'⟩ := flow_gather h hcount hquota hmine hlen hperm
    exact ⟨_, _, h'⟩
  | yield hgathered => exact ⟨done, current, flow_yield h hgathered⟩
  | emit _ => exact ⟨done, current, flow_emit h⟩

theorem inv_step (s : State) (act : Action) (s' : State) (hinv : Inv node s)
    (hseparate : Separate node s act) (h : step node s act = some s') : Inv node s' := by
  cases act with
  | arrive token now =>
    obtain ⟨done, current, hflow⟩ := hinv
    cases h
    exact ⟨done, current, flow_arrive hflow⟩
  | park k token now =>
    obtain ⟨done, current, hflow⟩ := hinv
    cases h
    exact ⟨done, current, flow_park hflow⟩
  | finish pos body now =>
    obtain ⟨done, current, hflow⟩ := hinv
    have hvalue : Rhai.dynamicToJsonValue (resultValue node body) = resultValue node body := of_decide_eq_true hseparate
    simp only [step] at h
    split at h
    · cases h
    · next item hitem =>
      split at h
      · next hkept =>
        cases h
        exact ⟨done, current, flow_finish hflow hitem hkept.1 hkept.2 hvalue⟩
      · cases h
  | evaluate now =>
    obtain ⟨sel, hsel, h⟩ := Option.bind_eq_some_iff.mp h
    obtain ⟨m, hm, rfl⟩ := Option.map_eq_some_iff.mp h
    refine inv_fires hinv (fires_of_fire hm) fun hscatter o elems helems hne => ?_
    obtain ⟨x, l, rfl⟩ := List.exists_cons_of_ne_nil hne
    simpa [Separate, separate, hsel, hscatter, helems] using hseparate

/-! ## At rest -/

theorem input_eq_nil (hquiet : Quiescent node m)
    (hparked : ∀ k < node.borrows, m (.borrowed k) ≠ []) : m .input = [] := by
  by_contra hne
  obtain ⟨x, l, hx⟩ := List.exists_cons_of_ne_nil hne
  have hpeeks : ∀ p ∈ (List.range node.borrows).map MapPlace.borrowed,
      Function.update m .input l p ≠ [] := by
    intro p hp
    obtain ⟨k, hk, rfl⟩ := List.mem_map.mp hp
    rw [Function.update_of_ne (by simp)]
    exact hparked k (List.mem_range.mp hk)
  obtain ⟨cs, hcs⟩ := exists_newest hpeeks
  have hinputs : (timed ⟨0⟩ (traced (mapNet node .tScatter))).inputs =
      .take .input :: ((List.range node.borrows).map .borrowed).map .peek := by
    simp [timed, traced, QueueTransition.comap, mapNet, scripted, tScatter, InArc.comap]
  obtain ⟨b, r, hmem⟩ : ∃ b r,
      (b, r) ∈ choices (timed ⟨0⟩ (traced (mapNet node .tScatter))).inputs [] m := by
    rw [hinputs]
    exact ⟨_, _, mem_choices_take.mpr ⟨[], x, l, hx, mem_choices_peeks.mpr ⟨rfl, cs, hcs, rfl⟩⟩⟩
  exact absurd (guard_eq_false_of_select hquiet (t := .tScatter) (by decide) rfl (Or.inl rfl) hmem)
    (by simp [traced, QueueTransition.comap, mapNet, scripted, tScatter])

theorem not_busy_of_quiescent (hquiet : Quiescent node s.marking)
    (hbodyIn : s.marking .bodyIn = []) : ¬ Busy node s o := by
  intro hbusy
  have hitems : s.marking .items = [] :=
    eq_nil_of_select hquiet (t := .tDispatch) (by decide) rfl fun _ => rfl
  have hbodyOut : s.marking .bodyOut = [] :=
    eq_nil_of_select hquiet (t := .tCollect) (by decide) rfl fun _ => rfl
  have hflight : inFlight s.marking = s.marking .results := by
    simp [inFlight, hitems, hbodyIn, hbodyOut]
  obtain ⟨c, hc, hcolour⟩ := hbusy.coordinator
  obtain ⟨k, hk⟩ : ∃ k, s.sizes o = k + 1 := Nat.exists_eq_succ_of_ne_zero hbusy.pos.ne'
  have hquota : Gather.quota "expected" [[c.colour.colour]] = some (k + 1) := by
    rw [hcolour, hk]
    rfl
  have hall : ((s.marking .results).filter fun x =>
      Gather.correlated "__map_id" [[c.colour.colour]] x.colour.colour) = s.marking .results :=
    hbusy.filter_correlated hcolour
  have hlen : k + 1 ≤ ((s.marking .results).filter fun x =>
      Gather.correlated "__map_id" [[c.colour.colour]] x.colour.colour).length := by
    rw [hall, ← hk, ← hbusy.length, hflight]
  obtain ⟨b, r, hmem⟩ : ∃ b r,
      (b, r) ∈ choices (timed ⟨0⟩ (traced (mapNet node .tGather))).inputs [] s.marking :=
    ⟨_, _, mem_choices_peek.mpr ⟨c, hc,
      mem_choices_gather.mpr ⟨k, hquota, hlen, mem_choices_nil.mpr ⟨rfl, rfl⟩⟩⟩⟩
  exact absurd (guard_eq_false_of_select hquiet (t := .tGather) (by decide) rfl (Or.inr rfl) hmem)
    (by simp [traced, QueueTransition.comap, mapNet, scripted, tGather, gatherBarrier])

end

/-! ## Activations that overlap -/

def parkedItems (bound : List RhaiMap) : Json :=
  match prop (bound.getLastD []) "items" with
  | .arr elems => if elems.length < 2 ^ 63 then .arr elems else .null
  | v => v

/-- A Map over `<producer>.items` whose bodies return `y`. -/
def overParked : MapNode where
  id := "m"
  itemVar := "x"
  resultVar := "y"
  borrows := 1
  itemsRef := parkedItems
  fits := by
    intro bound elems h
    unfold parkedItems at h
    split at h
    · split at h
      · next hlt =>
        rw [← Json.arr.inj h]
        exact hlt
      · cases h
    · next hne => exact absurd h (hne elems)

def parked (elems : List String) : RhaiMap := [("items", .arr (elems.map .str))]

def returns (idx : Nat) (value : String) : RhaiMap :=
  [("detail", .obj [("outputs", .obj [("y", .str value)])]), ("__map_idx", int idx),
    ("__map_id", .str "m")]

/-- Two activations of one and of two items, one after the other. -/
def oneByOne : List Action :=
  [.park 0 (parked ["a"]) ⟨1⟩, .arrive [] ⟨2⟩, .evaluate ⟨3⟩, .evaluate ⟨4⟩,
    .finish 0 (returns 0 "A") ⟨5⟩, .evaluate ⟨6⟩, .evaluate ⟨7⟩, .evaluate ⟨8⟩, .evaluate ⟨9⟩,
    .park 0 (parked ["b", "c"]) ⟨10⟩, .arrive [] ⟨11⟩, .evaluate ⟨12⟩, .evaluate ⟨13⟩, .evaluate ⟨14⟩,
    .finish 1 (returns 1 "C") ⟨15⟩, .evaluate ⟨16⟩, .finish 0 (returns 0 "B") ⟨17⟩, .evaluate ⟨18⟩,
    .evaluate ⟨19⟩, .evaluate ⟨20⟩, .evaluate ⟨21⟩]

/-- The same two activations, the second one scattered before the first body returns. -/
def overlapping : List Action :=
  [.park 0 (parked ["a"]) ⟨1⟩, .arrive [] ⟨2⟩, .evaluate ⟨3⟩, .evaluate ⟨4⟩,
    .park 0 (parked ["b", "c"]) ⟨5⟩, .arrive [] ⟨6⟩, .evaluate ⟨7⟩, .evaluate ⟨8⟩, .evaluate ⟨9⟩,
    .finish 0 (returns 0 "A") ⟨10⟩, .evaluate ⟨11⟩, .finish 1 (returns 1 "C") ⟨12⟩, .evaluate ⟨13⟩,
    .evaluate ⟨14⟩, .evaluate ⟨15⟩, .evaluate ⟨16⟩, .finish 0 (returns 0 "B") ⟨17⟩, .evaluate ⟨18⟩]

end MapGather

end Mekhan

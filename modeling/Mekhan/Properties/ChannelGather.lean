import Mekhan.Infra.Runs
import Mekhan.Service.ChannelNet

/-!
# A gathered channel delivers its episodes

A run of a gathered channel's net: the items and the close of any number of episodes are deposited in
any interleaving, each once, with open markers anywhere among them, and the engine evaluates in
between.
-/

namespace Mekhan

namespace ChannelGather

open Infra ChannelNet
open Rhai (int)
open Rhai (prop)

/-! ## Runs -/

structure State where
  marking : ChannelMarking
  /-- The items deposited so far, by episode and index. -/
  items : List (Episode × Nat)
  closes : List Episode

def init : State := ⟨fun _ => [], [], []⟩

inductive Action where
  | item (e : Episode) (i : Nat) (now : DateTime)
  | close (e : Episode) (now : DateTime)
  | openEpisode (e : Episode) (payload : Json) (now : DateTime)
  | evaluate (now : DateTime)

section

variable (seg : String) (eps : List Episode)

def step (s : State) : Action → Option State
  | .item e i now =>
    if e ∈ eps ∧ i < e.payloads.length ∧ (e, i) ∉ s.items then
      some { s with
        marking := enqueue s.marking [(.raw, ⟨e.itemToken i, now⟩)]
        items := (e, i) :: s.items }
    else none
  | .close e now =>
    if e ∈ eps ∧ e ∉ s.closes then
      some { s with
        marking := enqueue s.marking [(.raw, ⟨e.closeToken, now⟩)]
        closes := e :: s.closes }
    else none
  | .openEpisode e payload now =>
    some { s with marking := enqueue s.marking [(.raw, ⟨e.openToken payload, now⟩)] }
  | .evaluate now =>
    (selected seg s.marking).bind fun sel =>
      ((timed now (channelNet sel.1)).fire? s.marking).map fun m => { s with marking := m }

/-! ## The property -/

/-- The collections that were gathered, in their order. -/
def outputs (m : ChannelMarking) : List Json := (m .gathered).map fun x => prop x.colour "output"

/-- Everything the episodes have was deposited. -/
def Deposited (s : State) : Prop :=
  ∀ e ∈ eps, e ∈ s.closes ∧ ∀ i < e.payloads.length, (e, i) ∈ s.items

/-- Once everything is deposited and nothing is left to fire, every episode has its collection. -/
def Delivers (s : State) : Prop :=
  Deposited eps s → Quiescent seg s.marking →
    (outputs s.marking).Perm (eps.map fun e => .arr e.payloads)

/-- The payload of an item. -/
def payloadOf (x : Episode × Nat) : Json := x.1.payloads.getD x.2 .null

/-- The close of a non-empty episode is processed only when every coordinator so far has been
gathered, and an item carries a payload that comes back from the interpreter as it is. -/
def separate (s : State) : Action → Bool
  | .item e i _ => Rhai.dynamicToJsonValue (payloadOf (e, i)) = payloadOf (e, i)
  | .evaluate _ =>
    match (selected seg s.marking).map Prod.fst, closing s.marking with
    | some .tClose, some close =>
      Rhai.eq (prop close.colour "count") (int 0) ||
        (s.marking .count).length = (outputs s.marking).countP (· ≠ .arr [])
    | _, _ => true
  | _ => true

def Separate (s : State) (act : Action) : Prop := separate seg s act = true

instance (s : State) (act : Action) : Decidable (Separate seg s act) :=
  inferInstanceAs (Decidable (_ = true))

/-! ## The invariant -/

def allItems (e : Episode) : List (Episode × Nat) :=
  (List.range e.payloads.length).map fun i => (e, i)

def itemOf (x : Episode × Nat) : RhaiMap := x.1.itemToken x.2

def coordinator (e : Episode) : RhaiMap :=
  [("count", int e.payloads.length), ("__map_id", .str e.mapId)]

/-- Where the deposits are: `waiting` and `ready` items, `closing` closes in the raw place, the
episode that is being gathered, and the episodes that have been. -/
structure Flow (s : State) (waiting ready : List (Episode × Nat)) (closing : List Episode)
    (current : Option Episode) (done : List Episode) : Prop where
  raw : ∃ opens : List RhaiMap, (∀ x ∈ opens, prop x "kind" = .str "open") ∧
    ((s.marking .raw).map Stamped.colour).Perm
      (waiting.map itemOf ++ closing.map Episode.closeToken ++ opens)
  results : ((s.marking .results).map Stamped.colour).Perm (ready.map fun x => result (itemOf x))
  items : (waiting ++ ready ++ done.flatMap allItems).Perm s.items
  closes : (closing ++ current.toList ++ done).Perm s.closes
  itemsNodup : s.items.Nodup
  itemsValid : ∀ x ∈ s.items, x.1 ∈ eps ∧ x.2 < x.1.payloads.length ∧
    Rhai.dynamicToJsonValue (payloadOf x) = payloadOf x
  closesNodup : s.closes.Nodup
  closesValid : ∀ e ∈ s.closes, e ∈ eps
  coordinators : ∀ c ∈ s.marking .count, ∃ e ∈ current.toList ++ done, c.colour = coordinator e
  newest : ∀ e, current = some e → 0 < e.payloads.length ∧
    ∃ c, (s.marking .count).getLast? = some c ∧ c.colour = coordinator e
  counted : (s.marking .count).length =
    done.countP (fun e => e.payloads ≠ []) + current.toList.length
  gathered : outputs s.marking = done.map fun e => .arr e.payloads

def Inv (s : State) : Prop :=
  ∃ waiting ready closing current done, Flow eps s waiting ready closing current done

variable {seg eps}

theorem inv_init : Inv eps init :=
  ⟨[], [], [], none, [], ⟨[], by simp, List.Perm.refl _⟩, List.Perm.refl _, List.Perm.refl _,
    List.Perm.refl _, List.nodup_nil, by simp [init], List.nodup_nil, by simp [init], by simp [init],
    by simp, rfl, rfl⟩

/-! ## Deposits -/

theorem inv_item {s : State} {e : Episode} {i : Nat} {now : DateTime} (h : Inv eps s) (he : e ∈ eps)
    (hi : i < e.payloads.length) (hkept : Rhai.dynamicToJsonValue (payloadOf (e, i)) = payloadOf (e, i))
    (hnew : (e, i) ∉ s.items) : Inv eps { s with
      marking := enqueue s.marking [(.raw, ⟨e.itemToken i, now⟩)]
      items := (e, i) :: s.items } := by
  obtain ⟨waiting, ready, closing, current, done, h⟩ := h
  obtain ⟨opens, hopens, hraw⟩ := h.raw
  refine ⟨(e, i) :: waiting, ready, closing, current, done, ⟨opens, hopens, ?_⟩, ?_,
    h.items.cons (e, i), h.closes, List.nodup_cons.mpr ⟨hnew, h.itemsNodup⟩, ?_, h.closesNodup,
    h.closesValid, ?_, ?_, ?_, ?_⟩
  · have hsnoc : (enqueue s.marking [(.raw, ⟨e.itemToken i, now⟩)] .raw).map Stamped.colour =
        (s.marking .raw).map Stamped.colour ++ [e.itemToken i] := by simp [enqueue]
    rw [hsnoc]
    exact (List.perm_append_singleton _ _).trans (hraw.cons (e.itemToken i))
  · simpa [enqueue] using h.results
  · intro x hx
    rcases List.mem_cons.mp hx with rfl | hx
    · exact ⟨he, hi, hkept⟩
    · exact h.itemsValid x hx
  · simpa [enqueue] using h.coordinators
  · simpa [enqueue] using h.newest
  · simpa [enqueue] using h.counted
  · simpa [outputs, enqueue] using h.gathered

theorem inv_close {s : State} {e : Episode} {now : DateTime} (h : Inv eps s) (he : e ∈ eps)
    (hnew : e ∉ s.closes) : Inv eps { s with
      marking := enqueue s.marking [(.raw, ⟨e.closeToken, now⟩)]
      closes := e :: s.closes } := by
  obtain ⟨waiting, ready, closing, current, done, h⟩ := h
  obtain ⟨opens, hopens, hraw⟩ := h.raw
  refine ⟨waiting, ready, e :: closing, current, done, ⟨opens, hopens, ?_⟩, ?_, h.items,
    h.closes.cons e, h.itemsNodup, h.itemsValid, List.nodup_cons.mpr ⟨hnew, h.closesNodup⟩, ?_, ?_,
    ?_, ?_, ?_⟩
  · have hsnoc : (enqueue s.marking [(.raw, ⟨e.closeToken, now⟩)] .raw).map Stamped.colour =
        (s.marking .raw).map Stamped.colour ++ [e.closeToken] := by simp [enqueue]
    rw [hsnoc]
    refine (List.perm_append_singleton _ _).trans ((hraw.cons e.closeToken).trans ?_)
    exact List.perm_iff_count.mpr fun a => by
      simp [List.count_cons]
      omega
  · simpa [enqueue] using h.results
  · intro x hx
    rcases List.mem_cons.mp hx with rfl | hx
    · exact he
    · exact h.closesValid x hx
  · simpa [enqueue] using h.coordinators
  · simpa [enqueue] using h.newest
  · simpa [enqueue] using h.counted
  · simpa [outputs, enqueue] using h.gathered

theorem inv_open {s : State} {e : Episode} {payload : Json} {now : DateTime} (h : Inv eps s) :
    Inv eps { s with marking := enqueue s.marking [(.raw, ⟨e.openToken payload, now⟩)] } := by
  obtain ⟨waiting, ready, closing, current, done, h⟩ := h
  obtain ⟨opens, hopens, hraw⟩ := h.raw
  refine ⟨waiting, ready, closing, current, done, ⟨opens ++ [e.openToken payload], ?_, ?_⟩, ?_,
    h.items, h.closes, h.itemsNodup, h.itemsValid, h.closesNodup, h.closesValid, ?_, ?_, ?_, ?_⟩
  · intro x hx
    rcases List.mem_append.mp hx with hx | hx
    · exact hopens x hx
    · rw [List.mem_singleton.mp hx]
      rfl
  · have hsnoc : (enqueue s.marking [(.raw, ⟨e.openToken payload, now⟩)] .raw).map Stamped.colour =
        (s.marking .raw).map Stamped.colour ++ [e.openToken payload] := by simp [enqueue]
    rw [hsnoc, ← List.append_assoc]
    exact hraw.append_right _
  · simpa [enqueue] using h.results
  · simpa [enqueue] using h.coordinators
  · simpa [enqueue] using h.newest
  · simpa [enqueue] using h.counted
  · simpa [outputs, enqueue] using h.gathered

/-! ## Sorting the raw tokens -/

theorem perm_of_take {m : ChannelMarking} {p : ChannelPlace} {l₁ l₂ : List ChannelToken}
    {x : ChannelToken} (tokens : List RhaiMap) (hm : m p = l₁ ++ x :: l₂)
    (h : ((m p).map Stamped.colour).Perm (x.colour :: tokens)) :
    ((l₁ ++ l₂).map Stamped.colour).Perm tokens := by
  rw [hm] at h
  have hmiddle : ((l₁ ++ x :: l₂).map Stamped.colour).Perm
      (x.colour :: (l₁ ++ l₂).map Stamped.colour) := by
    have hperm : (l₁ ++ x :: l₂).Perm (x :: (l₁ ++ l₂)) := List.perm_middle
    exact hperm.map Stamped.colour
  exact (hmiddle.symm.trans h).cons_inv

theorem kind_item (x : Episode × Nat) : prop (itemOf x) "kind" = .str "item" := rfl

theorem kind_close (e : Episode) : prop e.closeToken "kind" = .str "close" := rfl

variable {waiting ready : List (Episode × Nat)} {closing : List Episode} {current : Option Episode} {done : List Episode}
  {s : State} {x : ChannelToken} {l₁ l₂ : List ChannelToken} {e : Episode} {c₁ c₂ : List Episode} {now : DateTime}

/-- What is in the raw place is an item, the close of an episode, or an opening. -/
theorem Flow.raw_cases (h : Flow eps s waiting ready closing current done) (hx : x ∈ s.marking .raw) :
    (∃ y ∈ waiting, x.colour = itemOf y) ∨ (∃ e ∈ closing, x.colour = e.closeToken) ∨
      prop x.colour "kind" = .str "open" := by
  obtain ⟨opens, hopens, hraw⟩ := h.raw
  rcases List.mem_append.mp (hraw.mem_iff.mp (List.mem_map_of_mem hx)) with hmem | hmem
  · rcases List.mem_append.mp hmem with hmem | hmem
    · obtain ⟨y, hy, hxy⟩ := List.mem_map.mp hmem
      exact .inl ⟨y, hy, hxy.symm⟩
    · obtain ⟨e, he, hxe⟩ := List.mem_map.mp hmem
      exact .inr (.inl ⟨e, he, hxe.symm⟩)
  · exact .inr (.inr (hopens _ hmem))

theorem Flow.exists_close (h : Flow eps s waiting ready closing current done)
    (hx : x ∈ s.marking .raw) (hkind : prop x.colour "kind" = .str "close") :
    ∃ e ∈ closing, x.colour = e.closeToken := by
  rcases h.raw_cases hx with ⟨y, -, hy⟩ | hclose | hopen
  · rw [hy, kind_item] at hkind
    exact absurd hkind (by decide)
  · exact hclose
  · rw [hopen] at hkind
    exact absurd hkind (by decide)

theorem Flow.exists_item (h : Flow eps s waiting ready closing current done)
    (hx : x ∈ s.marking .raw) (hkind : prop x.colour "kind" = .str "item") :
    ∃ y ∈ waiting, x.colour = itemOf y := by
  rcases h.raw_cases hx with hitem | ⟨e, -, he⟩ | hopen
  · exact hitem
  · rw [he, kind_close] at hkind
    exact absurd hkind (by decide)
  · rw [hopen] at hkind
    exact absurd hkind (by decide)

theorem putOut_coordinator (e : Episode) : putOut (coordinator e) now = ⟨coordinator e, now⟩ := by
  simp [putOut, coordinator, Rhai.dynamicToJsonEntries, dynamicToJsonValue_int e.fits]

theorem Flow.putOut_result (h : Flow eps s waiting ready closing current done) {y : Episode × Nat} (hy : y ∈ waiting) :
    putOut (result (itemOf y)) now = ⟨result (itemOf y), now⟩ := by
  have hmem : y ∈ s.items := h.items.mem_iff.mp (List.mem_append_left _ (List.mem_append_left _ hy))
  obtain ⟨-, hlt, hkept⟩ := h.itemsValid y hmem
  have hresult : result (itemOf y) =
      [("value", payloadOf y), ("__map_idx", int y.2), ("__map_id", .str y.1.mapId)] := rfl
  rw [putOut, hresult]
  simp [Rhai.dynamicToJsonEntries, hkept, dynamicToJsonValue_int (hlt.trans y.1.fits)]

theorem inv_fire_item (h : Inv eps s) (hraw : s.marking .raw = l₁ ++ x :: l₂)
    (hkind : prop x.colour "kind" = .str "item") : Inv eps { s with
      marking := enqueue (Function.update s.marking .raw (l₁ ++ l₂))
        [(.results, putOut (result x.colour) now)] } := by
  obtain ⟨waiting, ready, closing, current, done, h⟩ := h
  obtain ⟨y, hy, hxy⟩ := h.exists_item (by simp [hraw]) hkind
  have hput : putOut (result (itemOf y)) now = ⟨result (itemOf y), now⟩ := h.putOut_result hy
  obtain ⟨w₁, w₂, rfl⟩ := List.append_of_mem hy
  obtain ⟨opens, hopens, hperm⟩ := h.raw
  refine ⟨w₁ ++ w₂, ready ++ [y], closing, current, done, ⟨opens, hopens, ?_⟩, ?_, ?_, h.closes,
    h.itemsNodup, h.itemsValid, h.closesNodup, h.closesValid, ?_, ?_, ?_, ?_⟩
  · have hrest := perm_of_take
        ((w₁ ++ w₂).map itemOf ++ closing.map Episode.closeToken ++ opens) hraw (by
      refine hperm.trans (List.perm_iff_count.mpr fun a => ?_)
      simp [hxy, List.count_cons]
      omega)
    simpa [enqueue] using hrest
  · have hsnoc : (enqueue (Function.update s.marking .raw (l₁ ++ l₂))
        [(.results, putOut (result x.colour) now)] .results).map Stamped.colour =
          (s.marking .results).map Stamped.colour ++ [result (itemOf y)] := by
      simp [enqueue, hxy, hput]
    rw [hsnoc, List.map_append]
    exact h.results.append_right _
  · refine List.Perm.trans (List.perm_iff_count.mpr fun a => ?_) h.items
    simp [List.count_cons]
    omega
  · simpa [enqueue] using h.coordinators
  · simpa [enqueue] using h.newest
  · simpa [enqueue] using h.counted
  · simpa [outputs, enqueue] using h.gathered

theorem inv_fire_close_empty (h : Flow eps s waiting ready (c₁ ++ e :: c₂) current done)
    (hraw : s.marking .raw = l₁ ++ x :: l₂) (hx : x.colour = e.closeToken) (hempty : e.payloads = []) :
    Inv eps { s with
      marking := enqueue (Function.update s.marking .raw (l₁ ++ l₂))
        [(.gathered, putOut [("output", .arr [])] now)] } := by
  obtain ⟨opens, hopens, hperm⟩ := h.raw
  refine ⟨waiting, ready, c₁ ++ c₂, current, done ++ [e], ⟨opens, hopens, ?_⟩, ?_, ?_, ?_,
    h.itemsNodup, h.itemsValid, h.closesNodup, h.closesValid, ?_, ?_, ?_, ?_⟩
  · have hrest := perm_of_take
        (waiting.map itemOf ++ (c₁ ++ c₂).map Episode.closeToken ++ opens) hraw (by
      refine hperm.trans (List.perm_iff_count.mpr fun a => ?_)
      simp [hx, List.count_cons]
      omega)
    simpa [enqueue] using hrest
  · simpa [enqueue] using h.results
  · have hnone : allItems e = [] := by simp [allItems, hempty]
    simpa [hnone] using h.items
  · refine List.Perm.trans (List.perm_iff_count.mpr fun a => ?_) h.closes
    simp [List.count_cons]
    omega
  · intro c hc
    obtain ⟨e', he', hce'⟩ := h.coordinators c (by simpa [enqueue] using hc)
    exact ⟨e', by
      rcases List.mem_append.mp he' with he' | he'
      · exact List.mem_append_left _ he'
      · exact List.mem_append_right _ (List.mem_append_left _ he'), hce'⟩
  · simpa [enqueue] using h.newest
  · simpa [enqueue, hempty] using h.counted
  · have hout : outputs (enqueue (Function.update s.marking .raw (l₁ ++ l₂))
        [(.gathered, putOut [("output", .arr [])] now)]) = outputs s.marking ++ [.arr []] := by
      simp [outputs, enqueue, putOut, Rhai.dynamicToJsonEntries, Rhai.dynamicToJsonValue, Rhai.dynamicToJsonValues, prop]
    rw [hout, h.gathered]
    simp [hempty]

theorem inv_fire_close (h : Flow eps s waiting ready (c₁ ++ e :: c₂) none done)
    (hraw : s.marking .raw = l₁ ++ x :: l₂) (hx : x.colour = e.closeToken) (hne : e.payloads ≠ []) :
    Inv eps { s with
      marking := enqueue (Function.update s.marking .raw (l₁ ++ l₂))
        [(.count, putOut (coordinator e) now)] } := by
  rw [putOut_coordinator]
  obtain ⟨opens, hopens, hperm⟩ := h.raw
  refine ⟨waiting, ready, c₁ ++ c₂, some e, done, ⟨opens, hopens, ?_⟩, ?_, h.items, ?_,
    h.itemsNodup, h.itemsValid, h.closesNodup, h.closesValid, ?_, ?_, ?_, ?_⟩
  · have hrest := perm_of_take
        (waiting.map itemOf ++ (c₁ ++ c₂).map Episode.closeToken ++ opens) hraw (by
      refine hperm.trans (List.perm_iff_count.mpr fun a => ?_)
      simp [hx, List.count_cons]
      omega)
    simpa [enqueue] using hrest
  · simpa [enqueue] using h.results
  · refine List.Perm.trans (List.perm_iff_count.mpr fun a => ?_) h.closes
    simp [List.count_cons]
    omega
  · intro c hc
    have hc' : c ∈ s.marking .count ∨ c = ⟨coordinator e, now⟩ := by simpa [enqueue] using hc
    rcases hc' with hc | rfl
    · obtain ⟨e', he', hce'⟩ := h.coordinators c hc
      exact ⟨e', List.mem_append_right _ (by simpa using he'), hce'⟩
    · exact ⟨e, by simp, rfl⟩
  · intro e' he'
    cases he'
    exact ⟨List.length_pos_iff.mpr hne, ⟨coordinator e, now⟩, by simp [enqueue], rfl⟩
  · have hcounted := h.counted
    simp only [Option.toList_none, List.length_nil, Nat.add_zero] at hcounted
    simp [enqueue, hcounted]
  · simpa [outputs, enqueue] using h.gathered

/-! ## Gathering -/

theorem Flow.mem_ready
    (h : Flow eps s waiting ready closing current done) {x : Episode × Nat} (hx : x ∈ ready) : x ∈ s.items :=
  h.items.mem_iff.mp (List.mem_append_left _ (List.mem_append_right _ hx))

theorem Flow.filter_done (h : Flow eps s waiting ready closing current done) (he : e ∈ done) :
    ready.filter (fun x => x.1 = e) = [] := by
  refine List.filter_eq_nil_iff.mpr fun x hx hxe => ?_
  obtain rfl := of_decide_eq_true hxe
  have hvalid := (h.itemsValid x (h.mem_ready hx)).2.1
  have hnodup := (List.nodup_append.mp (h.items.nodup_iff.mpr h.itemsNodup)).2.2
  refine hnodup x (List.mem_append_right _ hx) x ?_ rfl
  exact List.mem_flatMap.mpr ⟨x.1, he, List.mem_map.mpr ⟨x.2, List.mem_range.mpr hvalid, rfl⟩⟩

theorem Flow.ready_subperm (h : Flow eps s waiting ready closing current done) (e : Episode) :
    (ready.filter fun x => x.1 = e).Subperm (allItems e) := by
  have hnodup : (waiting ++ ready ++ done.flatMap allItems).Nodup :=
    h.items.nodup_iff.mpr h.itemsNodup
  have hready : ready.Nodup := (List.nodup_append.mp (List.nodup_append.mp hnodup).1).2.1
  refine (hready.filter _).subperm fun x hmem => ?_
  obtain ⟨hx, hxe⟩ := List.mem_filter.mp hmem
  clear hmem
  obtain rfl := of_decide_eq_true hxe
  exact List.mem_map.mpr
    ⟨x.2, List.mem_range.mpr (h.itemsValid x (h.mem_ready hx)).2.1, rfl⟩

section

variable (hdistinct : (eps.map fun e => (e.executionId, e.episodeUid)).Nodup)
include hdistinct

theorem eq_of_mapId {e e' : Episode} (he : e ∈ eps) (he' : e' ∈ eps) (h : e.mapId = e'.mapId) : e = e' := by
  obtain ⟨hexecution, huid⟩ := Episode.mapId_inj h
  exact List.inj_on_of_nodup_map hdistinct he he' (Prod.ext hexecution huid)

theorem correlated_iff {x : Episode × Nat} (he : e ∈ eps) (hx : x.1 ∈ eps) :
    Gather.correlated "__map_id" [[coordinator e]] (result (itemOf x)) = true ↔ x.1 = e := by
  have hresult : (result (itemOf x)).lookup "__map_id" = some (.str x.1.mapId) := rfl
  have hcoord : (coordinator e).lookup "__map_id" = some (.str e.mapId) := rfl
  simp only [Gather.correlated, hresult, hcoord, Json.eqv, decide_eq_true_eq]
  exact ⟨fun h => eq_of_mapId hdistinct hx he h, fun h => by rw [h]⟩

theorem Flow.filter_results (h : Flow eps s waiting ready closing current done) (he : e ∈ eps) :
    (((s.marking .results).filter fun x =>
        Gather.correlated "__map_id" [[coordinator e]] x.colour).map Stamped.colour).Perm
      ((ready.filter fun x => x.1 = e).map fun x => result (itemOf x)) := by
  have hfilter := h.results.filter (Gather.correlated "__map_id" [[coordinator e]])
  rw [List.filter_map, List.filter_map] at hfilter
  refine hfilter.trans (List.Perm.of_eq (congrArg (List.map _) (List.filter_congr fun x hx => ?_)))
  rw [Function.comp_apply, Bool.eq_iff_iff,
    correlated_iff hdistinct he (h.itemsValid x (h.mem_ready hx)).1, decide_eq_true_eq]

theorem inv_fire_gather {c : ChannelToken} {k : Nat} {mine rest : List ChannelToken} (h : Inv eps s)
    (hcount : (s.marking .count).getLast? = some c)
    (hquota : Gather.quota "count" [[c.colour]] = some (k + 1))
    (hmine : mine = ((s.marking .results).filter fun x =>
      Gather.correlated "__map_id" [[c.colour]] x.colour).take (k + 1))
    (hlen : mine.length = k + 1) (hperm : (s.marking .results).Perm (rest ++ mine)) : Inv eps { s with
      marking := enqueue (Function.update s.marking .results rest)
        [(.gathered, putOut (Gather.gathered (mine.map Stamped.colour)) now)] } := by
  obtain ⟨waiting, ready, closing, current, done, h⟩ := h
  obtain ⟨e, he, hc⟩ := h.coordinators c (List.mem_of_getLast? hcount)
  have heps : e ∈ eps := by
    refine h.closesValid e (h.closes.mem_iff.mp ?_)
    rcases List.mem_append.mp he with he | he
    · exact List.mem_append_left _ (List.mem_append_right _ he)
    · exact List.mem_append_right _ he
  have hsize : e.payloads.length = k + 1 := by
    rw [hc] at hquota
    exact Option.some.inj hquota
  have hfilter := h.filter_results hdistinct heps
  rw [← hc] at hfilter
  generalize hall : ((s.marking .results).filter fun x =>
    Gather.correlated "__map_id" [[c.colour]] x.colour) = all at hmine hfilter
  have hle : k + 1 ≤ (ready.filter fun x => x.1 = e).length := by
    have hlength := hfilter.length_eq
    rw [List.length_map, List.length_map] at hlength
    have htake := congrArg List.length hmine
    rw [hlen, List.length_take] at htake
    omega
  -- A coordinator whose episode has been gathered has nothing to take any more.
  have hcurrent : current = some e := by
    rcases List.mem_append.mp he with he | he
    · simpa [Option.mem_toList] using he
    · rw [h.filter_done he] at hle
      cases hle
  subst hcurrent
  have hready : (ready.filter fun x => x.1 = e).Perm (allItems e) :=
    (h.ready_subperm e).perm_of_length_le (by simp [allItems, hsize, hle])
  have hmine' : mine = all := by
    rw [hmine]
    refine List.take_of_length_le ?_
    have hlength := hfilter.length_eq
    rw [List.length_map, List.length_map, hready.length_eq] at hlength
    rw [hlength]
    simp [allItems, hsize]
  subst hmine'
  have hmineItems : (mine.map Stamped.colour).Perm ((allItems e).map fun x => result (itemOf x)) :=
    hfilter.trans (hready.map _)
  have hsplit : ready.Perm ((ready.filter fun x => x.1 ≠ e) ++ allItems e) := by
    refine (List.filter_append_perm (fun x => x.1 ≠ e) ready).symm.trans ?_
    refine List.Perm.append_left _ (List.Perm.trans (List.Perm.of_eq ?_) hready)
    exact List.filter_congr fun x _ => by simp
  have hvalue : prop (Gather.gathered (mine.map Stamped.colour)) "output" = .arr e.payloads := by
    have hsorted : (Gather.sortByIdx (mine.map Stamped.colour)).map (prop · "value") =
        (List.range e.payloads.length).map fun i => e.payloads.getD i .null := by
      refine Gather.map_value_sortByIdx e.fits ?_ ?_
      · refine (hmineItems.map _).trans (List.Perm.of_eq ?_)
        rw [allItems, List.map_map, List.map_map]
        rfl
      · intro x hx i hi
        obtain ⟨y, hy, rfl⟩ := List.mem_map.mp (hmineItems.mem_iff.mp hx)
        obtain ⟨j, -, rfl⟩ := List.mem_map.mp hy
        have hij : i = j := by
          have hnum := Json.num.inj hi
          exact (Number.posInt.inj hnum).symm
        rw [hij]
        rfl
    refine congrArg Json.arr (hsorted.trans ?_)
    refine List.ext_getElem (by simp) fun i h₁ h₂ => ?_
    simp [List.getD_eq_getElem?_getD, h₂]
  have hkept : Rhai.dynamicToJsonValue (.arr e.payloads) = .arr e.payloads := by
    refine dynamicToJsonValue_arr fun v hv => ?_
    obtain ⟨i, hi, rfl⟩ := List.getElem_of_mem hv
    have hitem : (e, i) ∈ allItems e := List.mem_map.mpr ⟨i, List.mem_range.mpr hi, rfl⟩
    have hpayload := (h.itemsValid _ (h.mem_ready (List.mem_of_mem_filter (hready.mem_iff.mpr hitem)))).2.2
    rwa [payloadOf, List.getD_eq_getElem?_getD, List.getElem?_eq_getElem hi, Option.getD_some] at hpayload
  refine ⟨waiting, ready.filter fun x => x.1 ≠ e, closing, none, done ++ [e], ?_, ?_, ?_, ?_,
    h.itemsNodup, h.itemsValid, h.closesNodup, h.closesValid, ?_, by simp, ?_, ?_⟩
  · simpa [enqueue] using h.raw
  · have hrest : (rest.map Stamped.colour ++ mine.map Stamped.colour).Perm
        ((ready.filter fun x => x.1 ≠ e).map (fun x => result (itemOf x)) ++
          mine.map Stamped.colour) := by
      rw [← List.map_append]
      refine (hperm.map Stamped.colour).symm.trans (h.results.trans ((hsplit.map _).trans ?_))
      rw [List.map_append]
      exact List.Perm.append_left _ hmineItems.symm
    simpa [enqueue] using (List.perm_append_right_iff _).mp hrest
  · refine List.Perm.trans ?_ h.items
    have hcount := fun a => hsplit.count_eq a
    refine List.perm_iff_count.mpr fun a => ?_
    rw [List.count_append, List.count_append, List.count_append, List.count_append, hcount a,
      List.flatMap_append, List.count_append, List.count_append]
    simp
    omega
  · refine List.Perm.trans (List.perm_iff_count.mpr fun a => ?_) h.closes
    simp [List.count_cons]
  · intro c' hc'
    obtain ⟨e', he', hce'⟩ := h.coordinators c' (by simpa [enqueue] using hc')
    exact ⟨e', by simpa [or_comm] using he', hce'⟩
  · have hne : e.payloads ≠ [] := List.length_pos_iff.mp (by omega)
    have hcounted := h.counted
    simpa [enqueue, hne] using hcounted
  · have hout : outputs (enqueue (Function.update s.marking .results rest)
        [(.gathered, putOut (Gather.gathered (mine.map Stamped.colour)) now)]) =
          outputs s.marking ++ [.arr e.payloads] := by
      simp [outputs, enqueue, putOut, prop_dynamicToJsonEntries, hvalue, hkept]
    rw [hout, h.gathered, List.map_append, List.map_singleton]

/-! ## Steps -/

theorem inv_fires {m : ChannelMarking} {t : ChannelTransition}
    (hinv : Inv eps s) (hfires : Fires s.marking now t m)
    (hseparate : ∀ close, t = .tClose → ChannelNet.closing s.marking = some close →
      Rhai.eq (prop close.colour "count") (int 0) = true ∨
        (s.marking .count).length = (outputs s.marking).countP (· ≠ .arr [])) :
    Inv eps { s with marking := m } := by
  cases hfires with
  | @close l₁ l₂ x hraw hkind hclosing =>
    obtain ⟨waiting, ready, closes, current, done, h⟩ := hinv
    obtain ⟨e, he, hxe⟩ := h.exists_close (by simp [hraw]) hkind
    obtain ⟨c₁, c₂, rfl⟩ := List.append_of_mem he
    have hzero : Rhai.eq (prop x.colour "count") (int 0) = true ↔ e.payloads = [] := by
      rw [hxe, show prop e.closeToken "count" = int e.payloads.length from rfl, int, int,
        Rhai.eq_posInt e.fits (Nat.two_pow_pos 63), List.length_eq_zero_iff]
    by_cases hempty : e.payloads = []
    · have hclosed : closed x.colour = (.gathered, [("output", .arr [])]) := by
        rw [closed, if_pos (hzero.mpr hempty)]
      rw [hclosed]
      exact inv_fire_close_empty h hraw hxe hempty
    · have hclosed : closed x.colour = (.count, coordinator e) := by
        rw [closed, if_neg fun h => hempty (hzero.mp h), hxe]
        rfl
      -- Every coordinator has been gathered, so no episode is being gathered.
      have hcurrent : current = none := by
        have hall := (hseparate x rfl hclosing).resolve_left fun h => hempty (hzero.mp h)
        have hsame : done.countP ((fun o : Json => decide (o ≠ .arr [])) ∘ fun e => .arr e.payloads) =
            done.countP fun e => e.payloads ≠ [] := List.countP_congr fun e _ => by simp
        rw [h.counted, h.gathered, List.countP_map, hsame] at hall
        cases current with
        | none => rfl
        | some e => exact absurd hall (by simp)
      subst hcurrent
      rw [hclosed]
      exact inv_fire_close h hraw hxe hempty
  | item hraw hkind => exact inv_fire_item hinv hraw hkind
  | gather hcount hquota hmine hlen hperm =>
    exact inv_fire_gather hdistinct hinv hcount hquota hmine hlen hperm

theorem inv_step (s : State) (act : Action) (s' : State) (hinv : Inv eps s)
    (hseparate : Separate seg s act) (h : step seg eps s act = some s') : Inv eps s' := by
  cases act with
  | item e i now =>
    simp only [step] at h
    split at h
    · next hc =>
      cases h
      exact inv_item hinv hc.1 hc.2.1 (of_decide_eq_true hseparate) hc.2.2
    · cases h
  | close e now =>
    simp only [step] at h
    split at h
    · next hc =>
      cases h
      exact inv_close hinv hc.1 hc.2
    · cases h
  | openEpisode e payload now =>
    cases h
    exact inv_open hinv
  | evaluate now =>
    obtain ⟨sel, hsel, h⟩ := Option.bind_eq_some_iff.mp h
    obtain ⟨m, hm, rfl⟩ := Option.map_eq_some_iff.mp h
    refine inv_fires hdistinct hinv (fires_of_fire hm) fun close ht hclose => ?_
    have hc : separate seg s (.evaluate now) = true := hseparate
    simpa [separate, hsel, ht, hclose] using hc

end

/-! ## At rest -/

theorem Flow.waiting_eq_nil
    (h : Flow eps s waiting ready closing current done) (hquiet : Quiescent seg s.marking) :
    waiting = [] := by
  by_contra hne
  obtain ⟨y, hy⟩ := List.exists_mem_of_ne_nil _ hne
  obtain ⟨opens, -, hperm⟩ := h.raw
  obtain ⟨x, hx, hxy⟩ := List.mem_map.mp (hperm.mem_iff.mpr
    (List.mem_append_left _ (List.mem_append_left _ (List.mem_map_of_mem hy))))
  have hfalse := guard_eq_false_of_mem hquiet (t := .tItem) (by decide) rfl hx
  have htrue : (channelNet .tItem).guard [[itemOf y]] = true := Rhai.eq_str_right.mpr (kind_item y)
  rw [hxy, htrue] at hfalse
  cases hfalse

theorem Flow.closing_eq_nil
    (h : Flow eps s waiting ready closing current done) (hquiet : Quiescent seg s.marking) :
    closing = [] := by
  by_contra hne
  obtain ⟨e, he⟩ := List.exists_mem_of_ne_nil _ hne
  obtain ⟨opens, -, hperm⟩ := h.raw
  obtain ⟨x, hx, hxe⟩ := List.mem_map.mp (hperm.mem_iff.mpr
    (List.mem_append_left _ (List.mem_append_right _ (List.mem_map_of_mem he))))
  have hfalse := guard_eq_false_of_mem hquiet (t := .tClose) (by decide) rfl hx
  have htrue : (channelNet .tClose).guard [[e.closeToken]] = true :=
    Rhai.eq_str_right.mpr (kind_close e)
  rw [hxe, htrue] at hfalse
  cases hfalse

theorem Flow.current_eq_none (h : Flow eps s waiting ready closing current done)
    (hdistinct : (eps.map fun e => (e.executionId, e.episodeUid)).Nodup)
    (hdeposited : Deposited eps s) (hquiet : Quiescent seg s.marking) : current = none := by
  cases hcurrent : current with
  | none => rfl
  | some e =>
    obtain rfl := h.waiting_eq_nil hquiet
    have hcloses : (closing ++ current.toList ++ done).Nodup := h.closes.nodup_iff.mpr h.closesNodup
    have hnotDone : e ∉ done := fun he =>
      (List.nodup_append.mp hcloses).2.2 e (by simp [hcurrent]) e he rfl
    have heps : e ∈ eps := h.closesValid e (h.closes.mem_iff.mp (by simp [hcurrent]))
    obtain ⟨hpos, c, hc, hcolour⟩ := h.newest e hcurrent
    -- Every item of the episode has become a result.
    have hready : allItems e ⊆ ready.filter fun x => x.1 = e := by
      intro x hx
      obtain ⟨i, hi, rfl⟩ := List.mem_map.mp hx
      have hmem := h.items.mem_iff.mpr ((hdeposited e heps).2 i (List.mem_range.mp hi))
      rcases List.mem_append.mp hmem with hmem | hmem
      · exact List.mem_filter.mpr ⟨by simpa using hmem, by simp⟩
      · obtain ⟨e', he', hmem⟩ := List.mem_flatMap.mp hmem
        obtain ⟨j, -, hj⟩ := List.mem_map.mp hmem
        obtain ⟨rfl, -⟩ := Prod.mk.inj hj
        exact absurd he' hnotDone
    have hlen : e.payloads.length ≤ (ready.filter fun x => x.1 = e).length := by
      have hnodup : (allItems e).Nodup :=
        List.nodup_range.map fun i j hij => (Prod.mk.inj hij).2
      have hle := (hnodup.subperm hready).length_le
      simpa [allItems] using hle
    obtain ⟨k, hk⟩ : ∃ k, e.payloads.length = k + 1 := Nat.exists_eq_succ_of_ne_zero hpos.ne'
    have hquota : Gather.quota "count" [[c.colour]] = some (k + 1) := by
      rw [hcolour, ← hk]
      rfl
    have hresults : k + 1 ≤ ((s.marking .results).filter fun x =>
        Gather.correlated "__map_id" [[c.colour]] x.colour).length := by
      have hlength := (h.filter_results hdistinct heps).length_eq
      rw [List.length_map, List.length_map] at hlength
      rw [hcolour, hlength, ← hk]
      exact hlen
    obtain ⟨b, r, hmem⟩ : ∃ b r,
        (b, r) ∈ choices (timed ⟨0⟩ (channelNet .tGather)).inputs [] s.marking :=
      ⟨_, _, mem_choices_peek.mpr ⟨c, hc,
        mem_choices_gather.mpr ⟨k, hquota, hresults, mem_choices_nil.mpr ⟨rfl, rfl⟩⟩⟩⟩
    exact absurd (guard_eq_false_of_select hquiet (t := .tGather) (by decide) rfl (Or.inr rfl) hmem)
      (by simp [channelNet, scripted, tGather, gatherBarrier])

end

def pair : Episode where
  executionId := "x"
  episodeUid := "1"
  channel := "out"
  payloads := [.str "A", .str "B"]
  uid := by decide
  fits := by decide

def single : Episode where
  executionId := "y"
  episodeUid := "2"
  channel := "out"
  payloads := [.str "C"]
  uid := by decide
  fits := by decide

/-- The second close comes when the first episode has been gathered. -/
def inTurn : List Action :=
  [.item pair 1 ⟨1⟩, .evaluate ⟨2⟩, .close pair ⟨3⟩, .evaluate ⟨4⟩, .item single 0 ⟨5⟩, .evaluate ⟨6⟩,
    .item pair 0 ⟨7⟩, .evaluate ⟨8⟩, .evaluate ⟨9⟩, .close single ⟨10⟩, .evaluate ⟨11⟩, .evaluate ⟨12⟩]

/-- The second close comes before the last item of the first episode. -/
def overlapping : List Action :=
  [.item pair 0 ⟨1⟩, .evaluate ⟨2⟩, .close pair ⟨3⟩, .evaluate ⟨4⟩, .item single 0 ⟨5⟩, .evaluate ⟨6⟩,
    .close single ⟨7⟩, .evaluate ⟨8⟩, .evaluate ⟨9⟩, .item pair 1 ⟨10⟩, .evaluate ⟨11⟩]

end ChannelGather

end Mekhan

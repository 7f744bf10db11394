import Mekhan.Application.BindingSpec
import Mekhan.Properties.BindingSearch
import Mekhan.Properties.Redelivery

/-!
# Tokens that a binding consumes

Each arc selects its tokens on its own: `picks` are their positions in the place. Nothing in
`build_binding_for_indices` keeps two arcs of one place apart, and an arc to a single port takes one token whatever its
weight.
-/

namespace Mekhan

namespace TokenUse

open Infra JoinSearch BindingSearch

/-! ## One arc after the other -/

/-- One arc's turn: the binding so far, the arc with its index, and the binding after it. -/
structure ArcStep where
  before : TokenBinding
  arc : ArcTokens
  idx : Nat
  after : TokenBinding

section

variable (transition : Transition) (schemaRegistry : Option SchemaRegistry)

/-- The arcs with their indices, in the order in which they are bound. -/
def passOrder (arcs : List ArcTokens) (indices : List Nat) : List (ArcTokens × Nat) :=
  ((arcs.zip indices).filter fun x => x.1.arc.countFrom.isNone) ++
    (arcs.zip indices).filter fun x => x.1.arc.countFrom.isSome

/-- The turns of the arcs, as far as they bind. -/
def arcSteps (b : TokenBinding) : List (ArcTokens × Nat) → List ArcStep
  | [] => []
  | x :: rest =>
    match bindArc transition schemaRegistry b x with
    | some b' => ⟨b, x.1, x.2, b'⟩ :: arcSteps b' rest
    | none => []

end

/-- The coordinator of a gather arc and the count it names. -/
def coordinatorOf (b : TokenBinding) (countRef : String) : Option (Json × Nat) := do
  let (port, field) ← splitOnceDot countRef.toList
  let coordinator ← b.portInputs.lookup (String.ofList port)
  match coordinator.get? (String.ofList field) with
  | some (.num n) => n.asU64.map fun k => (coordinator, k)
  | _ => none

namespace ArcStep

/-- The tokens that the arc adds to the consumed ones. -/
def share (s : ArcStep) : List (PlaceId × TokenId) := s.after.consumedTokens.drop s.before.consumedTokens.length

/-- How many tokens the arc requires: a gather arc what its coordinator says, a drain arc all there are up to its cap,
any other arc its weight. A read arc requires none to consume. -/
def required (s : ArcStep) : Nat :=
  if s.arc.arc.read then 0
  else
    match s.arc.arc.drainMax with
    | some cap => min s.arc.tokens.length (max cap 1)
    | none =>
      match s.arc.arc.countFrom with
      | some countRef => ((coordinatorOf s.before countRef).map (·.2)).getD 0
      | none => s.arc.arc.weight

/-- The positions, in the arc's place, of the tokens that the arc consumes. -/
def picks (transition : Transition) (s : ArcStep) : List Nat :=
  if s.arc.arc.read then []
  else
    match s.arc.arc.drainMax with
    | some cap => List.range (min (max cap 1) s.arc.tokens.length)
    | none =>
      match s.arc.arc.countFrom with
      | some countRef =>
        match coordinatorOf s.before countRef with
        | some (coordinator, k) =>
          ((List.range s.arc.tokens.length).filter fun i => (s.arc.tokens[i]?).any fun t =>
            match s.arc.arc.correlateOn with
            | some field => correlates field coordinator t
            | none => true).take k
        | none => []
      | none =>
        if s.arc.arc.IsBatch transition then
          List.range' s.idx (min s.arc.arc.weight (s.arc.tokens.length - s.idx))
        else [s.idx]

end ArcStep

/-! ## Positions -/

section Positions

variable {α : Type}

theorem map_getElem?_range (l : List α) : ((List.range l.length).map fun i => l[i]?) = l.map some := by
  refine List.ext_getElem? fun i => ?_
  rw [List.getElem?_map, List.getElem?_map]
  by_cases h : i < l.length
  · simp [h]
  · simp [h]

theorem map_getElem?_filter (l : List α) (p : α → Bool) :
    (((List.range l.length).filter fun i => (l[i]?).any p).map fun i => l[i]?) = (l.filter p).map some := by
  have hcomp : (fun i : Nat => (l[i]?).any p) = (Option.any p) ∘ fun i : Nat => l[i]? := rfl
  rw [hcomp, ← List.filter_map, map_getElem?_range, List.filter_map]
  rfl

theorem disjoint_positions_iff {β : Type} {l : List α} {f : α → β} (hnodup : (l.map f).Nodup) {is js : List Nat}
    {xs ys : List α} (hxs : xs.map some = is.map fun i => l[i]?) (hys : ys.map some = js.map fun i => l[i]?) :
    List.Disjoint (xs.map f) (ys.map f) ↔ List.Disjoint is js := by
  have hmem : ∀ {zs : List α} {ks : List Nat}, (zs.map some = ks.map fun i => l[i]?) → ∀ k ∈ ks,
      ∃ z ∈ zs, l[k]? = some z := by
    intro zs ks h k hk
    have hin : l[k]? ∈ zs.map some := h ▸ List.mem_map_of_mem hk
    obtain ⟨z, hz, heq⟩ := List.mem_map.mp hin
    exact ⟨z, hz, heq.symm⟩
  have hget : ∀ {zs : List α} {ks : List Nat}, (zs.map some = ks.map fun i => l[i]?) → ∀ z ∈ zs,
      ∃ k ∈ ks, l[k]? = some z := by
    intro zs ks h z hz
    have hin : some z ∈ ks.map fun i => l[i]? := h ▸ List.mem_map_of_mem hz
    obtain ⟨k, hk, heq⟩ := List.mem_map.mp hin
    exact ⟨k, hk, heq⟩
  constructor
  · intro h k hi hj
    obtain ⟨x, hx, hkx⟩ := hmem hxs k hi
    obtain ⟨y, hy, hky⟩ := hmem hys k hj
    rw [hkx] at hky
    cases hky
    exact h (List.mem_map_of_mem hx) (List.mem_map_of_mem hy)
  · intro h z hz hz'
    obtain ⟨x, hx, rfl⟩ := List.mem_map.mp hz
    obtain ⟨y, hy, heq⟩ := List.mem_map.mp hz'
    obtain ⟨i, hi, hix⟩ := hget hxs x hx
    obtain ⟨j, hj, hjy⟩ := hget hys y hy
    have hlt : i < (l.map f).length := by
      rw [List.length_map]
      exact (List.getElem?_eq_some_iff.mp hix).1
    have hij : i = j := by
      refine (List.getElem?_inj hlt hnodup).mp ?_
      rw [List.getElem?_map, List.getElem?_map, hix, hjy, Option.map_some, Option.map_some, heq]
    exact h hi (hij ▸ hj)

end Positions

variable {transition : Transition} {schemaRegistry : Option SchemaRegistry} {arcs : List ArcTokens}
  {indices : List Nat} {b b' : TokenBinding}

theorem coordinates_iff {countRef : String} {coordinator : Json} {k : Nat} :
    Coordinates b countRef coordinator k ↔ coordinatorOf b countRef = some (coordinator, k) := by
  unfold coordinatorOf
  simp only [Option.bind_eq_bind, Option.bind_eq_some_iff]
  constructor
  · rintro ⟨port, field, hsplit, hport, n, hn, hk⟩
    exact ⟨(port, field), hsplit, coordinator, hport, by simp [hn, hk]⟩
  · rintro ⟨⟨port, field⟩, hsplit, coordinator', hport, h⟩
    dsimp only at h
    split at h
    · next n hn =>
      obtain ⟨k', hk', heq⟩ := Option.map_eq_some_iff.mp h
      cases heq
      exact ⟨port, field, hsplit, hport, n, hn, hk'⟩
    · cases h

theorem eligibleTokens_eq (a : ArcTokens) (coordinator : Json) : eligibleTokens a coordinator =
    a.tokens.filter fun t => match a.arc.correlateOn with
      | some field => correlates field coordinator t
      | none => true := by
  unfold eligibleTokens
  cases a.arc.correlateOn with
  | none => exact (List.filter_eq_self.mpr fun _ _ => rfl).symm
  | some field => rfl

namespace ArcStep

variable {s : ArcStep} {taken : List Token}

theorem map_picks (h : ArcTakes transition s.before s.arc s.idx taken) (hread : s.arc.arc.read = false) :
    taken.map some = (s.picks transition).map fun i => s.arc.tokens[i]? := by
  unfold picks
  rw [if_neg (by simp [hread])]
  cases h with
  | drain cap hdrain =>
    rw [hdrain]
    dsimp only
    rw [← List.take_range, List.map_take, List.map_take, map_getElem?_range]
  | gather countRef coordinator k hdrain hcount hcoordinator =>
    rw [hdrain, hcount]
    dsimp only
    rw [coordinates_iff.mp hcoordinator]
    dsimp only
    rw [List.map_take, List.map_take, map_getElem?_filter, eligibleTokens_eq]
  | batch hdrain hcount hbatch hidx =>
    rw [hdrain, hcount]
    dsimp only
    rw [if_pos hbatch, if_neg (by simp [hread])]
    have hrange : List.range' s.idx (min s.arc.arc.weight (s.arc.tokens.length - s.idx)) =
        ((List.range s.arc.tokens.length).drop s.idx).take s.arc.arc.weight := by
      rw [List.range_eq_range', List.drop_range', Nat.zero_add, Nat.mul_one]
      rcases Nat.le_total s.arc.arc.weight (s.arc.tokens.length - s.idx) with h | h
      · rw [List.take_range'_of_length_ge h, Nat.min_eq_left h]
      · rw [List.take_range'_of_length_le h, Nat.min_eq_right h]
    rw [hrange, List.map_take, List.map_take, List.map_drop, List.map_drop, map_getElem?_range]
  | single token hdrain hcount hsingle htoken =>
    rw [hdrain, hcount]
    dsimp only
    rw [if_neg hsingle, if_neg (by simp [hread])]
    simp [htoken]

/-- The arc consumes the tokens that it takes, unless it reads them. -/
structure Takes (transition : Transition) (s : ArcStep) (taken : List Token) : Prop where
  takes : ArcTakes transition s.before s.arc s.idx taken
  consumed : s.after.consumedTokens = s.before.consumedTokens ++ s.share
  share : s.share = if s.arc.arc.read then [] else taken.map fun t => (s.arc.arc.placeId, t.id)

theorem exists_takes (h : bindArc transition schemaRegistry s.before (s.arc, s.idx) = some s.after) :
    ∃ taken, s.Takes transition taken := by
  obtain ⟨taken, hbound⟩ := exists_arcBound h
  have hshare : s.share = if s.arc.arc.read then [] else taken.map fun t => (s.arc.arc.placeId, t.id) := by
    rw [share, hbound.consumed, List.drop_left]
  exact ⟨taken, hbound.takes, by rw [hshare]; exact hbound.consumed, hshare⟩

theorem picks_of_read (hread : s.arc.arc.read = true) : s.picks transition = [] := by
  rw [picks, if_pos hread]

namespace Takes

theorem length_share (h : s.Takes transition taken) : s.share.length = (s.picks transition).length := by
  rw [h.share]
  cases hread : s.arc.arc.read with
  | true =>
    rw [if_pos rfl, picks_of_read hread]
    rfl
  | false =>
    have hlength := congrArg List.length (map_picks h.takes hread)
    simpa using hlength

theorem placeId_eq (h : s.Takes transition taken) {c : PlaceId × TokenId} (hc : c ∈ s.share) :
    c.1 = s.arc.arc.placeId := by
  rw [h.share] at hc
  split at hc
  · cases hc
  · obtain ⟨t, -, rfl⟩ := List.mem_map.mp hc
    rfl

theorem nodup_share (h : s.Takes transition taken) (hids : (s.arc.tokens.map (·.id)).Nodup) : s.share.Nodup := by
  rw [h.share]
  cases hread : s.arc.arc.read with
  | true => exact List.nodup_nil
  | false =>
    have hnodup := hids.sublist ((h.takes.sublist hread).map _)
    have hpairs : (taken.map fun t => (s.arc.arc.placeId, t.id)) =
        (taken.map (·.id)).map fun id => (s.arc.arc.placeId, id) := by
      rw [List.map_map]
      rfl
    rw [if_neg (by simp), hpairs]
    exact hnodup.map fun id id' heq => (Prod.mk.inj heq).2

theorem disjoint_share_iff {s' : ArcStep} {taken' : List Token} (h : s.Takes transition taken)
    (h' : s'.Takes transition taken') (hids : (s.arc.tokens.map (·.id)).Nodup)
    (htokens : s.arc.arc.placeId = s'.arc.arc.placeId → s.arc.tokens = s'.arc.tokens) :
    List.Disjoint s.share s'.share ↔
      (s.arc.arc.placeId = s'.arc.arc.placeId → List.Disjoint (s.picks transition) (s'.picks transition)) := by
  cases hread : s.arc.arc.read with
  | true =>
    rw [h.share, if_pos hread, picks_of_read hread]
    simp
  | false =>
    cases hread' : s'.arc.arc.read with
    | true =>
      rw [h'.share, if_pos hread', picks_of_read hread']
      simp
    | false =>
      by_cases hplace : s.arc.arc.placeId = s'.arc.arc.placeId
      · have hmap := map_picks h.takes hread
        have hmap' := map_picks h'.takes hread'
        rw [← htokens hplace] at hmap'
        rw [← disjoint_positions_iff hids hmap hmap', h.share, h'.share, if_neg (by simp [hread]),
          if_neg (by simp [hread']), ← hplace]
        have hpairs : ∀ l : List Token, (l.map fun t => (s.arc.arc.placeId, t.id)) =
            (l.map (·.id)).map fun id => (s.arc.arc.placeId, id) := by
          intro l
          rw [List.map_map]
          rfl
        rw [hpairs, hpairs, List.Disjoint.map_iff fun id id' heq => (Prod.mk.inj heq).2]
        exact ⟨fun hdisjoint _ => hdisjoint, fun hdisjoint => hdisjoint rfl⟩
      · refine ⟨fun _ heq => absurd heq hplace, fun _ c hc hc' => hplace ?_⟩
        rw [← h.placeId_eq hc, ← h'.placeId_eq hc']

end Takes

/-- Every arc but one of these takes what it requires: an arc to a single port takes one token, and one to a batch port
takes what is left from its index on. -/
def Full (transition : Transition) (s : ArcStep) : Prop :=
  s.arc.arc.read = false → s.arc.arc.drainMax = none → s.arc.arc.countFrom = none →
    if s.arc.arc.IsBatch transition then s.idx + s.arc.arc.weight ≤ s.arc.tokens.length else s.arc.arc.weight = 1

theorem Takes.full_iff (h : s.Takes transition taken) : s.share.length = s.required ↔ s.Full transition := by
  rw [h.length_share]
  unfold picks required Full
  cases hread : s.arc.arc.read with
  | true => simp
  | false =>
    simp only [Bool.false_eq_true, if_false, true_implies]
    obtain ⟨htakes, -, -⟩ := h
    cases htakes with
    | drain cap hdrain =>
      rw [hdrain]
      simp [Nat.min_comm]
    | gather countRef coordinator k hdrain hcount hcoordinator hpos henough =>
      have hlength : ((List.range s.arc.tokens.length).filter fun i => (s.arc.tokens[i]?).any fun t =>
          match s.arc.arc.correlateOn with
          | some field => correlates field coordinator t
          | none => true).length = (eligibleTokens s.arc coordinator).length := by
        have hmap := congrArg List.length (map_getElem?_filter s.arc.tokens fun t =>
          match s.arc.arc.correlateOn with
          | some field => correlates field coordinator t
          | none => true)
        rw [List.length_map, List.length_map] at hmap
        rw [hmap, eligibleTokens_eq]
      rw [hdrain, hcount]
      dsimp only
      rw [coordinates_iff.mp hcoordinator]
      dsimp only [Option.map_some, Option.getD_some]
      rw [List.length_take, hlength, Nat.min_eq_left henough]
      simp
    | batch hdrain hcount hbatch hidx =>
      rw [hdrain, hcount]
      dsimp only
      rw [if_pos hbatch, if_pos hbatch, List.length_range']
      constructor
      · intro heq _ _
        omega
      · intro hfull
        have hle := hfull rfl rfl
        omega
    | single token hdrain hcount hsingle htoken =>
      rw [hdrain, hcount]
      dsimp only
      rw [if_neg hsingle, if_neg hsingle, List.length_singleton]
      exact ⟨fun heq _ _ => heq.symm, fun hfull => (hfull rfl rfl).symm⟩

end ArcStep

/-! ## The whole binding -/

theorem buildBindingForIndices_eq_foldlM : buildBindingForIndices transition schemaRegistry arcs indices =
    (passOrder arcs indices).foldlM (bindArc transition schemaRegistry) .empty := by
  rw [passOrder, List.foldlM_append]
  rfl

theorem arcSteps_spec : ∀ {l : List (ArcTokens × Nat)} {b b' : TokenBinding},
    l.foldlM (bindArc transition schemaRegistry) b = some b' →
      b'.consumedTokens = b.consumedTokens ++ (arcSteps transition schemaRegistry b l).flatMap ArcStep.share ∧
        ∀ s ∈ arcSteps transition schemaRegistry b l, (s.arc, s.idx) ∈ l ∧ ∃ taken, s.Takes transition taken
  | [], b, b', h => by
    rw [List.foldlM_nil] at h
    cases h
    simp [arcSteps]
  | x :: l, b, b', h => by
    rw [List.foldlM_cons] at h
    obtain ⟨b₁, hb₁, h⟩ := Option.bind_eq_some_iff.mp h
    obtain ⟨hconsumed, hsteps⟩ := arcSteps_spec h
    have hfirst : arcSteps transition schemaRegistry b (x :: l) =
        ⟨b, x.1, x.2, b₁⟩ :: arcSteps transition schemaRegistry b₁ l := by
      rw [arcSteps, hb₁]
    obtain ⟨taken, htakes⟩ := ArcStep.exists_takes (s := ⟨b, x.1, x.2, b₁⟩) hb₁
    rw [hfirst]
    constructor
    · rw [hconsumed, htakes.consumed, List.append_assoc]
      rfl
    · intro s hs
      rcases List.mem_cons.mp hs with rfl | hs
      · exact ⟨List.mem_cons_self, taken, htakes⟩
      · exact ⟨List.mem_cons_of_mem _ (hsteps s hs).1, (hsteps s hs).2⟩

section

variable (transition : Transition) (schemaRegistry : Option SchemaRegistry) (arcs : List ArcTokens)
  (indices : List Nat)

/-- The turns of the arcs at an index vector. -/
def stepsAt : List ArcStep := arcSteps transition schemaRegistry .empty (passOrder arcs indices)

/-- No two arcs of one place consume the token at one position. -/
def Apart : Prop :=
  (stepsAt transition schemaRegistry arcs indices).Pairwise fun s s' =>
    s.arc.arc.placeId = s'.arc.arc.placeId → List.Disjoint (s.picks transition) (s'.picks transition)

/-- The binding consumes tokens of the marking, each once; every arc contributes as many as it requires, so that
consuming them takes from each place what its arcs require together. -/
structure UsedOnce (marking : Marking) (b : TokenBinding) : Prop where
  distinct : b.consumedTokens.Nodup
  present : marking.Holds b.consumedTokens
  counts : ∀ s ∈ stepsAt transition schemaRegistry arcs indices, s.share.length = s.required
  reduces : ∀ p, ((marking.removeTokens b.consumedTokens).tokensAt p).length +
    (((stepsAt transition schemaRegistry arcs indices).filter fun s => s.arc.arc.placeId = p).map (·.required)).sum =
      (marking.tokensAt p).length

end

theorem stepsAt_spec (h : buildBindingForIndices transition schemaRegistry arcs indices = some b) :
    b.consumedTokens = (stepsAt transition schemaRegistry arcs indices).flatMap ArcStep.share ∧
      ∀ s ∈ stepsAt transition schemaRegistry arcs indices,
        (s.arc, s.idx) ∈ arcs.zip indices ∧ ∃ taken, s.Takes transition taken := by
  rw [buildBindingForIndices_eq_foldlM] at h
  obtain ⟨hconsumed, hsteps⟩ := arcSteps_spec h
  refine ⟨hconsumed, fun s hs => ⟨?_, (hsteps s hs).2⟩⟩
  rcases List.mem_append.mp (hsteps s hs).1 with hmem | hmem
  · exact (List.mem_filter.mp hmem).1
  · exact (List.mem_filter.mp hmem).1

theorem length_filter_flatMap_share {steps : List ArcStep} (p : PlaceId)
    (h : ∀ s ∈ steps, ∃ taken, s.Takes transition taken) :
    ((steps.flatMap ArcStep.share).filter fun c => c.1 = p).length =
      ((steps.filter fun s => s.arc.arc.placeId = p).map (·.share.length)).sum := by
  induction steps with
  | nil => rfl
  | cons s steps ih =>
    obtain ⟨taken, htakes⟩ := h s List.mem_cons_self
    rw [List.flatMap_cons, List.filter_append, List.length_append, ih fun s' hs' => h s' (List.mem_cons_of_mem _ hs')]
    by_cases hplace : s.arc.arc.placeId = p
    · have hall : (s.share.filter fun c => c.1 = p) = s.share :=
        List.filter_eq_self.mpr fun c hc => by simp [htakes.placeId_eq hc, hplace]
      rw [hall, List.filter_cons_of_pos (by simpa using hplace), List.map_cons, List.sum_cons]
    · have hnone : (s.share.filter fun c => c.1 = p) = [] :=
        List.filter_eq_nil_iff.mpr fun c hc => by simp [htakes.placeId_eq hc, hplace]
      rw [hnone, List.filter_cons_of_neg (by simpa using hplace), List.length_nil, Nat.zero_add]

theorem length_removeTokens (p : PlaceId) : ∀ {consumed : List (PlaceId × TokenId)} {m : Marking},
    consumed.Nodup → m.Holds consumed →
      ((m.removeTokens consumed).tokensAt p).length + (consumed.filter fun c => c.1 = p).length =
        (m.tokensAt p).length
  | [], _, _, _ => rfl
  | c :: rest, m, hnodup, hholds => by
    obtain ⟨hc, hrest⟩ := List.nodup_cons.mp hnodup
    obtain ⟨t, ht, hid⟩ := hholds c List.mem_cons_self
    -- The other tokens are still there.
    have hstill : (m.removeToken c.1 c.2).Holds rest := by
      intro d hd
      obtain ⟨u, hu, huid⟩ := hholds d (List.mem_cons_of_mem _ hd)
      rw [Marking.tokensAt_removeToken]
      split
      · next hplace =>
        have hne : u.id ≠ c.2 := by
          intro heq
          have hdc : d = c := Prod.ext hplace (huid.symm.trans heq)
          exact hc (hdc ▸ hd)
        rw [hplace] at hu
        exact ⟨u, (List.mem_eraseP_of_neg (by simpa using hne)).mpr hu, huid⟩
      · exact ⟨u, hu, huid⟩
    have hrec := length_removeTokens p hrest hstill
    show (((m.removeToken c.1 c.2).removeTokens rest).tokensAt p).length + _ = _
    rw [Marking.tokensAt_removeToken] at hrec
    by_cases hplace : c.1 = p
    · subst hplace
      rw [if_pos rfl, List.length_eraseP_of_mem ht (by simpa using hid)] at hrec
      have hpos := List.length_pos_of_mem ht
      rw [List.filter_cons_of_pos (by simp), List.length_cons]
      omega
    · rw [if_neg (Ne.symm hplace)] at hrec
      rw [List.filter_cons_of_neg (by simpa using hplace), hrec]

/-! ## Where the search stops -/

/-- The index vector at which the search stops. -/
def foundAt (executor : TransitionExecutor) (transition : Transition) (schemaRegistry : Option SchemaRegistry)
    (arcs : List ArcTokens) : Option (List Nat) :=
  if Short arcs then none
  else if arcs = [] then some []
  else (visited transition schemaRegistry arcs).find? fun indices =>
    (tryIndices executor transition schemaRegistry transition.guard arcs indices).isSome

variable {executor : TransitionExecutor}

theorem findSome?_eq_find?_bind {α β : Type} (f : α → Option β) : ∀ l : List α,
    l.findSome? f = (l.find? fun x => (f x).isSome).bind f
  | [] => rfl
  | x :: l => by
    rw [List.findSome?_cons, List.find?_cons]
    cases hx : f x with
    | none => exact findSome?_eq_find?_bind f l
    | some y => exact hx.symm

/-- **What the search finds is the binding at the vector at which it stops.** -/
theorem searchBinding_eq_foundAt : searchBinding executor transition schemaRegistry arcs =
    (foundAt executor transition schemaRegistry arcs).bind (buildBindingForIndices transition schemaRegistry arcs) := by
  rw [searchBinding_eq_visited, foundAt]
  split
  · rfl
  split
  · next hnil =>
    subst hnil
    rfl
  rw [findSome?_eq_find?_bind]
  cases hfind : (visited transition schemaRegistry arcs).find? fun indices =>
      (tryIndices executor transition schemaRegistry transition.guard arcs indices).isSome with
  | none => rfl
  | some indices =>
    have hsome := List.find?_some hfind
    obtain ⟨b, hb⟩ := Option.isSome_iff_exists.mp hsome
    rw [Option.bind_some, Option.bind_some, hb, (tryIndices_eq_some.mp hb).1]

theorem built_of_foundAt (h : foundAt executor transition schemaRegistry arcs = some indices) :
    ∃ b, buildBindingForIndices transition schemaRegistry arcs indices = some b := by
  unfold foundAt at h
  split at h
  · cases h
  split at h
  · next hnil =>
    cases h
    exact ⟨.empty, by rw [hnil]; rfl⟩
  · have hsome := List.find?_some h
    obtain ⟨b, hb⟩ := Option.isSome_iff_exists.mp hsome
    exact ⟨b, (tryIndices_eq_some.mp hb).1⟩

/-- **A binding consumes each token once and as many as required exactly when its arcs are apart and full.** -/
theorem usedOnce_iff {marking : Marking} (hunique : marking.NoTokenTwice)
    (hcollected : ∀ a ∈ arcs, a.tokens = marking.tokensAt a.arc.placeId)
    (hbuilt : buildBindingForIndices transition schemaRegistry arcs indices = some b) :
    UsedOnce transition schemaRegistry arcs indices marking b ↔ Apart transition schemaRegistry arcs indices ∧
        ∀ s ∈ stepsAt transition schemaRegistry arcs indices, s.Full transition := by
  obtain ⟨hconsumed, hsteps⟩ := stepsAt_spec hbuilt
  have htokens : ∀ s ∈ stepsAt transition schemaRegistry arcs indices,
      s.arc.tokens = marking.tokensAt s.arc.arc.placeId :=
    fun s hs => hcollected s.arc (List.of_mem_zip (hsteps s hs).1).1
  have hids : ∀ s ∈ stepsAt transition schemaRegistry arcs indices, (s.arc.tokens.map (·.id)).Nodup :=
    fun s hs => htokens s hs ▸ hunique _
  have hdistinct : b.consumedTokens.Nodup ↔ Apart transition schemaRegistry arcs indices := by
    rw [hconsumed, List.nodup_flatMap, Apart]
    refine (and_iff_right fun s hs => ?_).trans (List.Pairwise.iff_of_mem fun {s s'} hs hs' => ?_)
    · obtain ⟨taken, htakes⟩ := (hsteps s hs).2
      exact htakes.nodup_share (hids s hs)
    · obtain ⟨taken, htakes⟩ := (hsteps s hs).2
      obtain ⟨taken', htakes'⟩ := (hsteps s' hs').2
      exact htakes.disjoint_share_iff htakes' (hids s hs) fun hplace => by
        rw [htokens s hs, htokens s' hs', hplace]
  have hcounts : (∀ s ∈ stepsAt transition schemaRegistry arcs indices, s.share.length = s.required) ↔
      ∀ s ∈ stepsAt transition schemaRegistry arcs indices, s.Full transition :=
    forall₂_congr fun s hs => by
      obtain ⟨taken, htakes⟩ := (hsteps s hs).2
      exact htakes.full_iff
  have hpresent : marking.Holds b.consumedTokens := by
    intro c hc
    obtain ⟨a, ha, t, ht, rfl⟩ := TokenBinding.DrawnFrom.buildBindingForIndices hbuilt c hc
    exact ⟨t, hcollected a ha ▸ ht, rfl⟩
  constructor
  · exact fun h => ⟨hdistinct.mp h.distinct, hcounts.mp h.counts⟩
  · rintro ⟨hapart, hfull⟩
    have hnodup := hdistinct.mpr hapart
    have hcount := hcounts.mpr hfull
    refine ⟨hnodup, hpresent, hcount, fun p => ?_⟩
    have hlength := length_removeTokens p hnodup hpresent
    rw [hconsumed, length_filter_flatMap_share p fun s hs => (hsteps s hs).2, ← hconsumed] at hlength
    have hsum : (((stepsAt transition schemaRegistry arcs indices).filter fun s => s.arc.arc.placeId = p).map
        (·.share.length)) = ((stepsAt transition schemaRegistry arcs indices).filter fun s =>
          s.arc.arc.placeId = p).map (·.required) :=
      List.map_congr_left fun s hs => hcount s (List.mem_of_mem_filter hs)
    rwa [hsum] at hlength

/-- **What the search finds consumes each token once and as many as required exactly when the search stops at a vector
at which the arcs are apart and full.** -/
theorem tokens_used_once_iff (executor : TransitionExecutor) (transition : Transition)
    (schemaRegistry : Option SchemaRegistry) (inputArcs : List Arc) (marking : Marking)
    (hunique : marking.NoTokenTwice) :
    (∀ b, findValidBinding executor transition schemaRegistry inputArcs marking = some b →
        ∃ indices, foundAt executor transition schemaRegistry
            (inputArcs.map fun a => ⟨a, marking.tokensAt a.placeId⟩) = some indices ∧
          UsedOnce transition schemaRegistry (inputArcs.map fun a => ⟨a, marking.tokensAt a.placeId⟩) indices marking b) ↔
      ∀ indices, foundAt executor transition schemaRegistry
          (inputArcs.map fun a => ⟨a, marking.tokensAt a.placeId⟩) = some indices →
        Apart transition schemaRegistry (inputArcs.map fun a => ⟨a, marking.tokensAt a.placeId⟩) indices ∧
          ∀ s ∈ stepsAt transition schemaRegistry (inputArcs.map fun a => ⟨a, marking.tokensAt a.placeId⟩) indices,
            s.Full transition := by
  have hcollected : ∀ a ∈ inputArcs.map (fun a => (⟨a, marking.tokensAt a.placeId⟩ : ArcTokens)),
      a.tokens = marking.tokensAt a.arc.placeId := by
    intro a ha
    obtain ⟨arc, -, rfl⟩ := List.mem_map.mp ha
    rfl
  unfold findValidBinding
  rw [searchBinding_eq_foundAt]
  constructor
  · intro h indices hfound
    obtain ⟨b, hbuilt⟩ := built_of_foundAt hfound
    obtain ⟨indices', hfound', hused⟩ := h b (by rw [hfound, Option.bind_some, hbuilt])
    obtain rfl := Option.some.inj (hfound.symm.trans hfound')
    exact (usedOnce_iff hunique hcollected hbuilt).mp hused
  · intro h b hb
    obtain ⟨indices, hfound, hbuilt⟩ := Option.bind_eq_some_iff.mp hb
    exact ⟨indices, hfound, (usedOnce_iff hunique hcollected hbuilt).mpr (h indices hfound)⟩

/-! ## Two arcs of one place -/

def pairTransition : Transition := { Transition.new "pair" "" with inputPorts := [.new "a", .new "b"] }

def pairArcs : List Arc := [.input ⟨0⟩ ⟨"pool"⟩ ⟨"pair"⟩ "a", .input ⟨1⟩ ⟨"pool"⟩ ⟨"pair"⟩ "b"]

def pairMarking : Marking := (Marking.new.addToken ⟨"pool"⟩ (.new ⟨0⟩ ⟨0⟩ .unit)).addToken ⟨"pool"⟩ (.new ⟨1⟩ ⟨0⟩ .unit)

theorem noTokenTwice_two {place : PlaceId} {t t' : Token} (hne : t.id ≠ t'.id) :
    ((Marking.new.addToken place t).addToken place t').NoTokenTwice := by
  intro p
  rw [Marking.tokensAt_addToken]
  by_cases hp : p = place
  · rw [if_pos hp, Marking.tokensAt_addToken, if_pos rfl]
    have hempty : Marking.new.tokensAt place = [] := rfl
    simpa [hempty] using hne
  · rw [if_neg hp, Marking.tokensAt_addToken, if_neg hp]
    exact List.nodup_nil

theorem noTokenTwice_pair : pairMarking.NoTokenTwice := noTokenTwice_two (by decide)

/-- A guard that asks for two keys. -/
def apartExecutor : TransitionExecutor where
  evaluateGuard _ inputs :=
    .ok (decide ((inputs.lookup "a").bind (·.get? "k") ≠ (inputs.lookup "b").bind (·.get? "k")))
  evaluatePriority _ _ := none
  executeScript _ _ := .ok ∅

def apartTransition : Transition := { pairTransition with guard := some "a.k != b.k" }

def apartMarking : Marking := (Marking.new.addToken ⟨"pool"⟩ (keyToken 0 "x")).addToken ⟨"pool"⟩ (keyToken 1 "y")

/-- The two arcs of the place take its two tokens, since the guard turns the pairs of one token away. -/
theorem tokens_used_once_apart :
    ∃ b, findValidBinding apartExecutor apartTransition none pairArcs apartMarking = some b ∧
      b.consumedTokens = [(⟨"pool"⟩, ⟨0⟩), (⟨"pool"⟩, ⟨1⟩)] ∧
      ∃ indices, foundAt apartExecutor apartTransition none
          (pairArcs.map fun a => ⟨a, apartMarking.tokensAt a.placeId⟩) = some indices ∧
        UsedOnce apartTransition none (pairArcs.map fun a => ⟨a, apartMarking.tokensAt a.placeId⟩) indices
          apartMarking b := by
  have hfound : (findValidBinding apartExecutor apartTransition none pairArcs apartMarking).map (·.consumedTokens) =
      some [(⟨"pool"⟩, ⟨0⟩), (⟨"pool"⟩, ⟨1⟩)] := by decide
  obtain ⟨b, hb, hconsumed⟩ := Option.map_eq_some_iff.mp hfound
  refine ⟨b, hb, hconsumed, (tokens_used_once_iff apartExecutor apartTransition none pairArcs apartMarking
    (noTokenTwice_two (by decide))).mpr (fun indices hindices => ?_) b hb⟩
  obtain ⟨b', hbuilt⟩ := built_of_foundAt hindices
  have hstops : foundAt apartExecutor apartTransition none
      (pairArcs.map fun a => ⟨a, apartMarking.tokensAt a.placeId⟩) = some [0, 1] := by decide
  obtain rfl := Option.some.inj (hstops.symm.trans hindices)
  have hpicks : (stepsAt apartTransition none (pairArcs.map fun a => ⟨a, apartMarking.tokensAt a.placeId⟩) [0, 1]).map
      (·.picks apartTransition) = [[0], [1]] := by decide
  refine ⟨?_, fun s hs => ?_⟩
  · have hapart : ([[0], [1]] : List (List Nat)).Pairwise List.Disjoint := by simp
    rw [← hpicks, List.pairwise_map] at hapart
    refine List.Pairwise.imp ?_ hapart
    intro s s' hdisjoint _
    exact hdisjoint
  · have hmem := ((stepsAt_spec hbuilt).2 s hs).1
    have harc : s.arc.arc ∈ pairArcs := by
      obtain ⟨arc, harc, heq⟩ := List.mem_map.mp (List.of_mem_zip hmem).1
      rw [← heq]
      exact harc
    have hone : ∀ arc ∈ pairArcs, ¬ arc.IsBatch apartTransition ∧ arc.weight = 1 := by decide
    intro _ _ _
    rw [if_neg (hone _ harc).1]
    exact (hone _ harc).2

/-- Two arcs of one place consume its first token twice, although there are two. -/
theorem pair_consumes_twice : pairMarking.NoTokenTwice ∧
    ∃ b, findValidBinding keyExecutor pairTransition none pairArcs pairMarking = some b ∧ ¬ b.consumedTokens.Nodup := by
  have hfound : (findValidBinding keyExecutor pairTransition none pairArcs pairMarking).map (·.consumedTokens) =
      some [(⟨"pool"⟩, ⟨0⟩), (⟨"pool"⟩, ⟨0⟩)] := by decide
  obtain ⟨b, hb, hconsumed⟩ := Option.map_eq_some_iff.mp hfound
  exact ⟨noTokenTwice_pair, b, hb, by rw [hconsumed]; decide⟩

end TokenUse

end Mekhan

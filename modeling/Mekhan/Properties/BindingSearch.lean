import Mekhan.Application.PinnedBinding
import Mekhan.Properties.JoinSearch

/-!
# What the search for a binding finds

`find_valid_binding` of `application/src/binding.rs` has four ways to go about it. `visited` are the index vectors it
goes through, whichever way it takes, and `searchBinding_eq_visited` says that it returns the first that binds.
-/

namespace Mekhan

namespace BindingSearch

open Infra JoinSearch

/-! ## The way of the search -/

section

variable (executor : TransitionExecutor) (transition : Transition) (schemaRegistry : Option SchemaRegistry)
  (arcs : List ArcTokens)

/-- A place has fewer tokens than its arc's weight, and the arc leaves the count to nothing else. -/
def Short : Bool :=
  arcs.any fun a => a.arc.countFrom.isNone && a.arc.drainMax.isNone && a.tokens.length < a.arc.weight

/-- The equalities that the search prunes by, as edges; none without a guard or without a plan. -/
def pruningEdges : List (Nat × BackEdge) :=
  match transition.guard with
  | none => []
  | some script =>
    if 2 ≤ arcs.length ∧ (JoinPlan.build transition arcs (extractJoinConstraints script)).isSome then
      edgesOf transition arcs (extractJoinConstraints script)
    else []

/-- Neither a guard nor a schema can refuse the first tokens. -/
def Unchecked : Prop := transition.guard = none ∧ schemaRegistry.isNone

instance : Decidable (Unchecked transition schemaRegistry) := inferInstanceAs (Decidable (_ ∧ _))

/-- The index vectors that the search goes through, in its order. -/
def visited : List (List Nat) :=
  if Unchecked transition schemaRegistry then [arcs.map fun _ => 0]
  else (combinations (arcs.map (·.tokens.length))).filter (Follows arcs (pruningEdges transition arcs))

/-- A vector of token indices, one for each arc, that builds a binding on which the guard holds. -/
structure Binds (indices : List Nat) (b : TokenBinding) : Prop where
  length : indices.length = arcs.length
  built : buildBindingForIndices transition schemaRegistry arcs indices = some b
  guard : guardHolds executor transition b.portInputs = true

end

variable {executor : TransitionExecutor} {transition : Transition} {schemaRegistry : Option SchemaRegistry}
  {arcs : List ArcTokens} {indices : List Nat} {b : TokenBinding}

theorem guardHolds_some {script : String} {ports : HashMap String Json} (h : transition.guard = some script) :
    guardHolds executor transition ports = true ↔ executor.evaluateGuard script ports = .ok true := by
  unfold guardHolds
  rw [h]
  dsimp only
  split
  · next hok => exact iff_of_true rfl hok
  · next hok => exact iff_of_false Bool.false_ne_true hok

theorem tryIndices_eq_some : tryIndices executor transition schemaRegistry transition.guard arcs indices = some b ↔
    buildBindingForIndices transition schemaRegistry arcs indices = some b ∧
      guardHolds executor transition b.portInputs = true := by
  unfold tryIndices
  cases hguard : transition.guard with
  | none => simp [guardHolds, hguard]
  | some script =>
    rw [guardHolds_some hguard]
    refine Option.bind_eq_some_iff.trans ⟨?_, ?_⟩
    · rintro ⟨b', hbuilt, htry⟩
      dsimp only at htry
      split at htry
      · next hok =>
        cases htry
        exact ⟨hbuilt, hok⟩
      · cases htry
    · rintro ⟨hbuilt, hok⟩
      exact ⟨b, hbuilt, by simp only [hok]⟩

theorem built_nonempty (hlength : indices.length = arcs.length)
    (h : buildBindingForIndices transition schemaRegistry arcs indices = some b) : ∀ a ∈ arcs, a.tokens ≠ [] := by
  intro a ha hempty
  obtain ⟨before, after, rfl⟩ := List.append_of_mem ha
  have hsplit : indices = indices.take before.length ++ indices.getD before.length 0 :: indices.drop (before.length + 1) := by
    have hlt : before.length < indices.length := by
      rw [hlength]
      simp
    rw [List.getD_eq_getElem?_getD, List.getElem?_eq_getElem hlt, Option.getD_some, List.getElem_cons_drop]
    exact (List.take_append_drop ..).symm
  rw [hsplit, buildBindingForIndices_of_empty (by simp [hlength]) hempty] at h
  cases h

theorem fifo_first
    (h : buildBindingForIndices transition schemaRegistry arcs (arcs.map fun _ => 0) = some b) :
    (combinations (arcs.map (·.tokens.length))).findSome?
      (tryIndices executor transition schemaRegistry none arcs) = some b := by
  have hzero : 0 ∉ arcs.map (·.tokens.length) := by
    intro hmem
    obtain ⟨a, ha, hlength⟩ := List.mem_map.mp hmem
    exact built_nonempty (List.length_map ..) h a ha (List.length_eq_zero_iff.mp hlength)
  have hhead := head?_combinations hzero
  rw [List.map_map] at hhead
  obtain ⟨rest, hrest⟩ := List.head?_eq_some_iff.mp hhead
  have htry : tryIndices executor transition schemaRegistry none arcs (arcs.map fun _ => 0) = some b := by
    rw [tryIndices, h]
    rfl
  rw [hrest, List.findSome?_cons]
  simp only [Function.comp_def, htry]

/-- **The search returns the first of the visited vectors that binds.** -/
theorem searchBinding_eq_visited : searchBinding executor transition schemaRegistry arcs =
    if Short arcs then none
    else if arcs = [] then some .empty
    else (visited transition schemaRegistry arcs).findSome?
      (tryIndices executor transition schemaRegistry transition.guard arcs) := by
  unfold searchBinding
  refine ite_congr rfl (fun _ => rfl) fun _ => ite_congr rfl (fun _ => rfl) fun _ => ?_
  have hnone : ∀ {l : List (List Nat)}, l.filter (Follows arcs []) = l :=
    List.filter_eq_self.mpr fun _ _ => rfl
  cases hguard : transition.guard with
  | none =>
    have hedges : pruningEdges transition arcs = [] := by
      unfold pruningEdges
      rw [hguard]
    cases schemaRegistry with
    | none =>
      rw [visited, if_pos ⟨hguard, rfl⟩]
      simp [tryIndices]
    | some registry =>
      rw [visited, if_neg (by simp [Unchecked]), hedges, hnone]
      dsimp only
      split
      · next heq => cases heq
      · next fifo heq => exact (fifo_first heq).symm
      · rfl
  | some script =>
    rw [visited, if_neg (by simp [Unchecked, hguard])]
    unfold pruningEdges
    rw [hguard]
    dsimp only
    by_cases htwo : 2 ≤ arcs.length
    · rw [if_pos htwo]
      cases hplan : JoinPlan.build transition arcs (extractJoinConstraints script) with
      | none => simp [hnone]
      | some plan =>
        dsimp only
        rw [if_pos ⟨htwo, rfl⟩, search_eq_follows hplan arcs [] rfl rfl, findSome?_filter_eq_ite]
        rfl
    · rw [if_neg htwo, if_neg fun h => htwo h.1, hnone]

theorem length_of_mem_visited (h : indices ∈ visited transition schemaRegistry arcs) :
    indices.length = arcs.length := by
  unfold visited at h
  split at h
  · rw [List.mem_singleton.mp h, List.length_map]
  · rw [(mem_combinations.mp (List.mem_filter.mp h).1).length_eq, List.length_map]

/-! ## Every vector that binds is one of the cross product -/

/-- The index of an arc that takes as many tokens as there are, or as a coordinator names, does not matter. -/
def normalIndex (a : ArcTokens) (i : Nat) : Nat :=
  if a.arc.drainMax.isSome ∨ a.arc.countFrom.isSome then 0 else i

theorem bindArc_normalIndex (b : TokenBinding) (a : ArcTokens) (i : Nat) :
    bindArc transition schemaRegistry b (a, normalIndex a i) = bindArc transition schemaRegistry b (a, i) := by
  unfold bindArc normalIndex
  cases hdrain : a.arc.drainMax with
  | some cap => rfl
  | none =>
    cases hcount : a.arc.countFrom with
    | some countRef => rfl
    | none => simp

theorem zip_zipWith_normalIndex : ∀ (arcs : List ArcTokens) (indices : List Nat),
    arcs.zip (List.zipWith normalIndex arcs indices) = (arcs.zip indices).map fun x => (x.1, normalIndex x.1 x.2)
  | [], _ => rfl
  | _ :: _, [] => rfl
  | _ :: arcs, _ :: indices => congrArg _ (zip_zipWith_normalIndex arcs indices)

theorem buildBindingForIndices_normalIndex : buildBindingForIndices transition schemaRegistry arcs
    (List.zipWith normalIndex arcs indices) = buildBindingForIndices transition schemaRegistry arcs indices := by
  have hfold : ∀ (p : ArcTokens → Bool) (b : TokenBinding),
      ((arcs.zip (List.zipWith normalIndex arcs indices)).filter fun x => p x.1).foldlM
        (bindArc transition schemaRegistry) b =
      ((arcs.zip indices).filter fun x => p x.1).foldlM (bindArc transition schemaRegistry) b := by
    intro p b
    rw [zip_zipWith_normalIndex, List.filter_map, List.foldlM_map]
    simp only [bindArc_normalIndex, Function.comp_def]
  unfold buildBindingForIndices
  dsimp only
  rw [hfold fun a => a.arc.countFrom.isNone]
  exact congrArg _ (funext fun b => hfold (fun a => a.arc.countFrom.isSome) b)

theorem bindArc_index_lt {a : ArcTokens} {i : Nat} {b b' : TokenBinding}
    (h : bindArc transition schemaRegistry b (a, i) = some b') (hdrain : a.arc.drainMax = none)
    (hcount : a.arc.countFrom = none) : i < a.tokens.length := by
  unfold bindArc bindPlain at h
  simp only [hdrain, hcount] at h
  obtain ⟨token, htoken, -⟩ := Option.bind_eq_some_iff.mp h
  exact (List.getElem?_eq_some_iff.mp htoken).1

theorem foldlM_bindArc_of_mem {l : List (ArcTokens × Nat)} {x : ArcTokens × Nat} (hx : x ∈ l) {b b' : TokenBinding}
    (h : l.foldlM (bindArc transition schemaRegistry) b = some b') :
    ∃ b₁ b₂, bindArc transition schemaRegistry b₁ x = some b₂ := by
  obtain ⟨before, after, rfl⟩ := List.append_of_mem hx
  rw [List.foldlM_append] at h
  obtain ⟨b₁, -, h⟩ := Option.bind_eq_some_iff.mp h
  rw [List.foldlM_cons] at h
  obtain ⟨b₂, hb₂, -⟩ := Option.bind_eq_some_iff.mp h
  exact ⟨b₁, b₂, hb₂⟩

theorem index_lt_of_built (h : buildBindingForIndices transition schemaRegistry arcs indices = some b)
    {a : ArcTokens} {i : Nat} (hmem : (a, i) ∈ arcs.zip indices) (hdrain : a.arc.drainMax = none)
    (hcount : a.arc.countFrom = none) : i < a.tokens.length := by
  unfold buildBindingForIndices at h
  obtain ⟨b₁, hb₁, -⟩ := Option.bind_eq_some_iff.mp h
  have hfilter : (a, i) ∈ (arcs.zip indices).filter fun x => x.1.arc.countFrom.isNone :=
    List.mem_filter.mpr ⟨hmem, by simp [hcount]⟩
  obtain ⟨b₂, b₃, hstep⟩ := foldlM_bindArc_of_mem hfilter hb₁
  exact bindArc_index_lt hstep hdrain hcount

/-- **A vector that builds has one in the cross product that builds the same and follows the same edges.** -/
theorem exists_mem_combinations (hlength : indices.length = arcs.length)
    (h : buildBindingForIndices transition schemaRegistry arcs indices = some b) :
    ∃ indices' ∈ combinations (arcs.map (·.tokens.length)),
      buildBindingForIndices transition schemaRegistry arcs indices' = some b ∧
        ∀ constraints, Follows arcs (edgesOf transition arcs constraints) indices' =
          Follows arcs (edgesOf transition arcs constraints) indices := by
  refine ⟨List.zipWith normalIndex arcs indices, mem_combinations.mpr ?_,
    buildBindingForIndices_normalIndex.trans h, fun constraints => ?_⟩
  · rw [List.forall₂_map_right_iff, List.forall₂_iff_get]
    have hzip : (List.zipWith normalIndex arcs indices).length = arcs.length := by simp [hlength]
    refine ⟨hzip, fun k hk hk' => ?_⟩
    have hki : k < indices.length := hlength ▸ hk'
    simp only [List.get_eq_getElem, List.getElem_zipWith]
    have hmem : (arcs[k], indices[k]) ∈ arcs.zip indices :=
      List.mem_iff_getElem?.mpr ⟨k, by simp [List.zip, hk', hki]⟩
    unfold normalIndex
    split
    · exact List.length_pos_of_ne_nil (built_nonempty hlength h _ (List.getElem_mem hk'))
    · next hindex =>
      simp only [not_or, Option.not_isSome_iff_eq_none] at hindex
      exact index_lt_of_built h hmem hindex.1 hindex.2
  · -- The arcs of an edge go by their indices.
    have hget : ∀ k a, arcs[k]? = some a → ¬ IndexFree a.arc →
        (List.zipWith normalIndex arcs indices).getD k 0 = indices.getD k 0 := by
      intro k a ha hfree
      rw [List.getD_eq_getElem?_getD, List.getD_eq_getElem?_getD, List.getElem?_zipWith, ha]
      simp only [IndexFree, not_or] at hfree
      cases indices[k]? with
      | none => rfl
      | some i => simp [normalIndex, hfree.2.1, hfree.2.2]
    rw [Bool.eq_iff_iff, follows_iff, follows_iff]
    refine forall₂_congr fun e he => ?_
    obtain ⟨a, a', ha, ha', -, hfree, hfree'⟩ := edge_spec he
    rw [hget e.1 a ha hfree, agrees_congr (hget e.2.partner a' ha' hfree')]

theorem pruningEdges_eq (transition : Transition) (arcs : List ArcTokens) :
    ∃ constraints, pruningEdges transition arcs = edgesOf transition arcs constraints := by
  unfold pruningEdges
  split
  · exact ⟨[], rfl⟩
  · split
    · exact ⟨_, rfl⟩
    · exact ⟨[], rfl⟩

/-! ## What is missed -/

section

variable (executor : TransitionExecutor) (transition : Transition) (schemaRegistry : Option SchemaRegistry)
  (arcs : List ArcTokens)

/-- The inputs on which the search finds too little, or something it should not. -/
inductive Missed : Prop
  /-- Without input arcs the guard is not evaluated. -/
  | unguarded (hnil : arcs = []) (hguard : guardHolds executor transition ∅ = false)
  /-- A place has fewer tokens than its arc's weight, but a binding takes only one of them. -/
  | short (hshort : Short arcs = true) {indices : List Nat} {b : TokenBinding}
    (hbinds : Binds executor transition schemaRegistry arcs indices b)
  /-- Without a guard or schemas only the first tokens are tried, and they do not bind together. -/
  | firsts (hunchecked : Unchecked transition schemaRegistry)
    (hfirsts : buildBindingForIndices transition schemaRegistry arcs (arcs.map fun _ => 0) = none)
    {indices : List Nat} {b : TokenBinding} (hbinds : Binds executor transition schemaRegistry arcs indices b)
  /-- The guard holds on bindings, but on none whose tokens agree on the equalities read off its text. -/
  | pruned (hpruned : ∀ indices b, Binds executor transition schemaRegistry arcs indices b →
      Follows arcs (pruningEdges transition arcs) indices = false) {indices : List Nat} {b : TokenBinding}
    (hbinds : Binds executor transition schemaRegistry arcs indices b)

end

theorem findSome?_visited_eq_some (h : (visited transition schemaRegistry arcs).findSome?
      (tryIndices executor transition schemaRegistry transition.guard arcs) = some b) :
    ∃ indices, Binds executor transition schemaRegistry arcs indices b := by
  obtain ⟨indices, hmem, htry⟩ := List.exists_of_findSome?_eq_some h
  obtain ⟨hbuilt, hguard⟩ := tryIndices_eq_some.mp htry
  exact ⟨indices, length_of_mem_visited hmem, hbuilt, hguard⟩

theorem findSome?_visited_isSome (hmem : indices ∈ visited transition schemaRegistry arcs)
    (hbuilt : buildBindingForIndices transition schemaRegistry arcs indices = some b)
    (hguard : guardHolds executor transition b.portInputs = true) :
    ((visited transition schemaRegistry arcs).findSome?
      (tryIndices executor transition schemaRegistry transition.guard arcs)).isSome := by
  rw [List.findSome?_isSome_iff]
  exact ⟨indices, hmem, by rw [tryIndices_eq_some.mpr ⟨hbuilt, hguard⟩]; rfl⟩

/-! ## Where the search finds nothing -/

theorem searchBinding_eq_none_of_firsts (hunchecked : Unchecked transition schemaRegistry)
    (hfirsts : buildBindingForIndices transition schemaRegistry arcs (arcs.map fun _ => 0) = none) :
    searchBinding executor transition schemaRegistry arcs = none := by
  have hne : arcs ≠ [] := by
    rintro rfl
    exact absurd hfirsts (by simp [buildBindingForIndices])
  have htry : tryIndices executor transition schemaRegistry transition.guard arcs (arcs.map fun _ => 0) = none := by
    rw [tryIndices, hfirsts]
    rfl
  rw [searchBinding_eq_visited, if_neg hne, visited, if_pos hunchecked, List.findSome?_cons, htry,
    List.findSome?_nil, ite_self]

theorem of_pruningEdges_ne_nil (h : pruningEdges transition arcs ≠ []) :
    arcs ≠ [] ∧ ¬ Unchecked transition schemaRegistry := by
  constructor
  · rintro rfl
    refine h ?_
    unfold pruningEdges
    split
    · rfl
    · simp
  · rintro ⟨hguard, -⟩
    exact h (by unfold pruningEdges; rw [hguard])

theorem searchBinding_eq_none_of_pruned
    (hpruned : ∀ indices b, Binds executor transition schemaRegistry arcs indices b →
      Follows arcs (pruningEdges transition arcs) indices = false)
    (hbinds : Binds executor transition schemaRegistry arcs indices b) :
    searchBinding executor transition schemaRegistry arcs = none := by
  have hedges : pruningEdges transition arcs ≠ [] := by
    intro hnil
    have hfollows := hpruned _ _ hbinds
    rw [hnil] at hfollows
    exact absurd hfollows (by simp [Follows, FollowsFrom])
  obtain ⟨hne, hchecked⟩ : arcs ≠ [] ∧ ¬ Unchecked transition schemaRegistry := of_pruningEdges_ne_nil hedges
  rw [searchBinding_eq_visited, if_neg hne, ite_eq_left_iff]
  intro _
  rw [Option.eq_none_iff_forall_ne_some]
  intro b' hb'
  obtain ⟨indices', hmem, htry⟩ := List.exists_of_findSome?_eq_some hb'
  obtain ⟨hbuilt, hguard⟩ := tryIndices_eq_some.mp htry
  have hfollows := hpruned indices' b' ⟨length_of_mem_visited hmem, hbuilt, hguard⟩
  rw [visited, if_neg hchecked, List.mem_filter, hfollows] at hmem
  exact Bool.false_ne_true hmem.2

/-! ## Where it does not -/

theorem exists_visited (hmissed : ¬ Missed executor transition schemaRegistry arcs)
    (hunchecked : ¬ Unchecked transition schemaRegistry)
    (hbinds : Binds executor transition schemaRegistry arcs indices b) :
    ∃ indices' ∈ visited transition schemaRegistry arcs, ∃ b',
      buildBindingForIndices transition schemaRegistry arcs indices' = some b' ∧
        guardHolds executor transition b'.portInputs = true := by
  obtain ⟨indices₁, b₁, hbinds₁, hfollows⟩ : ∃ indices b, Binds executor transition schemaRegistry arcs indices b ∧
      Follows arcs (pruningEdges transition arcs) indices = true := by
    by_contra hnone
    push Not at hnone
    exact hmissed (.pruned (fun indices b h => Bool.eq_false_iff.mpr (hnone indices b h)) hbinds)
  obtain ⟨constraints, hedges⟩ := pruningEdges_eq transition arcs
  obtain ⟨indices', hmem, hbuilt, hsame⟩ := exists_mem_combinations hbinds₁.length hbinds₁.built
  refine ⟨indices', ?_, b₁, hbuilt, hbinds₁.guard⟩
  rw [visited, if_neg hunchecked]
  refine List.mem_filter.mpr ⟨hmem, ?_⟩
  rw [hedges] at hfollows ⊢
  rw [hsame, hfollows]

theorem searchBinding_isSome (hmissed : ¬ Missed executor transition schemaRegistry arcs)
    (hbinds : Binds executor transition schemaRegistry arcs indices b) :
    (searchBinding executor transition schemaRegistry arcs).isSome := by
  rw [searchBinding_eq_visited, if_neg fun hshort => hmissed (.short hshort hbinds)]
  split
  · rfl
  by_cases hunchecked : Unchecked transition schemaRegistry
  · cases hfirsts : buildBindingForIndices transition schemaRegistry arcs (arcs.map fun _ => 0) with
    | none => exact absurd (.firsts hunchecked hfirsts hbinds) hmissed
    | some b' =>
      have hmem : (arcs.map fun _ => 0) ∈ visited transition schemaRegistry arcs := by
        rw [visited, if_pos hunchecked]
        exact List.mem_singleton_self _
      exact findSome?_visited_isSome hmem hfirsts (by simp [guardHolds, hunchecked.1])
  · obtain ⟨indices', hmem, b', hbuilt, hguard⟩ := exists_visited hmissed hunchecked hbinds
    exact findSome?_visited_isSome hmem hbuilt hguard

theorem binds_of_searchBinding (hmissed : ¬ Missed executor transition schemaRegistry arcs)
    (h : searchBinding executor transition schemaRegistry arcs = some b) :
    ∃ indices, Binds executor transition schemaRegistry arcs indices b := by
  rw [searchBinding_eq_visited, Option.ite_none_left_eq_some] at h
  obtain ⟨-, h⟩ := h
  split at h
  · next hnil =>
    cases h
    refine ⟨[], by rw [hnil]; rfl, by rw [hnil]; rfl, ?_⟩
    by_contra hguard
    exact hmissed (.unguarded hnil (Bool.eq_false_iff.mpr hguard))
  · exact findSome?_visited_eq_some h

/-- **Binding search is complete, and what it returns binds, except on the inputs of `Missed`.** -/
theorem search_exact_iff (executor : TransitionExecutor) (transition : Transition)
    (schemaRegistry : Option SchemaRegistry) (inputArcs : List Arc) (marking : Marking) :
    (((∃ indices b, Binds executor transition schemaRegistry
          (inputArcs.map fun a => ⟨a, marking.tokensAt a.placeId⟩) indices b) →
        (findValidBinding executor transition schemaRegistry inputArcs marking).isSome) ∧
      ∀ b, findValidBinding executor transition schemaRegistry inputArcs marking = some b →
        ∃ indices, Binds executor transition schemaRegistry
          (inputArcs.map fun a => ⟨a, marking.tokensAt a.placeId⟩) indices b) ↔
      ¬ Missed executor transition schemaRegistry (inputArcs.map fun a => ⟨a, marking.tokensAt a.placeId⟩) := by
  unfold findValidBinding
  generalize inputArcs.map (fun a => (⟨a, marking.tokensAt a.placeId⟩ : ArcTokens)) = arcs
  constructor
  · rintro ⟨hcomplete, hsound⟩ hmissed
    cases hmissed with
    | unguarded hnil hguard =>
      obtain ⟨indices, hbinds⟩ := hsound .empty (by rw [searchBinding_eq_visited, hnil]; rfl)
      have hholds := hbinds.guard
      rw [show TokenBinding.empty.portInputs = ∅ from rfl, hguard] at hholds
      cases hholds
    | short hshort hbinds =>
      have hsome := hcomplete ⟨_, _, hbinds⟩
      rw [searchBinding_eq_visited, if_pos hshort] at hsome
      cases hsome
    | firsts hunchecked hfirsts hbinds =>
      have hsome := hcomplete ⟨_, _, hbinds⟩
      rw [searchBinding_eq_none_of_firsts hunchecked hfirsts] at hsome
      cases hsome
    | pruned hpruned hbinds =>
      have hsome := hcomplete ⟨_, _, hbinds⟩
      rw [searchBinding_eq_none_of_pruned hpruned hbinds] at hsome
      cases hsome
  · intro hmissed
    constructor
    · rintro ⟨indices, b, hbinds⟩
      exact searchBinding_isSome hmissed hbinds
    · intro b hb
      exact binds_of_searchBinding hmissed hb

/-! ## First tokens that do not bind together -/

def mergeTransition : Transition := { Transition.new "merge" "" with inputPorts := [.new "a", .new "b"] }

def mergeArcs : List Arc := [.input ⟨0⟩ ⟨"left"⟩ ⟨"merge"⟩ "a", .input ⟨1⟩ ⟨"right"⟩ ⟨"merge"⟩ "b"]

/-- A token whose replies go to a place of the caller. -/
def routedToken (id : Nat) (place : String) : Token :=
  { Token.new ⟨id⟩ ⟨0⟩ .unit with replyRouting := some ⟨some ⟨"caller", place⟩, none⟩ }

/-- The first tokens of the two places reply to different places, the second one on the right replies to none. -/
def mergeMarking : Marking :=
  ((Marking.new.addToken ⟨"left"⟩ (routedToken 0 "x")).addToken ⟨"right"⟩ (routedToken 1 "y")).addToken ⟨"right"⟩
    (.new ⟨2⟩ ⟨0⟩ .unit)

/-- The first token on the left binds with the second one on the right, and no binding is found. -/
theorem first_tokens_block : ¬ ((∃ indices b, Binds keyExecutor mergeTransition none
          (mergeArcs.map fun a => ⟨a, mergeMarking.tokensAt a.placeId⟩) indices b) →
        (findValidBinding keyExecutor mergeTransition none mergeArcs mergeMarking).isSome) := by
  have hnone : findValidBinding keyExecutor mergeTransition none mergeArcs mergeMarking = none := by decide
  have hbuilt : (buildBindingForIndices mergeTransition none
      (mergeArcs.map fun a => ⟨a, mergeMarking.tokensAt a.placeId⟩) [0, 1]).isSome := by decide
  obtain ⟨b, hb⟩ := Option.isSome_iff_exists.mp hbuilt
  intro h
  have hsome := h ⟨[0, 1], b, rfl, hb, rfl⟩
  rw [hnone] at hsome
  cases hsome

end BindingSearch

end Mekhan

import Mekhan.Compiler.BorrowCheck

/-!
# Acceptance of a reference and the order of the nodes

A reference is accepted by the positions of two nodes in one topological order. Of two nodes on different
branches the order says nothing about the graph: which one comes first depends on how the sort visits the
lists.
-/

namespace Mekhan

namespace BorrowOrder

open Infra Borrow Relation

def Accepts (g : WorkflowGraph) (order : List String) (rule : UpstreamRule) (p c : String) : Prop :=
  checkBorrowableProducer g (topoPos order) p c rule = some (.ok ())

/-- A directed path in the graph that is sorted. -/
def Reach (g : WorkflowGraph) (a b : String) : Prop := TransGen (DagEdge g) a b

/-- The same nodes and edges, in other lists. The nodes have different ids: the document keeps them in a map. -/
structure Reordered (g g' : WorkflowGraph) : Prop where
  ids_nodup : (g.nodes.map (·.id)).Nodup
  nodes : g'.nodes.Perm g.nodes
  edges : g'.edges.Perm g.edges

/-- Acceptance does not depend on the lists, and follows the paths. -/
structure DependsOnlyOnGraph (g : WorkflowGraph) : Prop where
  same : ∀ g₁ g₂, Reordered g g₁ → Reordered g g₂ → ∀ o₁ o₂, IsOrder g₁ o₁ → IsOrder g₂ o₂ →
    ∀ rule p c, Accepts g₁ o₁ rule p c ↔ Accepts g₂ o₂ rule p c
  path : ∀ order, IsOrder g order → ∀ p c, Accepts g order .strictTopo p c →
    isParkedProducer g p = true ∧ Reach g p c

/-- A node that parks data has a path to or from each other node. -/
def Comparable (g : WorkflowGraph) : Prop :=
  ∀ p ∈ g.ids, isParkedProducer g p = true → ∀ c ∈ g.ids, p ≠ c → Reach g p c ∨ Reach g c p

/-! ## The lists do not matter -/

variable {g g' : WorkflowGraph} {order : List String} {a p c : String}

theorem find?_perm {l l' : List WorkflowNode} (hperm : l'.Perm l) (hnodup : (l.map (·.id)).Nodup) (id : String) :
    l'.find? (·.id = id) = l.find? (·.id = id) := by
  have hnodup' : (l'.map (·.id)).Nodup := (hperm.map _).nodup_iff.mpr hnodup
  have hmem : ∀ n, n ∈ l'.find? (·.id = id) ↔ n ∈ l.find? (·.id = id) := by
    have key : ∀ {l : List WorkflowNode}, (l.map (·.id)).Nodup → ∀ n,
        l.find? (·.id = id) = some n ↔ n ∈ l ∧ n.id = id := by
      intro l hl n
      constructor
      · exact fun h => ⟨List.mem_of_find?_eq_some h, by simpa using List.find?_some h⟩
      · rintro ⟨hn, rfl⟩
        cases hfind : l.find? (·.id = n.id) with
        | none => exact absurd (List.find?_eq_none.mp hfind n hn) (by simp)
        | some m =>
          have hm : m.id = n.id := by simpa using List.find?_some hfind
          rw [List.inj_on_of_nodup_map hl (List.mem_of_find?_eq_some hfind) hn hm]
    intro n
    rw [Option.mem_def, Option.mem_def, key hnodup', key hnodup, hperm.mem_iff]
  exact Option.ext hmem

theorem Reordered.find? (h : Reordered g g') (id : String) : g'.find? id = g.find? id :=
  find?_perm h.nodes h.ids_nodup id

theorem Reordered.parentOf (h : Reordered g g') (id : String) : g'.parentOf id = g.parentOf id := by
  rw [WorkflowGraph.parentOf, h.find?, WorkflowGraph.parentOf]

theorem Reordered.any (h : Reordered g g') (f : WorkflowNode → Bool) : g'.nodes.any f = g.nodes.any f := by
  rw [Bool.eq_iff_iff, List.any_eq_true, List.any_eq_true]
  simp only [h.nodes.mem_iff]

theorem Reordered.mem_ids (h : Reordered g g') (id : String) : id ∈ g'.ids ↔ id ∈ g.ids :=
  (h.nodes.map _).mem_iff

theorem Reordered.dagEdge (h : Reordered g g') : DagEdge g' = DagEdge g := by
  funext a b
  simp only [DagEdge, h.edges.mem_iff]

theorem Reordered.isOrder (h : Reordered g g') : IsOrder g' order ↔ IsOrder g order := by
  have hbuilds : Builds g' ↔ Builds g := by
    simp only [Builds, h.nodes.mem_iff, h.edges.mem_iff, h.mem_ids]
  have horder : IsTopoOrder (DagEdge g') g'.ids order ↔ IsTopoOrder (DagEdge g) g.ids order := by
    rw [h.dagEdge]
    constructor
    · exact fun ho => ⟨ho.perm.trans (h.nodes.map _), ho.forward⟩
    · exact fun ho => ⟨ho.perm.trans (h.nodes.map _).symm, ho.forward⟩
  exact and_congr hbuilds horder

theorem Reordered.enclosingLeaseScopesFrom (h : Reordered g g') (fuel : Nat) (cur : Option String) :
    enclosingLeaseScopesFrom g' fuel cur = enclosingLeaseScopesFrom g fuel cur := by
  induction fuel generalizing cur with
  | zero => cases cur <;> rfl
  | succ fuel ih =>
    cases cur with
    | none => rfl
    | some pid => simp only [Borrow.enclosingLeaseScopesFrom, h.find?, ih]

theorem Reordered.isWithinFrom (h : Reordered g g') (ancestorId : String) (fuel : Nat) (cur : Option String) :
    isWithinFrom g' ancestorId fuel cur = isWithinFrom g ancestorId fuel cur := by
  induction fuel generalizing cur with
  | zero => cases cur <;> rfl
  | succ fuel ih =>
    cases cur with
    | none => rfl
    | some pid => simp only [Borrow.isWithinFrom, h.parentOf, ih]

theorem Reordered.isWithin (h : Reordered g g') (nodeId ancestorId : String) :
    isWithin g' nodeId ancestorId = isWithin g nodeId ancestorId := by
  rw [Borrow.isWithin, h.isWithinFrom, h.parentOf, h.nodes.length_eq, Borrow.isWithin]

theorem Reordered.recovered (h : Reordered g g') (pos : String → Option Nat) (consumer : String)
    (scopes : List String) : recovered g' pos consumer scopes = recovered g pos consumer scopes := by
  induction scopes with
  | nil => rfl
  | cons scopeId rest ih => simp only [Borrow.recovered, h.isWithin, ih]

theorem Reordered.check (h : Reordered g g') (pos : String → Option Nat) (p c : String) (rule : UpstreamRule) :
    checkBorrowableProducer g' pos p c rule = checkBorrowableProducer g pos p c rule := by
  have hscopes : enclosingLeaseScopes g' p = enclosingLeaseScopes g p := by
    rw [enclosingLeaseScopes, h.enclosingLeaseScopesFrom, h.parentOf, h.nodes.length_eq, enclosingLeaseScopes]
  have hrecovered : Borrow.recovered g' pos = Borrow.recovered g pos :=
    funext fun consumer => funext (h.recovered pos consumer)
  have hupstream : upstream g' pos p c rule = upstream g pos p c rule := by
    cases rule with
    | strictTopo => rfl
    | guardReachability =>
      simp only [upstream, isLoopNode, h.any, h.parentOf, h.find?, producerUpstreamOf, hscopes, hrecovered]
      rfl
  unfold checkBorrowableProducer
  rw [hupstream, isParkedProducer, h.any, ← isParkedProducer]

/-! ## Positions and paths -/

theorem mem_ids_of_parked (h : isParkedProducer g p = true) : p ∈ g.ids := by
  obtain ⟨n, hn, hp⟩ := List.any_eq_true.mp h
  rw [Bool.and_eq_true, decide_eq_true_eq] at hp
  exact hp.1 ▸ List.mem_map_of_mem hn

theorem dagEdge_mem (hbuilds : Builds g) {b : String} (h : DagEdge g a b) : a ∈ g.ids ∧ b ∈ g.ids := by
  obtain ⟨e, he, -, rfl, rfl⟩ := h
  exact hbuilds.2 e he

theorem reach_mem (hbuilds : Builds g) (h : Reach g p c) : p ∈ g.ids ∧ c ∈ g.ids := by
  constructor
  · obtain ⟨b, hb, -⟩ := TransGen.head'_iff.mp h
    exact (dagEdge_mem hbuilds hb).1
  · obtain ⟨b, -, hb⟩ := TransGen.tail'_iff.mp h
    exact (dagEdge_mem hbuilds hb).2

theorem sortsBefore_iff (ho : IsOrder g order) (hp : p ∈ g.ids) :
    sortsBefore (topoPos order) p c = true ↔ c ∈ g.ids ∧ order.idxOf p < order.idxOf c := by
  have hmem : ∀ id, id ∈ order ↔ id ∈ g.ids := fun id => ho.2.perm.mem_iff
  unfold sortsBefore topoPos
  rw [if_pos ((hmem p).mpr hp)]
  by_cases hc : c ∈ order
  · rw [if_pos hc]
    simp [(hmem c).mp hc]
  · have hno : c ∉ g.ids := fun h => hc ((hmem c).mpr h)
    rw [if_neg hc]
    simp [hno]

theorem sortsBefore_iff_reach (hcomparable : Comparable g) (ho : IsOrder g order)
    (hparked : isParkedProducer g p = true) : sortsBefore (topoPos order) p c = true ↔ Reach g p c := by
  have hp := mem_ids_of_parked hparked
  rw [sortsBefore_iff ho hp]
  constructor
  · rintro ⟨hc, hlt⟩
    have hne : p ≠ c := by
      rintro rfl
      exact Nat.lt_irrefl _ hlt
    exact (ho.2.idxOf_lt_iff_reach (hcomparable p hp hparked c hc hne)).mp hlt
  · exact fun h => ⟨(reach_mem ho.1 h).2, ho.2.idxOf_lt_of_reach h⟩

/-! ## Two orders of a comparable graph -/

variable {scopes : List String}

theorem parked_of_enclosing {fuel : Nat} {cur : Option String}
    (h : enclosingLeaseScopesFrom g fuel cur = some scopes) : ∀ s ∈ scopes, isParkedProducer g s = true := by
  induction fuel generalizing cur scopes with
  | zero =>
    cases cur with
    | none =>
      cases h
      exact fun s hs => by cases hs
    | some pid => cases h
  | succ fuel ih =>
    cases cur with
    | none =>
      cases h
      exact fun s hs => by cases hs
    | some pid =>
      unfold enclosingLeaseScopesFrom at h
      split at h
      case h_1 =>
        cases h
        exact fun s hs => by cases hs
      case h_2 n hfind =>
        obtain ⟨outer, houter, h⟩ := Option.bind_eq_some_iff.mp h
        cases h
        split
        · rename_i hlease
          intro s hs
          rcases List.mem_cons.mp hs with rfl | hs
          · refine List.any_eq_true.mpr ⟨n, List.mem_of_find?_eq_some hfind, ?_⟩
            have hid : n.id = s := by simpa using List.find?_some hfind
            rw [hid, hlease]
            simp [NodeKind.parks]
          · exact ih houter s hs
        · exact ih houter

theorem recovered_congr {pos pos' : String → Option Nat}
    (h : ∀ s ∈ scopes, sortsBefore pos s c = sortsBefore pos' s c) :
    recovered g pos c scopes = recovered g pos' c scopes := by
  induction scopes with
  | nil => rfl
  | cons scopeId rest ih =>
    have hrest := ih fun s hs => h s (List.mem_cons_of_mem _ hs)
    simp only [recovered, h scopeId List.mem_cons_self, hrest]

theorem producerUpstreamOf_congr {pos pos' : String → Option Nat}
    (h : ∀ q, isParkedProducer g q = true → sortsBefore pos q c = sortsBefore pos' q c)
    (hparked : isParkedProducer g p = true) :
    producerUpstreamOf g pos p c = producerUpstreamOf g pos' p c := by
  unfold producerUpstreamOf
  rw [h p hparked]
  congr 1
  cases hscopes : enclosingLeaseScopes g p with
  | none => rfl
  | some scopes => exact recovered_congr fun s hs => h s (parked_of_enclosing hscopes s hs)

theorem check_congr {pos pos' : String → Option Nat}
    (h : ∀ q, isParkedProducer g q = true → ∀ c, sortsBefore pos q c = sortsBefore pos' q c)
    (hparked : isParkedProducer g p = true) (rule : UpstreamRule) :
    checkBorrowableProducer g pos p c rule = checkBorrowableProducer g pos' p c rule := by
  have hupstream : upstream g pos p c rule = upstream g pos' p c rule := by
    cases rule with
    | strictTopo => exact congrArg some (h p hparked c)
    | guardReachability =>
      unfold upstream
      dsimp only
      congr 1
      split
      · exact producerUpstreamOf_congr (fun q hq => h q hq _) hparked
      · rfl
  unfold checkBorrowableProducer
  rw [hupstream]

theorem Accepts.parked {rule : UpstreamRule} (h : Accepts g order rule p c) : isParkedProducer g p = true := by
  unfold Accepts checkBorrowableProducer at h
  split at h
  · cases Option.some.inj h
  · obtain ⟨up, -, h⟩ := Option.map_eq_some_iff.mp h
    by_contra hnot
    rw [Bool.not_eq_true] at hnot
    cases up <;> simp [hnot] at h

theorem accepts_strict_iff : Accepts g order .strictTopo p c ↔
    p ≠ c ∧ sortsBefore (topoPos order) p c = true ∧ isParkedProducer g p = true := by
  unfold Accepts checkBorrowableProducer upstream
  by_cases hne : p = c
  · simp [hne]
  · cases sortsBefore (topoPos order) p c <;> cases isParkedProducer g p <;> simp [hne]

theorem Comparable.same (hcomparable : Comparable g) {o₁ o₂ : List String} (h₁ : IsOrder g o₁) (h₂ : IsOrder g o₂)
    (rule : UpstreamRule) (h : Accepts g o₁ rule p c) : Accepts g o₂ rule p c := by
  have hpos : ∀ q, isParkedProducer g q = true → ∀ c,
      sortsBefore (topoPos o₁) q c = sortsBefore (topoPos o₂) q c := by
    intro q hq c
    rw [Bool.eq_iff_iff, sortsBefore_iff_reach hcomparable h₁ hq, sortsBefore_iff_reach hcomparable h₂ hq]
  exact (check_congr hpos h.parked rule).symm.trans h

/-- **Acceptance depends only on the graph exactly where the graph is not sorted, or each node that parks
data has a path to or from every other node.** -/
theorem depends_only_on_graph_iff (g : WorkflowGraph) :
    DependsOnlyOnGraph g ↔ ((∃ order, IsOrder g order) → Comparable g) := by
  constructor
  · rintro hdepends ⟨order, ho⟩ p hp hparked c hc hne
    by_contra hnot
    rw [not_or] at hnot
    -- without a path back, some order has the producer first
    obtain ⟨order', ho', hlt⟩ := exists_order_before ho.2.acyclic
      (fun a b hab => dagEdge_mem ho.1 hab) hp hc hne hnot.2
    have haccepts : Accepts g order' .strictTopo p c :=
      accepts_strict_iff.mpr ⟨hne, (sortsBefore_iff ⟨ho.1, ho'⟩ hp).mpr ⟨hc, hlt⟩, hparked⟩
    exact hnot.1 (hdepends.path order' ⟨ho.1, ho'⟩ p c haccepts).2
  · intro hcomparable
    constructor
    · intro g₁ g₂ h₁ h₂ o₁ o₂ ho₁ ho₂ rule p c
      rw [h₁.isOrder] at ho₁
      rw [h₂.isOrder] at ho₂
      unfold Accepts
      rw [h₁.check, h₂.check]
      have hcomp := hcomparable ⟨o₁, ho₁⟩
      exact ⟨hcomp.same ho₁ ho₂ rule, hcomp.same ho₂ ho₁ rule⟩
    · intro order ho p c haccepts
      obtain ⟨-, hbefore, hparked⟩ := accepts_strict_iff.mp haccepts
      exact ⟨hparked, (sortsBefore_iff_reach (hcomparable ⟨order, ho⟩) ho hparked).mp hbefore⟩

/-! ## Two branches -/

/-- A start, two steps on branches of their own, and an end. -/
def branches : WorkflowGraph where
  nodes := [⟨"start", .start, none⟩, ⟨"a", .automatedStep, none⟩, ⟨"b", .automatedStep, none⟩, ⟨"end", .end, none⟩]
  edges := [⟨"start", "a", none, "sequence"⟩, ⟨"start", "b", none, "sequence"⟩, ⟨"a", "end", none, "sequence"⟩,
    ⟨"b", "end", none, "sequence"⟩]

theorem isOrder_branches {order : List String} (hperm : order.Perm branches.ids)
    (hforward : ∀ e ∈ branches.edges, order.idxOf e.source < order.idxOf e.target) : IsOrder branches order := by
  refine ⟨⟨⟨_, List.mem_cons_self .., rfl⟩, by decide⟩, hperm, ?_⟩
  rintro a b ⟨e, he, -, rfl, rfl⟩
  exact hforward e he

theorem isOrder_branches_ab : IsOrder branches ["start", "a", "b", "end"] :=
  isOrder_branches (.refl _) (by decide)

theorem isOrder_branches_ba : IsOrder branches ["start", "b", "a", "end"] :=
  isOrder_branches (by decide) (by decide)

/-- Whatever order the sort returns, a step may borrow from the one on the other branch, and which one
depends on the order. -/
theorem branches_accepted_by_order :
    (¬ ∃ order, IsOrder branches order ∧ ∀ p c, Accepts branches order .strictTopo p c → Reach branches p c) ∧
      ∃ o₁ o₂, IsOrder branches o₁ ∧ IsOrder branches o₂ ∧ Accepts branches o₁ .strictTopo "a" "b" ∧
        ¬ Accepts branches o₂ .strictTopo "a" "b" := by
  constructor
  · rintro ⟨order, ho, hpaths⟩
    have hmem : "a" ∈ order := ho.2.perm.mem_iff.mpr (by decide)
    rcases Nat.lt_trichotomy (order.idxOf "a") (order.idxOf "b") with hlt | heq | hlt
    · have haccepts : Accepts branches order .strictTopo "a" "b" :=
        accepts_strict_iff.mpr ⟨by decide, (sortsBefore_iff ho (by decide)).mpr ⟨by decide, hlt⟩, by decide⟩
      exact absurd (isOrder_branches_ba.2.idxOf_lt_of_reach (hpaths _ _ haccepts)) (by decide)
    · exact absurd ((List.idxOf_inj hmem).mp heq) (by decide)
    · have haccepts : Accepts branches order .strictTopo "b" "a" :=
        accepts_strict_iff.mpr ⟨by decide, (sortsBefore_iff ho (by decide)).mpr ⟨by decide, hlt⟩, by decide⟩
      exact absurd (isOrder_branches_ab.2.idxOf_lt_of_reach (hpaths _ _ haccepts)) (by decide)
  · refine ⟨_, _, isOrder_branches_ab, isOrder_branches_ba, ?_, ?_⟩
    · exact accepts_strict_iff.mpr ⟨by decide, by decide, by decide⟩
    · rw [accepts_strict_iff]
      decide

end BorrowOrder

end Mekhan

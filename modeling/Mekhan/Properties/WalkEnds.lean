import Mekhan.Compiler.BorrowCheck
import Mathlib.Data.Set.Finite.List
import Mathlib.Order.WellFoundedSet

/-!
# Where the containment walks end

Nothing looks for a cycle of parents before the walks up the `parent_id` chain: `validate` does not, and none of the
loops keeps what it has seen. A walk that returns `none` for every fuel does not end. `enclosing_map` of
`validate.rs`, which rejects a map in a map, is not among them: it gives up after as many steps as there are nodes.
-/

namespace Mekhan

namespace Borrow

open Relation

/-- The loop of `enclosing_loop` (`service/src/compiler/validate.rs`) and `enclosing_leased_scope_slug`
(`lower/automated_step.rs`): up to the first ancestor of the kind, or a parent that is missing. -/
def climbTo (g : WorkflowGraph) (kind : NodeKind) : Nat → Option String → Option (Option WorkflowNode)
  | _, none => some none
  | 0, some _ => none
  | fuel + 1, some pid =>
    match g.find? pid with
    | none => some none
    | some parent => if parent.data = kind then some (some parent) else climbTo g kind fuel parent.parentId

def enclosingLoop (g : WorkflowGraph) (node : WorkflowNode) (fuel : Nat) : Option (Option WorkflowNode) :=
  climbTo g .loop fuel node.parentId

/-- The scope whose slug `enclosing_leased_scope_slug` returns. -/
def enclosingLeasedScope (g : WorkflowGraph) (node : WorkflowNode) (fuel : Nat) : Option (Option WorkflowNode) :=
  climbTo g .leaseScope fuel node.parentId

/-- The second is the parent of the first. -/
def WorkflowGraph.Parent (g : WorkflowGraph) (child parent : String) : Prop := g.parentOf child = some parent

variable {g : WorkflowGraph} {id : String}

theorem mem_ids_of_parent {parent : String} (h : g.Parent id parent) : id ∈ g.ids := by
  obtain ⟨node, hnode, -⟩ := Option.bind_eq_some_iff.mp h
  exact List.mem_map.mpr ⟨node, List.mem_of_find?_eq_some hnode, by simpa using List.find?_some hnode⟩

/-- Every node has a chain of parents that ends. -/
def WorkflowGraph.Founded (g : WorkflowGraph) : Prop := ∀ id, Acc (fun parent child => g.Parent child parent) id

/-- **Chains of parents end exactly where no node is its own ancestor.** -/
theorem founded_iff_acyclic : g.Founded ↔ ∀ id, ¬ TransGen g.Parent id id := by
  constructor
  · intro h id hcycle
    have hwf : WellFounded (TransGen fun parent child => g.Parent child parent) := WellFounded.transGen ⟨h⟩
    exact hwf.irrefl.irrefl id (transGen_swap.mpr hcycle)
  · intro h
    have hstrict : IsStrictOrder String (TransGen fun parent child => g.Parent child parent) :=
      { irrefl := fun id hcycle => h id (transGen_swap.mp hcycle), trans := fun _ _ _ => TransGen.trans }
    have hwf := Set.wellFoundedOn_iff.mp (g.ids.finite_toSet.wellFoundedOn (r := TransGen fun parent child =>
      g.Parent child parent))
    refine fun id => hwf.induction id fun child ih => Acc.intro child fun parent hparent => ?_
    by_cases hmem : parent ∈ g.ids
    · exact ih parent ⟨.single hparent, hmem, mem_ids_of_parent hparent⟩
    · exact Acc.intro parent fun _ hgrand => absurd (mem_ids_of_parent hgrand) hmem

/-! ## The walks -/

/-- A walk that ends at no parent, and at a node once it ends at its parent, ends on chains that end. -/
theorem ends_of_founded {α : Type} {walk : Nat → Option String → Option α} (hnone : walk 0 none ≠ none)
    (hstep : ∀ pid fuel, walk fuel (g.parentOf pid) ≠ none → walk (fuel + 1) (some pid) ≠ none) (h : g.Founded) :
    ∀ cur, ∃ fuel, walk fuel cur ≠ none
  | none => ⟨0, hnone⟩
  | some pid => (h pid).rec fun pid _ ih => by
    cases hparent : g.parentOf pid with
    | none => exact ⟨1, hstep pid 0 (hparent ▸ hnone)⟩
    | some next =>
      obtain ⟨fuel, hfuel⟩ := ih next hparent
      exact ⟨fuel + 1, hstep pid fuel (hparent ▸ hfuel)⟩

theorem parentOf_of_find? {p : WorkflowNode} (h : g.find? id = some p) : g.parentOf id = p.parentId := by
  rw [WorkflowGraph.parentOf, h]
  rfl

theorem climbTo_ends (h : g.Founded) (kind : NodeKind) (cur : Option String) :
    ∃ fuel, climbTo g kind fuel cur ≠ none := by
  refine ends_of_founded (g := g) (by simp [climbTo]) (fun pid fuel hfuel => ?_) h cur
  rw [climbTo]
  split
  · simp
  · next parent hfind =>
    split
    · simp
    · rwa [parentOf_of_find? hfind] at hfuel

theorem isWithinFrom_ends (h : g.Founded) (ancestorId : String) (cur : Option String) :
    ∃ fuel, isWithinFrom g ancestorId fuel cur ≠ none := by
  refine ends_of_founded (g := g) (by simp [isWithinFrom]) (fun pid fuel hfuel => ?_) h cur
  rw [isWithinFrom]
  split
  · simp
  · exact hfuel

theorem enclosingLeaseScopesFrom_ends (h : g.Founded) (cur : Option String) :
    ∃ fuel, enclosingLeaseScopesFrom g fuel cur ≠ none := by
  refine ends_of_founded (g := g) (by simp [enclosingLeaseScopesFrom]) (fun pid fuel hfuel => ?_) h cur
  rw [enclosingLeaseScopesFrom]
  split
  · simp
  · next parent hfind =>
    rw [parentOf_of_find? hfind] at hfuel
    obtain ⟨outer, houter⟩ := Option.ne_none_iff_exists'.mp hfuel
    simp [houter]

/-- The walk that collects scopes stops nowhere else, so the chain it ends on ends. -/
theorem acc_of_enclosingLeaseScopesFrom : ∀ {fuel : Nat} {pid : String},
    enclosingLeaseScopesFrom g fuel (some pid) ≠ none → Acc (fun parent child => g.Parent child parent) pid
  | 0, _, h => absurd rfl h
  | fuel + 1, pid, h => by
    refine Acc.intro pid fun parent hparent => @acc_of_enclosingLeaseScopesFrom fuel _ fun hnone => h ?_
    obtain ⟨p, hfind, hp⟩ := Option.bind_eq_some_iff.mp hparent
    rw [enclosingLeaseScopesFrom, hfind]
    simp [hp, hnone]

/-- Each of the walks, started at any node, ends. -/
structure WalksEnd (g : WorkflowGraph) : Prop where
  loop : ∀ node ∈ g.nodes, ∃ fuel, enclosingLoop g node fuel ≠ none
  leasedScope : ∀ node ∈ g.nodes, ∃ fuel, enclosingLeasedScope g node fuel ≠ none
  leaseScopes : ∀ nodeId, ∃ fuel, enclosingLeaseScopesFrom g fuel (g.parentOf nodeId) ≠ none
  within : ∀ nodeId ancestorId, nodeId ≠ ancestorId → ∃ fuel, isWithinFrom g ancestorId fuel (g.parentOf nodeId) ≠ none

theorem WalksEnd.founded (h : WalksEnd g) : g.Founded := by
  refine fun id => Acc.intro id fun parent hparent => ?_
  obtain ⟨fuel, hfuel⟩ := h.leaseScopes id
  rw [show g.parentOf id = some parent from hparent] at hfuel
  exact acc_of_enclosingLeaseScopesFrom hfuel

/-- **The containment walks end** exactly on the graphs in which no node is its own ancestor. -/
theorem walksEnd_iff_acyclic (g : WorkflowGraph) : WalksEnd g ↔ ∀ id, ¬ TransGen g.Parent id id := by
  rw [← founded_iff_acyclic]
  constructor
  · exact WalksEnd.founded
  · exact fun h => ⟨fun node _ => climbTo_ends h .loop node.parentId,
      fun node _ => climbTo_ends h .leaseScope node.parentId, fun nodeId => enclosingLeaseScopesFrom_ends h _,
      fun nodeId ancestorId _ => isWithinFrom_ends h ancestorId _⟩

/-- Two scopes that were dragged into each other at the same time. -/
def mutualScopes : WorkflowGraph where
  nodes := [⟨"start", .start, none⟩, ⟨"a", .scope, some "b"⟩, ⟨"b", .scope, some "a"⟩, ⟨"end", .end, none⟩]
  edges := [⟨"start", "end", none, "sequence"⟩]

/-- **Two scopes inside each other keep every walk to the root going.** -/
theorem mutualScopes_hang : ¬ ∀ g, WalksEnd g := fun h =>
  founded_iff_acyclic.mp (h mutualScopes).founded "a" (.tail (.single (b := "b") rfl) rfl)

end Borrow

end Mekhan

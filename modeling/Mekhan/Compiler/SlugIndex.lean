import Mekhan.Catalogue.QueryDsl
import Mekhan.Compiler.BorrowCheck

/-!
# The slug index

`WorkflowNode::slug` and `sanitize_slug` of `service/src/models/template/graph.rs` and `slug_index` of
`service/src/compiler/token_shape/analyze.rs`. The loop that looks for a free suffix takes fuel; `outOfFuel` is no
error of the code.
-/

namespace Mekhan

namespace Slugs

/-- `slug?` is the field, `slug` the function. -/
structure WorkflowNode where
  id : String
  slug? : Option String
  data : Borrow.NodeKind
  deriving DecidableEq

/-- A graph whose nodes have ids of their own. -/
structure WorkflowGraph where
  nodes : List WorkflowNode
  ids_nodup : (nodes.map (·.id)).Nodup

/-- Lower case; what is no letter or digit becomes one underscore. -/
def sanitizeChars : Bool → List Char → List Char
  | _, [] => []
  | prevUs, c :: cs =>
    let c := c.toLower
    if c.isAlphanum || c = '_' then c :: sanitizeChars (c = '_') cs
    else if prevUs then sanitizeChars true cs
    else '_' :: sanitizeChars true cs

def trimUnderscores (s : List Char) : List Char := ((s.dropWhile (· = '_')).reverse.dropWhile (· = '_')).reverse

/-- A name that does not start with a letter gets a prefix. -/
def sanitizeSlug (raw : String) : String :=
  match trimUnderscores (sanitizeChars false (Infra.trim raw.toList)) with
  | [] => "node"
  | c :: cs => if c.isAlpha then String.ofList (c :: cs) else "n_" ++ String.ofList (c :: cs)

namespace WorkflowNode

/-- Whether the author gave the node a slug. -/
def explicit (n : WorkflowNode) : Bool := n.slug?.any fun s => !(Infra.trim s.toList).isEmpty

/-- Also what the shapes of loops, maps and lease scopes, `lower_loop` and `enclosing_leased_scope_slug` write. -/
def slug (n : WorkflowNode) : String := sanitizeSlug (if n.explicit then n.slug?.getD "" else n.id)

/-- The kinds whose slug is written out as a namespace. -/
def embedsSlug (n : WorkflowNode) : Prop := n.data = .loop ∨ n.data = .leaseScope ∨ n.data = .map

end WorkflowNode

/-- Which node a slug names, and the slug of each node. -/
structure SlugIndex where
  bySlug : String → Option String
  byNode : String → Option String

namespace SlugIndex

def empty : SlugIndex := ⟨fun _ => none, fun _ => none⟩

def nodeFor (index : SlugIndex) (slug : String) : Option String := index.bySlug slug

def slugFor (index : SlugIndex) (nodeId : String) : Option String := index.byNode nodeId

def insert (index : SlugIndex) (s id : String) : SlugIndex :=
  ⟨Function.update index.bySlug s (some id), Function.update index.byNode id (some s)⟩

end SlugIndex

/-- Two nodes may not claim one slug. -/
inductive CompileError where
  | slugConflict (slug nodeA nodeB : String)
  | outOfFuel

/-- The node claims its slug as it is. -/
def claim (index : SlugIndex) (n : WorkflowNode) : Except CompileError SlugIndex :=
  match index.bySlug n.slug with
  | some other =>
    if other = n.id then .ok (index.insert n.slug n.id) else .error (.slugConflict n.slug other n.id)
  | none => .ok (index.insert n.slug n.id)

def WorkflowGraph.isLoop (g : WorkflowGraph) (id : String) : Bool := g.nodes.any fun m => m.id = id && m.data = .loop

/-- The first of the slug `s` and the suffixed ones from `k` on that nobody holds. -/
def freeSlug (g : WorkflowGraph) (index : SlugIndex) (n : WorkflowNode) :
    Nat → String → Nat → Except CompileError String
  | 0, _, _ => .error .outOfFuel
  | fuel + 1, s, k =>
    match index.bySlug s with
    | none => .ok s
    | some holder =>
      if g.isLoop holder then .error (.slugConflict s holder n.id)
      else freeSlug g index n fuel (n.slug ++ "_" ++ toString k) (k + 1)

/-- The first pass: slugs that authors gave. -/
def addExplicit (index : SlugIndex) (n : WorkflowNode) : Except CompileError SlugIndex :=
  if n.explicit then claim index n else .ok index

/-- The second pass: a loop claims its label, other nodes move on to a free one. -/
def addDerived (g : WorkflowGraph) (index : SlugIndex) (n : WorkflowNode) : Except CompileError SlugIndex :=
  if (index.byNode n.id).isSome then .ok index
  else if n.data = .loop then claim index n
  else (freeSlug g index n (g.nodes.length + 1) n.slug 2).map fun s => index.insert s n.id

/-- The index once the derived slugs of some nodes are in it. -/
def slugIndexUpTo (g : WorkflowGraph) (derived : List WorkflowNode) : Except CompileError SlugIndex := do
  let index ← g.nodes.foldlM addExplicit .empty
  derived.foldlM (addDerived g) index

/-- Both passes over all nodes. -/
def slugIndex (g : WorkflowGraph) : Except CompileError SlugIndex := slugIndexUpTo g g.nodes

end Slugs

end Mekhan

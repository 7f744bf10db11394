import Mekhan.Application.Executor
import Mekhan.Application.JoinIndex
import Mekhan.Domain.Marking

/-!
# Finding a binding

`application/src/binding.rs`: which tokens a transition would bind at a marking. The search is over
one token index per input arc, in lexicographic order, pruned by the equalities of the guard where
the arcs are indexable; a candidate is built into a binding (`buildBindingForIndices`) and kept when
its guard holds.
-/

namespace Mekhan

open Infra

/-- A binding of tokens to the input ports of a transition. -/
structure TokenBinding where
  portInputs : HashMap String Json
  consumedTokens : List (PlaceId × TokenId)
  readTokens : List (PlaceId × Token)
  maxCreatedAt : Option DateTime
  consumedReplyRouting : Option ReplyRouting
  readPortNames : List String

/-- An input arc with the tokens of its place. -/
structure ArcTokens where
  arc : Arc
  tokens : List Token

namespace TokenBinding

def empty : TokenBinding where
  portInputs := ∅
  consumedTokens := []
  readTokens := []
  maxCreatedAt := none
  consumedReplyRouting := none
  readPortNames := []

/-- The later of the enabling time so far and a token's creation. -/
def laterOf (maxCreatedAt : Option DateTime) (t : Token) : Option DateTime :=
  match maxCreatedAt with
  | none => some t.createdAt
  | some m => some (if m.nanos < t.createdAt.nanos then t.createdAt else m)

def consume (b : TokenBinding) (arc : Arc) (ts : List Token) : TokenBinding :=
  { b with
    consumedTokens := b.consumedTokens ++ ts.map fun t => (arc.placeId, t.id)
    maxCreatedAt := ts.foldl laterOf b.maxCreatedAt }

def borrow (b : TokenBinding) (arc : Arc) (ts : List Token) : TokenBinding :=
  { b with
    readTokens := b.readTokens ++ ts.map fun t => (arc.placeId, t)
    readPortNames := b.readPortNames ++ [arc.portName]
    maxCreatedAt := ts.foldl laterOf b.maxCreatedAt }

def take (b : TokenBinding) (arc : Arc) (ts : List Token) : TokenBinding :=
  if arc.read then b.borrow arc ts else b.consume arc ts

def setPort (b : TokenBinding) (port : String) (data : Json) : TokenBinding :=
  { b with portInputs := b.portInputs.insert port data }

end TokenBinding

/-! ## Reply routing -/

/-- Merges the channels of `incoming` into `a`; `none` on a channel with two addresses. -/
def mergeChannels (a : HashMap String BridgeReplyAddress) :
    List (String × BridgeReplyAddress) → Option (HashMap String BridgeReplyAddress)
  | [] => some a
  | (key, addr) :: rest =>
    match a.lookup key with
    | some existing => if existing = addr then mergeChannels a rest else none
    | none => mergeChannels (a.insert key addr) rest

/-- `merge_reply_routing`: `none` on a conflict. -/
def mergeReplyRouting (existing incoming : ReplyRouting) : Option ReplyRouting := do
  let replyTo ← match existing.replyTo, incoming.replyTo with
    | some a, some b => if a = b then some (some a) else none
    | some a, none => some (some a)
    | none, other => some other
  let replyChannels ← match existing.replyChannels, incoming.replyChannels with
    | some a, some b => (mergeChannels a b.toPairs).map some
    | some a, none => some (some a)
    | none, some b => some (some b)
    | none, none => some none
  some ⟨replyTo, replyChannels⟩

/-- Merges the routing of consumed tokens into what was gathered so far. -/
def mergeRoutings (routing : Option ReplyRouting) : List Token → Option (Option ReplyRouting)
  | [] => some routing
  | t :: rest =>
    match t.replyRouting, routing with
    | none, _ => mergeRoutings routing rest
    | some incoming, none => mergeRoutings (some incoming) rest
    | some incoming, some existing =>
      match mergeReplyRouting existing incoming with
      | some merged => mergeRoutings (some merged) rest
      | none => none

/-! ## Binding one arc -/

section BindArc

variable (transition : Transition) (schemaRegistry : Option SchemaRegistry)

/-- The schema a port's data has to match, if schemas are checked at all. -/
def portSchema (port : Option Port) : Option (SchemaRegistry × String) :=
  match schemaRegistry, port.bind (·.schemaRef) with
  | some registry, some schemaRef => some (registry, schemaRef)
  | _, _ => none

/-- Whether every value matches the port's schema. -/
def matchesSchema (port : Option Port) (values : List Json) : Bool :=
  match portSchema schemaRegistry port with
  | some (registry, schemaRef) => values.all fun v => (registry.validate schemaRef v).isOk
  | none => true

def colorsOf (ts : List Token) : List Json := ts.map fun t => tokenColorToJson t.color

/-- A drain arc: up to `cap` tokens at once, at least one; routing is not merged. -/
def bindDrain (b : TokenBinding) (a : ArcTokens) (cap : Nat) : Option TokenBinding :=
  if a.tokens = [] then none
  else
    let selected := a.tokens.take (min a.tokens.length (max cap 1))
    if matchesSchema schemaRegistry (transition.inputPort a.arc.portName) (colorsOf selected) then
      some ((b.take a.arc selected).setPort a.arc.portName (.arr (colorsOf selected)))
    else none

/-- `split_once('.')`. -/
def splitOnceDot : List Char → Option (List Char × List Char)
  | [] => none
  | c :: rest =>
    if c = '.' then some ([], rest)
    else (splitOnceDot rest).map fun r => (c :: r.1, r.2)

/-- Whether a token carries the coordinator's value of the correlated field. -/
def correlates (field : String) (coordinator : Json) (t : Token) : Bool :=
  match (tokenColorToJson t.color).get? field, coordinator.get? field with
  | some v, some w => v.eqv w
  | none, none => true
  | _, _ => false

/-- The tokens of a gather arc that belong to the coordinator. -/
def eligibleTokens (a : ArcTokens) (coordinator : Json) : List Token :=
  match a.arc.correlateOn with
  | some field => a.tokens.filter (correlates field coordinator)
  | none => a.tokens

/-- A gather arc: exactly the count the bound coordinator names, of the tokens that correlate with
it; a count of `0` holds. -/
def bindGather (b : TokenBinding) (a : ArcTokens) (countRef : String) : Option TokenBinding := do
  let (coordPort, countField) ← splitOnceDot countRef.toList
  let coordinator ← b.portInputs.lookup (String.ofList coordPort)
  let k ← match coordinator.get? (String.ofList countField) with
    | some (.num n) => n.asU64
    | _ => none
  if k = 0 then none
  else
    let eligible := eligibleTokens a coordinator
    if eligible.length < k then none
    else
      let selected := eligible.take k
      let routing ← if a.arc.read then some b.consumedReplyRouting
        else mergeRoutings b.consumedReplyRouting selected
      if matchesSchema schemaRegistry (transition.inputPort a.arc.portName) (colorsOf selected) then
        some (({ b with consumedReplyRouting := routing }.take a.arc selected).setPort
          a.arc.portName (.arr (colorsOf selected)))
      else none

/-- Any other arc: the token at the index, or the newest one for a read arc. A batch port sees all
tokens of the place and consumes `weight` of them from the index on. -/
def bindPlain (b : TokenBinding) (a : ArcTokens) (idx : Nat) : Option TokenBinding := do
  let indexed ← a.tokens[idx]?
  -- A read arc peeks at the newest token, whatever the index.
  let token := if a.arc.read then a.tokens.getLastD indexed else indexed
  let routing ← if a.arc.read then some b.consumedReplyRouting
    else mergeRoutings b.consumedReplyRouting [token]
  let port := transition.inputPort a.arc.portName
  let batch : Bool := (port.map (·.cardinality)) = some .batch
  let data : Json := if batch then .arr (colorsOf a.tokens) else tokenColorToJson token.color
  let taken := if batch then
      if a.arc.read then a.tokens else (a.tokens.drop idx).take a.arc.weight
    else [token]
  if matchesSchema schemaRegistry port [data] then
    some (({ b with consumedReplyRouting := routing }.take a.arc taken).setPort a.arc.portName data)
  else none

def bindArc (b : TokenBinding) (a : ArcTokens × Nat) : Option TokenBinding :=
  match a.1.arc.drainMax with
  | some cap => bindDrain transition schemaRegistry b a.1 cap
  | none =>
    match a.1.arc.countFrom with
    | some countRef => bindGather transition schemaRegistry b a.1 countRef
    | none => bindPlain transition schemaRegistry b a.1 a.2

/-- `build_binding_for_indices`: the arcs without a count first, then the gather barriers, whose
coordinator they bind. -/
def buildBindingForIndices (arcs : List ArcTokens) (indices : List Nat) : Option TokenBinding := do
  let indexed := arcs.zip indices
  let b ← (indexed.filter fun a => a.1.arc.countFrom.isNone).foldlM
    (bindArc transition schemaRegistry) .empty
  (indexed.filter fun a => a.1.arc.countFrom.isSome).foldlM (bindArc transition schemaRegistry) b

end BindArc

/-! ## Candidates -/

/-- The index vectors below the sizes, in the order of `CombinationIterator`: the last index moves
fastest. -/
def combinations : List Nat → List (List Nat)
  | [] => [[]]
  | n :: rest => (List.range n).flatMap fun i => (combinations rest).map (i :: ·)

def pluckPath : Json → List String → Option Json
  | v, [] => some v
  | v, seg :: path => (v.get? seg).bind fun w => pluckPath w path

/-- `{:016x}` of 64 bits. -/
def hex16 (bits : BitVec 64) : String :=
  let digits := Nat.toDigits 16 bits.toNat
  String.ofList (List.replicate (16 - digits.length) '0' ++ digits)

/-- The bucket of a join value; compound values have none. -/
def scalarKey : Option Json → Option String
  | none | some .null => some "u"
  | some (.bool b) => some (if b then "btrue" else "bfalse")
  | some (.num n) =>
    let f := n.asF64
    some ("n" ++ hex16 (if f.rank = 0 then 0 else f.bits))
  | some (.str s) => some ("s" ++ s)
  | some (.arr _) | some (.obj _) => none

/-- The merge of two ascending index lists. -/
def intersectSorted : List Nat → List Nat → List Nat
  | [], _ => []
  | _, [] => []
  | x :: xs, y :: ys =>
    if x < y then intersectSorted xs (y :: ys)
    else if y < x then intersectSorted (x :: xs) ys
    else x :: intersectSorted xs ys

/-- A pruning edge to an earlier arc: the two values must be equal. -/
structure BackEdge where
  partner : Nat
  selfPath : List String
  partnerPath : List String

inductive ArcRole where
  | pinned
  | free
  | joined (backEdges : List BackEdge)

structure JoinPlan where
  roles : List ArcRole
  colors : List (List Json)
  /-- For an arc and a path, the ascending token indices under each key. -/
  maps : HashMap (Nat × List String) (HashMap String (List Nat))

namespace JoinPlan

def indexable (transition : Transition) (arc : Arc) : Bool :=
  !arc.read && arc.countFrom.isNone && arc.drainMax.isNone &&
    (transition.inputPort arc.portName).map (·.cardinality) ≠ some .batch

/-- The arc a port name stands for: the last one declared with it. -/
def portToArc (arcs : List ArcTokens) : HashMap String Nat :=
  HashMap.ofPairs ((arcs.map (·.arc.portName)).zipIdx)

/-- The constraint as an edge hanging on the later of its two arcs. -/
def backEdge? (transition : Transition) (arcs : List ArcTokens) (con : JoinConstraint) :
    Option (Nat × BackEdge) := do
  let ia ← (portToArc arcs).lookup con.portA
  let ib ← (portToArc arcs).lookup con.portB
  let a ← arcs[ia]?
  let b ← arcs[ib]?
  if ia = ib ∨ ¬ indexable transition a.arc ∨ ¬ indexable transition b.arc then none
  else if ia < ib then some (ib, ⟨ia, con.pathB, con.pathA⟩)
  else some (ia, ⟨ib, con.pathA, con.pathB⟩)

/-- Token indices by key, in ascending order. -/
def indexByKey (colors : List Json) (path : List String) : HashMap String (List Nat) :=
  colors.zipIdx.foldl (fun m c =>
    match scalarKey (pluckPath c.1 path) with
    | some key => m.insert key ((m.lookup key).getD [] ++ [c.2])
    | none => m) ∅

/-- `JoinPlan::build`: `none` where there is no usable constraint or a join value is compound. -/
def build (transition : Transition) (arcs : List ArcTokens) (constraints : List JoinConstraint) :
    Option JoinPlan :=
  let edges := constraints.filterMap (backEdge? transition arcs)
  let colors := arcs.map fun a => colorsOf a.tokens
  let keyPaths := edges.flatMap fun e => [(e.1, e.2.selfPath), (e.2.partner, e.2.partnerPath)]
  if edges = [] then none
  -- One compound value under a join path and the buckets would miss bindings the guard accepts.
  else if keyPaths.all fun kp =>
      (colors.getD kp.1 []).all fun c => (scalarKey (pluckPath c kp.2)).isSome then
    some
      { colors := colors
        maps := HashMap.ofPairs (edges.map fun e =>
          ((e.1, e.2.selfPath), indexByKey (colors.getD e.1 []) e.2.selfPath))
        roles := arcs.zipIdx.map fun a =>
          if a.1.arc.read ∨ a.1.arc.countFrom.isSome ∨ a.1.arc.drainMax.isSome then .pinned
          else
            match (edges.filter fun e => e.1 = a.2).map (·.2) with
            | [] => .free
            | backEdges => .joined backEdges }
  else none

/-- The token indices that agree with one back edge, given the indices fixed so far. -/
def edgeMatches (plan : JoinPlan) (level : Nat) (indices : List Nat) (e : BackEdge) : List Nat :=
  let partnerColor := ((plan.colors.getD e.partner [])[indices.getD e.partner 0]?).getD .null
  match scalarKey (pluckPath partnerColor e.partnerPath) with
  | some key => ((plan.maps.lookup (level, e.selfPath)).bind (·.lookup key)).getD []
  | none => []

/-- Ascending candidate indices of an arc with `size` tokens. -/
def candidates (plan : JoinPlan) (level size : Nat) (indices : List Nat) : List Nat :=
  match plan.roles[level]? with
  | some .pinned => [0]
  | some (.joined (e :: edges)) =>
    edges.foldl (fun cand e => intersectSorted cand (plan.edgeMatches level indices e))
      (plan.edgeMatches level indices e)
  | _ => List.range size

end JoinPlan

/-! ## The search -/

section Search

variable (executor : TransitionExecutor) (transition : Transition)
  (schemaRegistry : Option SchemaRegistry)

/-- The binding at an index vector, if it can be built and its guard holds. -/
def tryIndices (guard : Option String) (arcs : List ArcTokens) (indices : List Nat) :
    Option TokenBinding := do
  let b ← buildBindingForIndices transition schemaRegistry arcs indices
  match guard with
  | none => some b
  | some script =>
    match executor.evaluateGuard script b.portInputs with
    | .ok true => some b
    | _ => none

/-- The depth-first search of a join plan. `rest` are the arcs not fixed yet, `indices` the indices
fixed so far. -/
def JoinPlan.search (plan : JoinPlan) (script : String) (arcs : List ArcTokens) :
    List ArcTokens → List Nat → Option TokenBinding
  | [], indices => tryIndices executor transition schemaRegistry (some script) arcs indices
  | a :: rest, indices =>
    (plan.candidates indices.length a.tokens.length indices).findSome? fun cand =>
      JoinPlan.search plan script arcs rest (indices ++ [cand])

/-- The search over the collected token lists. -/
def searchBinding (arcs : List ArcTokens) : Option TokenBinding :=
  -- A gather or drain arc decides for itself whether there are enough tokens.
  if arcs.any fun a => a.arc.countFrom.isNone && a.arc.drainMax.isNone &&
      a.tokens.length < a.arc.weight then none
  else if arcs = [] then some .empty
  else
    let fifo := buildBindingForIndices transition schemaRegistry arcs (arcs.map fun _ => 0)
    let all := (combinations (arcs.map (·.tokens.length))).findSome?
      (tryIndices executor transition schemaRegistry transition.guard arcs)
    match transition.guard with
    | none =>
      -- The first tokens will do, unless a schema refuses them and later ones may pass.
      match schemaRegistry, fifo with
      | none, _ => fifo
      | some _, some b => some b
      | some _, none => all
    | some script =>
      if 2 ≤ arcs.length then
        match JoinPlan.build transition arcs (extractJoinConstraints script) with
        | some plan => plan.search executor transition schemaRegistry script arcs arcs []
        | none => all
      else all

def findValidBinding (inputArcs : List Arc) (marking : Marking) : Option TokenBinding :=
  searchBinding executor transition schemaRegistry
    (inputArcs.map fun a => ⟨a, marking.tokensAt a.placeId⟩)

variable {inputArcs : List Arc} {m : Marking}

/-- **A binding depends on the marking only through the input places of the transition.** -/
theorem findValidBinding_congr {m' : Marking}
    (h : ∀ a ∈ inputArcs, m.tokensAt a.placeId = m'.tokensAt a.placeId) :
    findValidBinding executor transition schemaRegistry inputArcs m =
      findValidBinding executor transition schemaRegistry inputArcs m' := by
  unfold findValidBinding
  congr 1
  refine List.map_congr_left fun a ha => ?_
  rw [h a ha]

/-! ## Bound tokens are there -/

/-- Every consumed token is one of the tokens of an arc's place. -/
def TokenBinding.DrawnFrom (arcs : List ArcTokens) (b : TokenBinding) : Prop :=
  ∀ c ∈ b.consumedTokens, ∃ a ∈ arcs, ∃ t ∈ a.tokens, c = (a.arc.placeId, t.id)

namespace TokenBinding.DrawnFrom

variable {arcs : List ArcTokens} {b : TokenBinding} {a : ArcTokens}

theorem empty : TokenBinding.empty.DrawnFrom arcs := by
  intro c hc
  exact absurd hc (by simp [TokenBinding.empty])

theorem take (h : b.DrawnFrom arcs) (ha : a ∈ arcs) {ts : List Token}
    (hts : a.arc.read = false → ∀ t ∈ ts, t ∈ a.tokens) : (b.take a.arc ts).DrawnFrom arcs := by
  intro c hc
  unfold TokenBinding.take at hc
  split at hc
  · exact h c hc
  · next hread =>
    rcases List.mem_append.mp hc with hc | hc
    · exact h c hc
    · obtain ⟨t, ht, rfl⟩ := List.mem_map.mp hc
      exact ⟨a, ha, t, hts (by simpa using hread) t ht, rfl⟩

/-- The end of a binding step: the routing is merged for a consuming arc, the schema is checked, and
the tokens are taken. -/
theorem routed (h : b.DrawnFrom arcs) (ha : a ∈ arcs) {ts : List Token} {b' : TokenBinding}
    {merged : Option (Option ReplyRouting)} {valid : Bool} {port : String} {data : Json}
    (hb : (if a.arc.read then (some b.consumedReplyRouting).bind fun routing =>
          if valid then some (({ b with consumedReplyRouting := routing }.take a.arc ts).setPort port data)
          else none
        else merged.bind fun routing =>
          if valid then
            some (({ b with consumedReplyRouting := routing }.take a.arc ts).setPort port data)
          else none) = some b')
    (hts : a.arc.read = false → ∀ t ∈ ts, t ∈ a.tokens) : b'.DrawnFrom arcs := by
  have hany : ∀ routing, (if valid then
      some (({ b with consumedReplyRouting := routing }.take a.arc ts).setPort port data)
      else none) = some b' → b'.DrawnFrom arcs := by
    intro routing hsome
    split at hsome
    · rw [← Option.some.inj hsome]
      exact take (b := { b with consumedReplyRouting := routing }) h ha hts
    · cases hsome
  split at hb
  · exact hany _ hb
  · obtain ⟨routing, _, hb⟩ := Option.bind_eq_some_iff.mp hb
    exact hany routing hb

section

variable {transition : Transition} {schemaRegistry : Option SchemaRegistry} {b' : TokenBinding}

theorem bindDrain {cap : Nat} (h : b.DrawnFrom arcs) (ha : a ∈ arcs)
    (hb : Mekhan.bindDrain transition schemaRegistry b a cap = some b') : b'.DrawnFrom arcs := by
  unfold Mekhan.bindDrain at hb
  split at hb
  · cases hb
  · dsimp only at hb
    split at hb
    · rw [← Option.some.inj hb]
      exact h.take ha fun _ t ht => List.mem_of_mem_take ht
    · cases hb

theorem bindGather {countRef : String} (h : b.DrawnFrom arcs) (ha : a ∈ arcs)
    (hb : Mekhan.bindGather transition schemaRegistry b a countRef = some b') : b'.DrawnFrom arcs := by
  unfold Mekhan.bindGather at hb
  simp only [Option.bind_eq_bind, Option.bind_eq_some_iff] at hb
  obtain ⟨_, _, coordinator, _, hb⟩ := hb
  split at hb
  · obtain ⟨k, _, hb⟩ := Option.bind_eq_some_iff.mp hb
    split at hb
    · cases hb
    · split at hb
      · cases hb
      · refine routed h ha hb fun _ t ht => ?_
        have ht := List.mem_of_mem_take ht
        unfold eligibleTokens at ht
        split at ht
        · exact (List.mem_filter.mp ht).1
        · exact ht
  · cases hb

theorem bindPlain {idx : Nat} (h : b.DrawnFrom arcs) (ha : a ∈ arcs)
    (hb : Mekhan.bindPlain transition schemaRegistry b a idx = some b') : b'.DrawnFrom arcs := by
  unfold Mekhan.bindPlain at hb
  simp only [Option.bind_eq_bind, Option.bind_eq_some_iff] at hb
  obtain ⟨indexed, hindexed, hb⟩ := hb
  refine routed h ha hb fun hread t ht => ?_
  simp only [hread, Bool.false_eq_true, if_false] at ht
  split at ht
  · exact List.mem_of_mem_drop (List.mem_of_mem_take ht)
  · rw [List.mem_singleton.mp ht]
    exact List.mem_of_getElem? hindexed

theorem bindArc {idx : Nat} (h : b.DrawnFrom arcs) (ha : a ∈ arcs)
    (hb : Mekhan.bindArc transition schemaRegistry b (a, idx) = some b') : b'.DrawnFrom arcs := by
  unfold Mekhan.bindArc at hb
  split at hb
  · exact h.bindDrain ha hb
  · split at hb
    · exact h.bindGather ha hb
    · exact h.bindPlain ha hb

end

theorem foldlM {transition : Transition} {schemaRegistry : Option SchemaRegistry}
    {b' : TokenBinding} : ∀ {l : List (ArcTokens × Nat)} {b : TokenBinding}, b.DrawnFrom arcs →
      (∀ a ∈ l, a.1 ∈ arcs) → l.foldlM (Mekhan.bindArc transition schemaRegistry) b = some b' →
      b'.DrawnFrom arcs
  | [], b, h, _, hb => by
    rw [List.foldlM_nil] at hb
    rw [← Option.some.inj hb]
    exact h
  | a :: l, b, h, hl, hb => by
    rw [List.foldlM_cons] at hb
    obtain ⟨b₁, hb₁, hb⟩ := Option.bind_eq_some_iff.mp hb
    exact (h.bindArc (hl a List.mem_cons_self) hb₁).foldlM
      (fun x hx => hl x (List.mem_cons_of_mem _ hx)) hb

theorem buildBindingForIndices {transition : Transition}
    {schemaRegistry : Option SchemaRegistry} {indices : List Nat}
    (hb : Mekhan.buildBindingForIndices transition schemaRegistry arcs indices = some b) :
    b.DrawnFrom arcs := by
  unfold Mekhan.buildBindingForIndices at hb
  obtain ⟨b₁, hb₁, hb⟩ := Option.bind_eq_some_iff.mp hb
  have hzip : ∀ x ∈ arcs.zip indices, x.1 ∈ arcs := fun x hx => (List.of_mem_zip hx).1
  have h₁ : b₁.DrawnFrom arcs :=
    empty.foldlM (fun x hx => hzip x (List.mem_filter.mp hx).1) hb₁
  exact h₁.foldlM (fun x hx => hzip x (List.mem_filter.mp hx).1) hb

end TokenBinding.DrawnFrom

variable {executor transition schemaRegistry}

variable {b : TokenBinding} {arcs : List ArcTokens}

theorem drawnFrom_of_tryIndices {guard : Option String} {indices : List Nat}
    (h : tryIndices executor transition schemaRegistry guard arcs indices = some b) : b.DrawnFrom arcs := by
  unfold tryIndices at h
  obtain ⟨b₁, hb₁, h⟩ := Option.bind_eq_some_iff.mp h
  have h₁ := TokenBinding.DrawnFrom.buildBindingForIndices hb₁
  split at h
  · exact Option.some.inj h ▸ h₁
  · split at h
    · exact Option.some.inj h ▸ h₁
    · cases h

theorem drawnFrom_of_search {plan : JoinPlan} {script : String}
    : ∀ {rest : List ArcTokens} {indices : List Nat},
      plan.search executor transition schemaRegistry script arcs rest indices = some b → b.DrawnFrom arcs
  | [], _, h => drawnFrom_of_tryIndices h
  | _ :: rest, _, h => by
    obtain ⟨cand, _, h⟩ := List.exists_of_findSome?_eq_some h
    exact drawnFrom_of_search h

theorem drawnFrom_of_searchBinding
    (h : searchBinding executor transition schemaRegistry arcs = some b) : b.DrawnFrom arcs := by
  have hall {guard : Option String} {l : List (List Nat)}
      (h : l.findSome? (tryIndices executor transition schemaRegistry guard arcs) = some b) :
      b.DrawnFrom arcs := by
    obtain ⟨_, _, h⟩ := List.exists_of_findSome?_eq_some h
    exact drawnFrom_of_tryIndices h
  unfold searchBinding at h
  split at h
  · cases h
  · split at h
    · rw [← Option.some.inj h]
      exact .empty
    · dsimp only at h
      split at h
      · split at h
        · exact .buildBindingForIndices h
        · next hfifo =>
          rw [← Option.some.inj h]
          exact .buildBindingForIndices hfifo
        · exact hall h
      · split at h
        · split at h
          · exact drawnFrom_of_search h
          · exact hall h
        · exact hall h

/-- **A binding consumes tokens that are in the marking.** -/
theorem holds_of_findValidBinding
    (h : findValidBinding executor transition schemaRegistry inputArcs m = some b) :
    m.Holds b.consumedTokens := by
  intro c hc
  obtain ⟨a, ha, t, ht, rfl⟩ := drawnFrom_of_searchBinding h c hc
  obtain ⟨arc, _, rfl⟩ := List.mem_map.mp ha
  exact ⟨t, ht, rfl⟩

end Search

end Mekhan

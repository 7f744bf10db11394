import Mekhan.Domain.Events
import Mekhan.Infra.JsonMap
import Mekhan.Infra.KeyedList

/-!
# Step executions

`service/src/projections/step_executions/projector.rs`: the fold of an instance's event log, with the
compiler's interface of every node, into one row for each execution of a step.
-/

namespace Mekhan

namespace StepExecutions

open Infra

/-! ## The compiler's interfaces -/

/-- The kinds of nodes that rows are written for. -/
inductive NodeKind where
  | start | end | humanTask | automatedStep | agent | decision | loop | leaseScope | parallelSplit | join
  | scope | map | subWorkflow | phaseUpdate | progressUpdate | failure | delay | timeout | trigger
  | streamSource | streamSink
  deriving DecidableEq

/-- The port that a place is the output of. -/
inductive OutputKey where
  | default
  | edge (id : String)
  | named (id : String)

/-- `Display`. -/
def OutputKey.text : OutputKey → String
  | .default => "default"
  | .edge id => "edge:" ++ id
  | .named id => "named:" ++ id

/-- Whether the port is the one for errors. -/
def OutputKey.isError : OutputKey → Bool
  | .edge id | .named id => id = "error"
  | .default => false

/-- The places and transitions that the compiler made for a node. -/
structure NodeInterface where
  nodeId : String
  kind : NodeKind
  entry : Option String
  outputs : List (OutputKey × String)
  dataPort : Option String
  workflowTerminals : List String
  ownedPlaces : List String
  ownedTransitions : List String

abbrev InterfaceRegistry := HashMap String NodeInterface

/-! ## Reverse indexes -/

/-- Whose place or transition something is, asked from the other end. -/
structure Lookups where
  transitionOwner : MapOf String String
  placeOwner : MapOf String String
  entryToNode : MapOf String String
  dataPortToNode : MapOf String String
  outputToNodeBranch : MapOf String (String × OutputKey)
  workflowTerminalToNode : MapOf String String
  registry : InterfaceRegistry

namespace Lookups

def empty (registry : InterfaceRegistry) : Lookups := ⟨∅, ∅, ∅, ∅, ∅, ∅, registry⟩

/-- `entry(key).or_insert(value)`. -/
def orInsert {V : Type} (m : MapOf String V) (key : String) (value : V) : MapOf String V :=
  if key ∈ m then m else m.insert key value

/-- The round of `build` for one interface. -/
def add (l : Lookups) (iface : NodeInterface) : Lookups where
  transitionOwner := iface.ownedTransitions.foldl (fun m t => m.insert t iface.nodeId) l.transitionOwner
  placeOwner :=
    (iface.entry.toList ++ iface.dataPort.toList).foldl (fun m p => orInsert m p iface.nodeId)
      (iface.ownedPlaces.foldl (fun m p => m.insert p iface.nodeId) l.placeOwner)
  entryToNode := iface.entry.toList.foldl (fun m p => m.insert p iface.nodeId) l.entryToNode
  dataPortToNode := iface.dataPort.toList.foldl (fun m p => m.insert p iface.nodeId) l.dataPortToNode
  outputToNodeBranch := iface.outputs.foldl (fun m o => m.insert o.2 (iface.nodeId, o.1)) l.outputToNodeBranch
  workflowTerminalToNode :=
    iface.workflowTerminals.foldl (fun m t => m.insert t iface.nodeId) l.workflowTerminalToNode
  registry := l.registry

/-- The lookups of all nodes, in the registry's order. -/
def build (registry : InterfaceRegistry) : Lookups := registry.values.foldl add (empty registry)

/-- The registry is kept as it came. -/
theorem registry_build (registry : InterfaceRegistry) : (build registry).registry = registry := by
  suffices h : ∀ (ifaces : List NodeInterface) (l : Lookups), (ifaces.foldl add l).registry = l.registry from
    h registry.values (empty registry)
  intro ifaces
  induction ifaces with
  | nil => exact fun _ => rfl
  | cons iface ifaces ih => exact fun l => ih (l.add iface)

/-- A terminal place that is found is one of its node's interface. -/
theorem terminal_of_lookup_build {registry : InterfaceRegistry} {place nodeId : String}
    (h : (build registry).workflowTerminalToNode.lookup place = some nodeId) :
    ∃ iface ∈ registry.values, iface.nodeId = nodeId ∧ place ∈ iface.workflowTerminals := by
  have hinsert : ∀ (node : String) (places : List String) (m : MapOf String String),
      (places.foldl (fun m t => m.insert t node) m).lookup place = some nodeId →
        m.lookup place = some nodeId ∨ (node = nodeId ∧ place ∈ places) := by
    intro node places
    induction places with
    | nil => exact fun m hm => Or.inl hm
    | cons p places ih =>
      intro m hm
      rcases ih _ hm with hm | ⟨rfl, hmem⟩
      · by_cases hp : place = p
        · rw [hp, Finmap.lookup_insert] at hm
          exact Or.inr ⟨Option.some.inj hm, by simp [hp]⟩
        · rw [Finmap.lookup_insert_of_ne _ hp] at hm
          exact Or.inl hm
      · exact Or.inr ⟨rfl, List.mem_cons_of_mem _ hmem⟩
  suffices hall : ∀ (ifaces : List NodeInterface) (l : Lookups),
      (ifaces.foldl add l).workflowTerminalToNode.lookup place = some nodeId →
        l.workflowTerminalToNode.lookup place = some nodeId ∨
          ∃ iface ∈ ifaces, iface.nodeId = nodeId ∧ place ∈ iface.workflowTerminals by
    rcases hall _ _ h with hempty | hiface
    · simp [empty] at hempty
    · exact hiface
  intro ifaces
  induction ifaces with
  | nil => exact fun l hl => Or.inl hl
  | cons iface ifaces ih =>
    intro l hl
    rcases ih _ hl with hadd | ⟨i, hi, hrest⟩
    · rcases hinsert _ _ _ hadd with hl | ⟨hnode, hmem⟩
      · exact Or.inl hl
      · exact Or.inr ⟨iface, List.mem_cons_self .., hnode, hmem⟩
    · exact Or.inr ⟨i, List.mem_cons_of_mem _ hi, hrest⟩

def interface (l : Lookups) (nodeId : String) : Option NodeInterface := l.registry.lookup nodeId

/-- A node the registry does not know counts as an automated step. -/
def kindOf (l : Lookups) (nodeId : String) : NodeKind :=
  ((l.interface nodeId).map (·.kind)).getD .automatedStep

end Lookups

/-! ## Rows -/

/-- Where an iteration of a node stands. -/
inductive StepStatus where
  | pending | running | completed | failed | skipped
  deriving DecidableEq

/-- An iteration of a node. -/
structure StepExecutionRow where
  nodeId : String
  iterationIndex : Nat
  nodeKind : NodeKind
  status : StepStatus
  inputs : Option Json
  outputs : Option Json
  executionId : Option String
  branchTaken : Option String
  startedAt : Option DateTime
  completedAt : Option DateTime
  error : Option Json
  lastSequence : Nat
  deriving DecidableEq

/-- The colour as rows keep it; a unit is `null`. -/
def tokenColorToJson : TokenColor → Json
  | .unit => .null
  | .integer n => .num (.ofInt n)
  | .data v => v

/-- Where an envelope of the kind keeps the user-facing outputs. -/
def outputPath : NodeKind → List String
  | .automatedStep | .agent => ["detail", "outputs"]
  | .humanTask => ["data"]
  | _ => []

/-- The user-facing part of an envelope, or the envelope where it is not there. -/
def canonicalOutputPayload (kind : NodeKind) (raw : Json) : Json :=
  ((outputPath kind).foldlM (fun (cur : Json) seg => cur.get? seg) raw).getD raw

/-- The `execution_id` at the top of an envelope. -/
def envelopeExecutionId (envelope : Json) : Option String := (envelope.get? "execution_id").bind Json.asStr?

def inputEntries : Option Json → List (String × Json)
  | some (.obj entries) => entries
  | _ => []

namespace StepExecutionRow

def key (row : StepExecutionRow) : String × Nat := (row.nodeId, row.iterationIndex)

/-- A row whose iteration has begun. -/
def opened (nodeId : String) (iterationIndex : Nat) (nodeKind : NodeKind) (startedAt : Option DateTime) :
    StepExecutionRow where
  nodeId := nodeId
  iterationIndex := iterationIndex
  nodeKind := nodeKind
  status := .pending
  inputs := none
  outputs := none
  executionId := none
  branchTaken := none
  startedAt := startedAt
  completedAt := none
  error := none
  lastSequence := 0

/-- A failure is not completed any more. -/
def complete (row : StepExecutionRow) (ts : DateTime) : StepExecutionRow :=
  if row.status = .failed then row else { row with status := .completed, completedAt := some ts }

/-- A failure overwrites whatever the row was. -/
def fail (row : StepExecutionRow) (ts : DateTime) (error : Json) : StepExecutionRow :=
  { row with status := .failed, completedAt := some ts, error := some error }

/-- A row that waits or runs is not finished. -/
def isOpen (row : StepExecutionRow) : Bool := row.status = .pending || row.status = .running

/-- The inputs are kept by the producer they came from. -/
def addInbound (row : StepExecutionRow) (producer : String) (payload : Json) : StepExecutionRow :=
  { row with inputs := some (.obj (put (inputEntries row.inputs) (producer, payload))) }

/-- Step 3 of `handle_fire`: the first firing of a row. -/
def start (row : StepExecutionRow) (ts : DateTime) : StepExecutionRow :=
  if row.status = .pending then
    { row with status := .running, startedAt := some (row.startedAt.getD ts) }
  else row

/-- Step 3b: the first `execution_id` among the tokens, for a row that has none. -/
def captureExecutionId (row : StepExecutionRow) (tokens : List (PlaceId × Token)) : StepExecutionRow :=
  if row.executionId.isNone then
    { row with executionId := tokens.findSome? fun e => envelopeExecutionId (tokenColorToJson e.2.color) }
  else row

/-- The name under which the inputs show a token that was read. -/
def producerOf (l : Lookups) (place : PlaceId) : String := (l.placeOwner.lookup place.name).getD place.name

/-- The tokens that one producer had read, as one value. -/
def groupValue (l : Lookups) (readTokens : List (PlaceId × Token)) (producer : String) : Json :=
  match (readTokens.filter (producerOf l ·.1 = producer)).map (tokenColorToJson ·.2.color) with
  | [v] => v
  | vs => .arr vs

/-- Step 4: the tokens that were read, by the node that owns their place. -/
def captureInputs (row : StepExecutionRow) (l : Lookups) (readTokens : List (PlaceId × Token)) : StepExecutionRow :=
  if readTokens.isEmpty then row
  else
    let producers := (readTokens.map (producerOf l ·.1)).dedup
    { row with inputs := some (.obj (producers.foldl (fun m p => put m (p, groupValue l readTokens p))
        (inputEntries row.inputs))) }

/-- Step 5a: a token on the owner's data port. -/
def captureDataPort (l : Lookups) (owner : String) (ts : DateTime) (row : StepExecutionRow) (e : PlaceId × Token) :
    StepExecutionRow :=
  if l.dataPortToNode.lookup e.1.name = some owner then
    let raw := tokenColorToJson e.2.color
    { row with
      executionId := (envelopeExecutionId raw).or row.executionId
      outputs := some (canonicalOutputPayload (l.kindOf owner) raw) }.complete ts
  else row

/-- Step 5b: a token on one of the owner's workflow terminals. -/
def captureTerminal (l : Lookups) (owner : String) (ts : DateTime) (row : StepExecutionRow) (e : PlaceId × Token) :
    StepExecutionRow :=
  if l.workflowTerminalToNode.lookup e.1.name = some owner then
    { row with outputs := some (canonicalOutputPayload (l.kindOf owner) (tokenColorToJson e.2.color)) }.complete ts
  else row

/-- The output of the owner that a place is. -/
def outputAt (l : Lookups) (owner : String) (place : PlaceId) : Option OutputKey :=
  match l.outputToNodeBranch.lookup place.name with
  | some (branchOwner, key) => if branchOwner = owner then some key else none
  | none => none

/-- Steps 5c and 5d: a branch of a node without a data port, the error output of a node with one. -/
def captureBranch (l : Lookups) (owner : String) (ts : DateTime) (row : StepExecutionRow) (e : PlaceId × Token) :
    StepExecutionRow :=
  match outputAt l owner e.1, l.interface owner with
  | some key, some iface =>
    if iface.dataPort.isNone then { row with branchTaken := some key.text }.complete ts
    else if key.isError then row.fail ts (tokenColorToJson e.2.color)
    else row
  | _, _ => row

/-- Step 5: one token that a firing of the owner produced. -/
def captureOutput (l : Lookups) (owner : String) (ts : DateTime) (row : StepExecutionRow) (e : PlaceId × Token) :
    StepExecutionRow :=
  captureBranch l owner ts (captureTerminal l owner ts (captureDataPort l owner ts row e) e) e

/-- Steps 3 to 5 of `handle_fire`. -/
def fire (l : Lookups) (owner : String) (producedTokens readTokens : List (PlaceId × Token)) (sequence : Nat)
    (ts : DateTime) (row : StepExecutionRow) : StepExecutionRow :=
  let row := { row.start ts with lastSequence := sequence }
  let row := (row.captureExecutionId (producedTokens ++ readTokens)).captureInputs l readTokens
  producedTokens.foldl (captureOutput l owner ts) row

/-- What `handle_failure` makes of a row. -/
def failure (payload : Json) (sequence : Nat) (ts : DateTime) (row : StepExecutionRow) : StepExecutionRow :=
  { row with startedAt := some (row.startedAt.getD ts), lastSequence := sequence }.fail ts payload

/-- What `close_open_rows` makes of a row. -/
def close (status : StepStatus) (ts : DateTime) (row : StepExecutionRow) : StepExecutionRow :=
  if row.isOpen then { row with status := status, completedAt := some (row.completedAt.getD ts) } else row

end StepExecutionRow

/-! A row keeps its key. -/

namespace StepExecutionRow

@[simp] theorem key_complete (row : StepExecutionRow) (ts : DateTime) : (row.complete ts).key = row.key := by
  unfold complete
  split <;> rfl

@[simp] theorem key_start (row : StepExecutionRow) (ts : DateTime) : (row.start ts).key = row.key := by
  unfold start
  split <;> rfl

@[simp] theorem key_captureExecutionId (row : StepExecutionRow) (tokens : List (PlaceId × Token)) :
    (row.captureExecutionId tokens).key = row.key := by
  unfold captureExecutionId
  split <;> rfl

@[simp] theorem key_captureInputs (row : StepExecutionRow) (l : Lookups) (readTokens : List (PlaceId × Token)) :
    (row.captureInputs l readTokens).key = row.key := by
  unfold captureInputs
  split <;> rfl

@[simp] theorem key_captureOutput (l : Lookups) (owner : String) (ts : DateTime) (row : StepExecutionRow)
    (e : PlaceId × Token) : (captureOutput l owner ts row e).key = row.key := by
  have hdata : (captureDataPort l owner ts row e).key = row.key := by
    unfold captureDataPort
    split
    · exact key_complete ..
    · rfl
  have hterminal : ∀ row : StepExecutionRow, (captureTerminal l owner ts row e).key = row.key := by
    intro row
    unfold captureTerminal
    split
    · exact key_complete ..
    · rfl
  have hbranch : ∀ row : StepExecutionRow, (captureBranch l owner ts row e).key = row.key := by
    intro row
    unfold captureBranch
    split
    · split
      · exact key_complete ..
      · split <;> rfl
    · rfl
  rw [captureOutput, hbranch, hterminal, hdata]

theorem key_foldl_captureOutput (l : Lookups) (owner : String) (ts : DateTime) (tokens : List (PlaceId × Token))
    (row : StepExecutionRow) : (tokens.foldl (captureOutput l owner ts) row).key = row.key := by
  induction tokens generalizing row with
  | nil => rfl
  | cons e tokens ih => rw [List.foldl_cons, ih, key_captureOutput]

/-- No step of the projection moves a row to another iteration. -/
@[simp] theorem key_fire (l : Lookups) (owner : String) (producedTokens readTokens : List (PlaceId × Token))
    (sequence : Nat) (ts : DateTime) (row : StepExecutionRow) :
    (row.fire l owner producedTokens readTokens sequence ts).key = row.key := by
  unfold fire
  rw [key_foldl_captureOutput, key_captureInputs, key_captureExecutionId]
  exact key_start row ts

@[simp] theorem key_failure (payload : Json) (sequence : Nat) (ts : DateTime) (row : StepExecutionRow) :
    (row.failure payload sequence ts).key = row.key := rfl

@[simp] theorem key_close (status : StepStatus) (ts : DateTime) (row : StepExecutionRow) :
    (row.close status ts).key = row.key := by
  unfold close
  split <;> rfl

end StepExecutionRow

/-! ## The fold state -/

/-- What the projection has gathered of a net. -/
structure State where
  rows : KeyedList StepExecutionRow.key
  /-- Rows changed since the last `takeDirtyRows`. -/
  dirty : List (String × Nat)
  nextIter : MapOf String Nat
  activeIter : MapOf String Nat
  seenEntryTokens : MapOf String (List TokenId)
  terminated : Bool
  closeWith : Option (StepStatus × DateTime)

namespace State

def new : State := ⟨.empty, [], ∅, ∅, ∅, false, none⟩

def touch (s : State) (key : String × Nat) : State := { s with dirty := s.dirty.insert key }

/-- An open iteration is not opened again. -/
def openRow (s : State) (row : StepExecutionRow) : State :=
  match s.rows.get? row.key with
  | some _ => s
  | none => { s with rows := s.rows.insert row }

/-- A row that is not open stays away. -/
def updateRow (s : State) (key : String × Nat) (f : StepExecutionRow → StepExecutionRow) : State :=
  match s.rows.get? key with
  | some row => { s with rows := s.rows.insert (f row) }
  | none => s

/-- The iteration that is running. -/
def iterOf (s : State) (nodeId : String) : Nat := (s.activeIter.lookup nodeId).getD 0

/-- The tokens that have entered the node. -/
def seen (s : State) (nodeId : String) : List TokenId := (s.seenEntryTokens.lookup nodeId).getD []

/-- The iteration that starts next. -/
def nextOf (s : State) (nodeId : String) : Nat := (s.nextIter.lookup nodeId).getD 0

/-- `note_entry_arrival`: a new token at the entry of a node opens its next iteration. -/
def noteEntryArrival (s : State) (l : Lookups) (placeId : PlaceId) (token : Token) (arrivedAt : DateTime) : State :=
  match l.entryToNode.lookup placeId.name with
  | none => s
  | some nodeId =>
    if token.id ∈ s.seen nodeId then s
    else
      let assigned := s.nextOf nodeId
      let s :=
        { s with
          seenEntryTokens := s.seenEntryTokens.insert nodeId (token.id :: s.seen nodeId)
          nextIter := s.nextIter.insert nodeId (assigned + 1)
          activeIter := s.activeIter.insert nodeId assigned }
      (s.touch (nodeId, assigned)).openRow (.opened nodeId assigned (l.kindOf nodeId) (some arrivedAt))

/-- The upstream node of a token that lands at the entry of `consumer`. -/
def sourceOf (l : Lookups) (consumer : String) (transitionId : TransitionId)
    (consumedTokens : List (PlaceId × TokenId)) : Option String :=
  match l.transitionOwner.lookup transitionId.name with
  | some o => if o = consumer then upstream else some o
  | none => upstream
where
  /-- The owner of a consumed place that is another node. -/
  upstream : Option String :=
    (consumedTokens.filterMap fun e => l.placeOwner.lookup e.1.name).find? (· ≠ consumer)

/-- `note_inbound_at_entry`: a token at the entry is an input, unless its producer has one already. -/
def noteInboundAtEntry (s : State) (l : Lookups) (placeId : PlaceId) (token : Token) (transitionId : TransitionId)
    (consumedTokens : List (PlaceId × TokenId)) : State :=
  match l.entryToNode.lookup placeId.name with
  | none => s
  | some consumer =>
    let producer := (sourceOf l consumer transitionId consumedTokens).getD "input"
    let key := (consumer, s.iterOf consumer)
    match s.rows.get? key with
    | none => s
    | some row =>
      if producer ∈ (inputEntries row.inputs).map (·.1) then s
      else (s.touch key).updateRow key fun row => row.addInbound producer (tokenColorToJson token.color)

/-- A firing of a node that no token has entered opens its row. -/
def openImplicitly (s : State) (l : Lookups) (owner : String) (iter : Nat) : State :=
  match s.rows.get? (owner, iter) with
  | some _ => s
  | none =>
    { s with
      rows := s.rows.insert (.opened owner iter (l.kindOf owner) none)
      activeIter := s.activeIter.insert owner iter
      nextIter := s.nextIter.insert owner (max (s.nextOf owner) (iter + 1)) }

/-- Step 1 of `handle_fire`: the arrivals of a firing. -/
def noteArrivals (s : State) (l : Lookups) (transitionId : TransitionId) (consumedTokens : List (PlaceId × TokenId))
    (producedTokens : List (PlaceId × Token)) (ts : DateTime) : State :=
  producedTokens.foldl (fun s e =>
    (s.noteEntryArrival l e.1 e.2 ts).noteInboundAtEntry l e.1 e.2 transitionId consumedTokens) s

/-- What a firing tells about its node and about those its tokens go to. -/
def handleFire (s : State) (l : Lookups) (transitionId : TransitionId) (consumedTokens : List (PlaceId × TokenId))
    (producedTokens readTokens : List (PlaceId × Token)) (sequence : Nat) (ts : DateTime) : State :=
  let s := s.noteArrivals l transitionId consumedTokens producedTokens ts
  match l.transitionOwner.lookup transitionId.name with
  | none => s
  | some owner =>
    let key := (owner, s.iterOf owner)
    ((s.openImplicitly l owner (s.iterOf owner)).touch key).updateRow key
      (.fire l owner producedTokens readTokens sequence ts)

/-- A failed effect fails the running iteration. -/
def handleFailure (s : State) (l : Lookups) (transitionId : TransitionId) (errorPayload : Json) (sequence : Nat)
    (ts : DateTime) : State :=
  match l.transitionOwner.lookup transitionId.name with
  | none => s
  | some owner =>
    let key := (owner, s.iterOf owner)
    ((s.touch key).openRow (.opened owner (s.iterOf owner) (l.kindOf owner) none)).updateRow key
      (.failure errorPayload sequence ts)

/-- The outcome that a terminal event closes open rows with; the first one counts. -/
def terminate (s : State) (status : StepStatus) (ts : DateTime) : State :=
  { s with terminated := true, closeWith := s.closeWith.or (some (status, ts)) }

/-- What a row keeps of an error. -/
def failurePayload (errorMessage : String) (retryable tokensConsumed : Bool) (inputData : Option (HashMap String Json)) :
    Json :=
  .obj [("error_message", .str errorMessage), ("retryable", .bool retryable), ("tokens_consumed", .bool tokensConsumed),
    ("input_data", match inputData with | some m => .obj m.toPairs | none => .null)]

/-- What the projection takes from an event; other events leave it alone. -/
def absorb (l : Lookups) (s : State) (persisted : PersistedEvent) : State :=
  match persisted.event with
  | .tokenCreated token placeId .. => s.noteEntryArrival l placeId token persisted.timestamp
  | .transitionFired transitionId _ consumed produced read .. =>
    s.handleFire l transitionId consumed produced read persisted.sequence persisted.timestamp
  | .effectCompleted transitionId _ consumed produced _ _ read .. =>
    s.handleFire l transitionId consumed produced read persisted.sequence persisted.timestamp
  | .effectFailed transitionId _ _ _ _ errorMessage tokensConsumed inputData retryable =>
    s.handleFailure l transitionId (failurePayload errorMessage retryable tokensConsumed inputData)
      persisted.sequence persisted.timestamp
  | .netFailed .. => s.terminate .failed persisted.timestamp
  | .netCompleted .. | .netCancelled .. => s.terminate .skipped persisted.timestamp
  | _ => s

/-! ## Terminalization -/

/-- `close_open_rows`: what is still open after a terminal event gets its outcome. -/
def closeOpenRows (s : State) : State :=
  match s.closeWith with
  | none => s
  | some (status, ts) =>
    { s with
      rows := s.rows.mapValues (.close status ts) (StepExecutionRow.key_close status ts)
      dirty := ((s.rows.toList.filter (·.isOpen)).map (·.key)).foldl (fun dirty key => dirty.insert key) s.dirty }

/-- A node without a row gets a skipped one. -/
def finalizeNode (s : State) (iface : NodeInterface) : State :=
  if s.rows.toList.any (·.nodeId = iface.nodeId) then s
  else
    { s.touch (iface.nodeId, 0) with
      rows := s.rows.insert { StepExecutionRow.opened iface.nodeId 0 iface.kind none with status := .skipped } }

/-- Only a net that has ended skips nodes. -/
def finalizeUnreached (s : State) (registry : InterfaceRegistry) : State :=
  if s.terminated then registry.values.foldl finalizeNode s else s

/-- The rows that changed, and the state in which none is dirty. -/
def takeDirtyRows (s : State) : State × List StepExecutionRow :=
  ({ s with dirty := [] }, s.dirty.filterMap s.rows.get?)

end State

/-- The end of the net closes the rows that are open. -/
def StepExecutionRow.settle (closeWith : Option (StepStatus × DateTime)) (row : StepExecutionRow) : StepExecutionRow :=
  match closeWith with
  | some (status, ts) => row.close status ts
  | none => row

/-- Every row is closed, and none is added. -/
theorem State.get?_closeOpenRows (s : State) (key : String × Nat) :
    s.closeOpenRows.rows.get? key = (s.rows.get? key).map (.settle s.closeWith) := by
  unfold State.closeOpenRows
  cases s.closeWith with
  | none => exact Option.map_id'.symm ▸ rfl
  | some c => exact KeyedList.get?_mapValues _ _ (StepExecutionRow.key_close c.1 c.2) key

/-! ## What an operation leaves alone -/

/-- Two states are the same as far as a node is concerned. -/
structure SameNode (nodeId : String) (s s' : State) : Prop where
  rows : ∀ iter, s'.rows.get? (nodeId, iter) = s.rows.get? (nodeId, iter)
  next : s'.nextIter.lookup nodeId = s.nextIter.lookup nodeId
  active : s'.activeIter.lookup nodeId = s.activeIter.lookup nodeId
  seen : s'.seenEntryTokens.lookup nodeId = s.seenEntryTokens.lookup nodeId

namespace SameNode

variable {nodeId other : String} {l : Lookups} {s s' s'' : State}

theorem refl (nodeId : String) (s : State) : SameNode nodeId s s := ⟨fun _ => rfl, rfl, rfl, rfl⟩

theorem trans (h : SameNode nodeId s s') (h' : SameNode nodeId s' s'') : SameNode nodeId s s'' where
  rows iter := (h'.rows iter).trans (h.rows iter)
  next := h'.next.trans h.next
  active := h'.active.trans h.active
  seen := h'.seen.trans h.seen

theorem touch (nodeId : String) (s : State) (key : String × Nat) : SameNode nodeId s (s.touch key) :=
  ⟨fun _ => rfl, rfl, rfl, rfl⟩

variable {row : StepExecutionRow} {iter : Nat}

theorem get?_insert_of_ne {rows : KeyedList StepExecutionRow.key}
    (h : row.nodeId ≠ nodeId) : (rows.insert row).get? (nodeId, iter) = rows.get? (nodeId, iter) := by
  rw [KeyedList.get?_insert, if_neg]
  exact fun heq => h (congrArg (·.1) heq).symm

theorem openRow (h : row.nodeId ≠ nodeId) : SameNode nodeId s (s.openRow row) := by
  unfold State.openRow
  split
  · exact refl nodeId s
  · exact ⟨fun _ => get?_insert_of_ne h, rfl, rfl, rfl⟩

theorem updateRow {key : String × Nat} {f : StepExecutionRow → StepExecutionRow} (hf : ∀ row, (f row).key = row.key)
    (h : key.1 ≠ nodeId) : SameNode nodeId s (s.updateRow key f) := by
  unfold State.updateRow
  split
  · next row hrow =>
    refine ⟨fun _ => get?_insert_of_ne ?_, rfl, rfl, rfl⟩
    have hkey : (f row).key = key := (hf row).trans (KeyedList.key_of_get? hrow)
    exact fun heq => h (hkey ▸ heq)
  · exact refl nodeId s

variable {place : PlaceId} {token : Token}

theorem noteEntryArrival {ts : DateTime}
    (h : l.entryToNode.lookup place.name ≠ some nodeId) : SameNode nodeId s (s.noteEntryArrival l place token ts) := by
  unfold State.noteEntryArrival
  split
  · exact refl nodeId s
  · next other hother =>
    have hne : nodeId ≠ other := fun heq => h (heq ▸ hother)
    split
    · exact refl nodeId s
    · refine trans ?_ ((touch nodeId _ _).trans (openRow (fun heq => hne heq.symm)))
      exact ⟨fun _ => rfl, Finmap.lookup_insert_of_ne _ hne, Finmap.lookup_insert_of_ne _ hne,
        Finmap.lookup_insert_of_ne _ hne⟩

theorem noteInboundAtEntry {transitionId : TransitionId}
    {consumed : List (PlaceId × TokenId)} (h : l.entryToNode.lookup place.name ≠ some nodeId) :
    SameNode nodeId s (s.noteInboundAtEntry l place token transitionId consumed) := by
  unfold State.noteInboundAtEntry
  split
  · exact refl nodeId s
  · next other hother =>
    dsimp only
    split
    · exact refl nodeId s
    · split
      · exact refl nodeId s
      · exact (touch nodeId _ _).trans (updateRow (fun _ => rfl) fun heq => h (heq ▸ hother))

theorem openImplicitly (h : other ≠ nodeId) : SameNode nodeId s (s.openImplicitly l other iter) := by
  unfold State.openImplicitly
  split
  · exact refl nodeId s
  · exact ⟨fun _ => get?_insert_of_ne h, Finmap.lookup_insert_of_ne _ h.symm, Finmap.lookup_insert_of_ne _ h.symm,
      rfl⟩

theorem finalizeNode {iface : NodeInterface} (h : iface.nodeId ≠ nodeId) : SameNode nodeId s (s.finalizeNode iface) := by
  unfold State.finalizeNode
  split
  · exact refl nodeId s
  · exact ⟨fun _ => get?_insert_of_ne h, rfl, rfl, rfl⟩

theorem foldl_finalizeNode :
    ∀ (ifaces : List NodeInterface) {s : State}, s.rows.get? (nodeId, iter) = some row →
      SameNode nodeId s (ifaces.foldl State.finalizeNode s)
  | [], s, _ => refl nodeId s
  | iface :: ifaces, s, hrow => by
    have hnode : SameNode nodeId s (s.finalizeNode iface) := by
      by_cases heq : iface.nodeId = nodeId
      · have hrowNode : row.nodeId = iface.nodeId := (congrArg (·.1) (KeyedList.key_of_get? hrow)).trans heq.symm
        rw [State.finalizeNode, if_pos]
        · exact refl nodeId s
        · exact List.any_eq_true.mpr ⟨row, KeyedList.mem_of_get? hrow, decide_eq_true hrowNode⟩
      · exact finalizeNode heq
    exact hnode.trans (foldl_finalizeNode ifaces ((hnode.rows iter).trans hrow))

theorem finalizeUnreached (registry : InterfaceRegistry)
    (hrow : s.rows.get? (nodeId, iter) = some row) : SameNode nodeId s (s.finalizeUnreached registry) := by
  unfold State.finalizeUnreached
  split
  · exact foldl_finalizeNode registry.values hrow
  · exact refl nodeId s

end SameNode

/-- Two states are at the same point of the net's life. -/
structure SameEnd (s s' : State) : Prop where
  terminated : s'.terminated = s.terminated
  closeWith : s'.closeWith = s.closeWith

namespace SameEnd

variable {l : Lookups} {s s' s'' : State}

theorem refl (s : State) : SameEnd s s := ⟨rfl, rfl⟩

theorem trans (h : SameEnd s s') (h' : SameEnd s' s'') : SameEnd s s'' :=
  ⟨h'.terminated.trans h.terminated, h'.closeWith.trans h.closeWith⟩

theorem touch (s : State) (key : String × Nat) : SameEnd s (s.touch key) := ⟨rfl, rfl⟩

theorem openRow (s : State) (row : StepExecutionRow) : SameEnd s (s.openRow row) := by
  unfold State.openRow
  split <;> exact ⟨rfl, rfl⟩

theorem updateRow (s : State) (key : String × Nat) (f : StepExecutionRow → StepExecutionRow) :
    SameEnd s (s.updateRow key f) := by
  unfold State.updateRow
  split <;> exact ⟨rfl, rfl⟩

theorem noteEntryArrival (s : State) (place : PlaceId) (token : Token) (ts : DateTime) :
    SameEnd s (s.noteEntryArrival l place token ts) := by
  unfold State.noteEntryArrival
  split
  · exact refl s
  · next nodeId _ =>
    split
    · exact refl s
    · have hopen := openRow (State.touch { s with
        seenEntryTokens := s.seenEntryTokens.insert nodeId (token.id :: s.seen nodeId)
        nextIter := s.nextIter.insert nodeId (s.nextOf nodeId + 1)
        activeIter := s.activeIter.insert nodeId (s.nextOf nodeId) } (nodeId, s.nextOf nodeId))
        (.opened nodeId (s.nextOf nodeId) (l.kindOf nodeId) (some ts))
      exact ⟨hopen.terminated, hopen.closeWith⟩

theorem noteInboundAtEntry (s : State) (place : PlaceId) (token : Token) (transitionId : TransitionId)
    (consumed : List (PlaceId × TokenId)) : SameEnd s (s.noteInboundAtEntry l place token transitionId consumed) := by
  unfold State.noteInboundAtEntry
  split
  · exact refl s
  · dsimp only
    split
    · exact refl s
    · split
      · exact refl s
      · exact (touch ..).trans (updateRow ..)

theorem openImplicitly (s : State) (owner : String) (iter : Nat) : SameEnd s (s.openImplicitly l owner iter) := by
  unfold State.openImplicitly
  split <;> exact ⟨rfl, rfl⟩

theorem noteArrivals (transitionId : TransitionId) (consumed : List (PlaceId × TokenId)) (ts : DateTime)
    (produced : List (PlaceId × Token)) (s : State) : SameEnd s (s.noteArrivals l transitionId consumed produced ts) := by
  unfold State.noteArrivals
  induction produced generalizing s with
  | nil => exact refl s
  | cons e produced ih => exact ((noteEntryArrival ..).trans (noteInboundAtEntry ..)).trans (ih _)

theorem handleFire (s : State) (transitionId : TransitionId) (consumed : List (PlaceId × TokenId))
    (produced read : List (PlaceId × Token)) (sequence : Nat) (ts : DateTime) :
    SameEnd s (s.handleFire l transitionId consumed produced read sequence ts) := by
  unfold State.handleFire
  dsimp only
  split
  · exact noteArrivals ..
  · exact (noteArrivals ..).trans (((openImplicitly ..).trans (touch ..)).trans (updateRow ..))

theorem handleFailure (s : State) (transitionId : TransitionId) (payload : Json) (sequence : Nat) (ts : DateTime) :
    SameEnd s (s.handleFailure l transitionId payload sequence ts) := by
  unfold State.handleFailure
  split
  · exact refl s
  · exact ((touch ..).trans (openRow ..)).trans (updateRow ..)

end SameEnd

/-- `project_step_executions`: the rows of an event log. -/
def projectStepExecutions (events : List PersistedEvent) (registry : InterfaceRegistry) : List StepExecutionRow :=
  let s := events.foldl (State.absorb (.build registry)) .new
  (s.closeOpenRows.finalizeUnreached registry).rows.toList

end StepExecutions

end Mekhan

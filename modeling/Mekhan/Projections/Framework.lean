import Mathlib.Data.List.MinMax
import Mekhan.Domain.Events

/-!
# The projection driver

`service/src/projections/framework.rs` and `stream_events` of `service/src/petri/events.rs`, for a projection
whose `bootstrap` and `apply` are the fold of one step function.

What the world decides of an event's processing is in an `Attempt`: how many events of the net's log a
replay returns before it times out, and whether `bootstrap` and `apply` succeed. The rows of a net are
those of a fold state, or unknown after a failure in the middle of writing them.
-/

namespace Mekhan

namespace Projections

open Infra

/-! ## What a projection is -/

/-- A fold over the events of each net, and the rows it writes. -/
structure Projection (S : Type) where
  wantsNet : String → Bool
  init : S
  absorb : S → PersistedEvent → S

/-- Cached per-net fold state and the sequence of the last folded event. -/
structure NetEntry (S : Type) where
  lastApplied : Nat
  state : S

/-- `stream_events`: folds each event that the replay returns; the last sequence seen, or 0. -/
def streamEvents {S : Type} (history : List PersistedEvent) (onEvent : S → PersistedEvent → S) (init : S) :
    S × Nat :=
  history.foldl (fun acc ev => (onEvent acc.1 ev, max acc.2 ev.sequence)) (init, 0)

/-- The events after which a net writes no more rows. -/
def isTerminal : DomainEvent → Bool
  | .netCompleted .. | .netCancelled .. | .netFailed .. => true
  | _ => false

/-! ## The cache -/

/-- A cache by net id; the least recently used entry goes when it is full. -/
structure LruNetCache (V : Type) where
  cap : Nat
  tick : Nat
  map : List (String × Nat × V)

namespace LruNetCache

variable {V : Type}

def new (cap : Nat) : LruNetCache V := ⟨max cap 1, 0, []⟩

def get? (c : LruNetCache V) (key : String) : Option V := (c.map.lookup key).map (·.2)

def remove (c : LruNetCache V) (key : String) : LruNetCache V :=
  { c with map := c.map.filter (·.1 ≠ key) }

/-- The key of the least recently used entry. -/
def victim (c : LruNetCache V) : Option String := (c.map.argmin (·.2.1)).map (·.1)

/-- The entry used longest ago makes room. -/
def insert (c : LruNetCache V) (key : String) (value : V) : LruNetCache V :=
  let c :=
    if (c.map.lookup key).isNone && c.cap ≤ c.map.length then
      match c.victim with
      | some v => c.remove v
      | none => c
    else c
  { c with tick := c.tick + 1, map := (key, c.tick + 1, value) :: c.map.filter (·.1 ≠ key) }

/-- Inserts the entries that groups ended with, one group after the other. -/
def putBack (c : LruNetCache V) (finish : List String) (entry : String → Option V) : LruNetCache V :=
  finish.foldl (fun c key =>
    match entry key with
    | some v => c.insert key v
    | none => c) c

end LruNetCache

/-! ## Batches -/

/-- One batch's messages for a single net, in arrival order. -/
structure NetGroup (M : Type) where
  netId : String
  items : List M

/-- A message goes to the group of its net, or makes a new one. -/
def addToGroup {M : Type} (groups : List (NetGroup M)) (netId : String) (item : M) : List (NetGroup M) :=
  if groups.any (·.netId = netId) then
    groups.map fun g => if g.netId = netId then { g with items := g.items ++ [item] } else g
  else groups ++ [⟨netId, [item]⟩]

/-- One group for each net, in the order of first arrival. -/
def planBatch {M : Type} (msgs : List (String × M)) : List (NetGroup M) :=
  msgs.foldl (fun groups msg => addToGroup groups msg.1 msg.2) []

/-! ## One event -/

/-- What an event asks of the cached fold. -/
inductive StepAction where
  | bootstrap
  | skipDup
  | apply

/-- Events up to the last applied one are duplicates. -/
def classify (lastApplied : Option Nat) (seq : Nat) : StepAction :=
  match lastApplied with
  | none => .bootstrap
  | some la => if seq ≤ la then .skipDup else .apply

/-- What the world does while an event is processed. -/
structure Attempt where
  /-- How many events of the net's log a replay returns. -/
  history : Nat
  bootstraps : Bool
  applies : Bool

/-- The cached entry of a net, and the state that its rows are of, where that is known. -/
structure NetFold (S : Type) where
  entry : Option (NetEntry S)
  rows : Option S

section

variable {S : Type} (p : Projection S) (log : List PersistedEvent)

/-- An event that was folded: a terminal one drops the entry. -/
def folded (ev : PersistedEvent) (entry : NetEntry S) : NetFold S where
  entry := if isTerminal ev.event then none else some entry
  rows := some entry.state

/-- `apply` of an event to an entry; `none` where it fails. -/
def applyEvent (a : Attempt) (entry : NetEntry S) (ev : PersistedEvent) : Option (NetFold S) :=
  if a.applies then some (folded ev ⟨ev.sequence, p.absorb entry.state ev⟩) else none

/-- `step_event`; `none` where it fails. -/
def stepEvent (a : Attempt) (net : NetFold S) (ev : PersistedEvent) : Option (NetFold S) :=
  match net.entry, classify (net.entry.map (·.lastApplied)) ev.sequence with
  | some _, .skipDup => some { net with entry := if isTerminal ev.event then none else net.entry }
  | some entry, .apply => applyEvent p a entry ev
  | _, _ =>
    if a.bootstraps then
      let (state, lastApplied) := streamEvents (log.take a.history) p.absorb p.init
      -- where the replay lagged behind the live stream, the delivered event is folded now
      if lastApplied < ev.sequence then applyEvent p a ⟨lastApplied, state⟩ ev
      else some (folded ev ⟨lastApplied, state⟩)
    else none

/-- `process_group`: the entry and the rows that it leaves, and the events that it does not acknowledge,
from the first failure on. A failure drops the entry. -/
def processGroup (net : NetFold S) : List (PersistedEvent × Attempt) → NetFold S × List PersistedEvent
  | [] => (net, [])
  | (ev, a) :: items =>
    match stepEvent p log a net ev with
    | some net' => processGroup net' items
    | none => (⟨none, none⟩, ev :: items.map (·.1))

end

/-! ## The driver -/

/-- The driver and what it has left behind, net by net. -/
structure Driver (S : Type) where
  cache : LruNetCache (NetEntry S)
  rows : String → Option S
  /-- The events that are acknowledged; one that is delivered again is not until it is processed. -/
  acked : String → List PersistedEvent
  /-- How many events of the net were delivered. -/
  delivered : String → Nat

/-- What the driver meets: batches and crashes. -/
inductive DriverAction where
  /-- One batch: the messages in arrival order, and the nets in the order in which their groups finish. -/
  | batch (msgs : List (String × PersistedEvent × Attempt)) (finish : List String)
  /-- The cache starts empty after a restart. -/
  | restart

/-- The stream delivers the events of a net in order; one that it delivered it may deliver again. -/
def Deliverable (log : List PersistedEvent) : Nat → List PersistedEvent → Prop
  | _, [] => True
  | k, ev :: evs => ev ∈ log ∧ log.idxOf ev ≤ k ∧ Deliverable log (max k (log.idxOf ev + 1)) evs

instance decidableDeliverable (log : List PersistedEvent) : ∀ k evs, Decidable (Deliverable log k evs)
  | _, [] => isTrue trivial
  | k, ev :: evs =>
    have := decidableDeliverable log (max k (log.idxOf ev + 1)) evs
    inferInstanceAs (Decidable (_ ∧ _ ∧ _))

/-- How many events were delivered after some more. -/
def deliveredAfter (log : List PersistedEvent) (k : Nat) (evs : List PersistedEvent) : Nat :=
  evs.foldl (fun k ev => max k (log.idxOf ev + 1)) k

section

variable {S : Type} (p : Projection S) (logs : String → List PersistedEvent)

/-- Nothing is cached, and nothing is stored. -/
def Driver.start (cap : Nat) : Driver S := ⟨.new cap, fun _ => some p.init, fun _ => [], fun _ => 0⟩

def Driver.groupResult (d : Driver S) (g : NetGroup (PersistedEvent × Attempt)) : NetFold S × List PersistedEvent :=
  processGroup p (logs g.netId) ⟨d.cache.get? g.netId, d.rows g.netId⟩ g.items

/-- One turn of the loop of `run_projection`. Each group takes its net's entry out of the cache, and puts
back the one that it ends with. -/
def Driver.runBatch (d : Driver S) (msgs : List (String × PersistedEvent × Attempt)) (finish : List String) :
    Driver S :=
  let groups := planBatch (msgs.filter fun msg => p.wantsNet msg.1)
  let groupOf := fun netId => groups.find? (·.netId = netId)
  let taken := groups.foldl (fun c g => c.remove g.netId) d.cache
  { cache := taken.putBack finish fun netId => (groupOf netId).bind fun g => (d.groupResult p logs g).1.entry
    rows := fun netId =>
      match groupOf netId with
      | some g => (d.groupResult p logs g).1.rows
      | none => d.rows netId
    acked := fun netId =>
      match groupOf netId with
      | some g => (d.acked netId ++ g.items.map (·.1)).filter (· ∉ (d.groupResult p logs g).2)
      | none => d.acked netId
    delivered := fun netId =>
      match groupOf netId with
      | some g => deliveredAfter (logs netId) (d.delivered netId) (g.items.map (·.1))
      | none => d.delivered netId }

/-- The groups of a batch are folded one after the other, in any order. -/
def Driver.step (d : Driver S) : DriverAction → Option (Driver S)
  | .batch msgs finish =>
    let groups := planBatch (msgs.filter fun msg => p.wantsNet msg.1)
    if finish.Perm (groups.map (·.netId)) ∧
        ∀ g ∈ groups, Deliverable (logs g.netId) (d.delivered g.netId) (g.items.map (·.1)) then
      some (d.runBatch p logs msgs finish)
    else none
  | .restart => some { d with cache := .new d.cache.cap }

end

end Projections

end Mekhan

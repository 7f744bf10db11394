import Mekhan.Infra.Runs
import Mathlib.Data.Finset.Lattice.Fold

/-!
# The registry of live nets

`get_or_create` and `hibernate` of the registry for one net id, split where they wait, with the durable
event log of the net, its snapshot store, and the instances created so far: each with its own event store,
consumer, evaluation loop and cancellation token.

An event is what it does to the tokens of the net; a token id is drawn when the token is produced. A loop
goes on with a pass it is in when its token is cancelled: it looks at the token between passes only.

Left out are the deferred start of the consumer of a fresh net and redelivered events: a consumer takes each
event of the log once, in order.
-/

namespace Mekhan

namespace NetRegistry

open Infra

abbrev TokenId := Nat

/-! ## The log -/

/-- An event of the net's log, by the tokens it touches. -/
structure Event where
  /-- The instance whose firing it records; `none` for what others append. -/
  firedBy : Option Nat
  consumed : Finset TokenId
  produced : Finset TokenId
deriving DecidableEq

abbrev Marking := Finset TokenId

/-- `apply_event_to_marking` -/
def apply (m : Marking) (e : Event) : Marking := (m \ e.consumed) ∪ e.produced

/-- The projection of a log onto a marking. -/
def project (m : Marking) (log : List Event) : Marking := log.foldl apply m

/-! ## Instances -/

/-- An event store: its marking and the stream sequence it has applied, read and written under one lock. -/
structure Store where
  marking : Marking
  lastStreamSeq : Nat
deriving DecidableEq

/-- How far `get_or_create` has come with an instance. -/
inductive Creation where
  | built
  | seeded
  /-- The consumer replays; the history it found reaches to `target`. -/
  | hydrating (target : Nat)
  | hydrated
  | inserted
  | discarded
deriving DecidableEq

/-- How far `hibernate` has come with an instance. -/
inductive Hibernation where
  | none
  | removed
  | captured (snapshot : Store)
  | written
  | done
deriving DecidableEq

/-- Where the evaluation loop stands. -/
inductive LoopPhase where
  /-- At the `select!`. -/
  | waiting
  | passing
  /-- A transition is selected at the marking of a prefix of the log, and its effect may be running. -/
  | selected (read : Nat) (consumed : Finset TokenId)
  | stopped
deriving DecidableEq

/-- An engine's copy of the net. -/
structure Instance where
  store : Store
  creation : Creation
  hibernation : Hibernation
  loop : LoopPhase
  cancelled : Bool

/-- A call that found no instance has its stores. -/
def Instance.fresh : Instance := ⟨⟨∅, 0⟩, .built, .none, .waiting, false⟩

/-- The log, the registry's map and all copies that were ever made. -/
structure State where
  log : List Event
  map : Option Nat
  snapshot : Option Store
  instances : List Instance

/-- A net without a log and with nothing in memory. -/
def State.start : State := ⟨[], none, none, []⟩

/-- The tokens that a log has produced. -/
def producedIn (log : List Event) : Finset TokenId := log.foldr (fun e acc => e.produced ∪ acc) ∅

/-! ## Steps -/

/-- The steps of the registry and of its copies. -/
inductive Act where
  /-- A `get_or_create` that does not find the net builds its stores. -/
  | build
  /-- It seeds them from the snapshot, if there is one that it can use. -/
  | seed (i : Nat) (usable : Bool)
  | startConsumer (i : Nat)
  /-- The consumer of an instance applies the next event. -/
  | consume (i : Nat)
  | hydrate (i : Nat)
  /-- It takes the write lock: its instance is inserted and its loop spawned, or it is discarded. -/
  | insert (i : Nat)
  /-- `hibernate` removes the instance from the map, -/
  | remove
  | capture (i : Nat)
  | put (i : Nat) (ok : Bool)
  | cancel (i : Nat)
  | wake (i : Nat)
  /-- A pass reads the marking and selects a transition. -/
  | select (i : Nat) (consumed : Finset TokenId)
  | append (i : Nat) (produced : Finset TokenId)
  | quiesce (i : Nat)
  | stop (i : Nat)
  /-- Another writer appends: a created token, a removed one. -/
  | external (consumed produced : Finset TokenId)

/-- A step of instance `i`. -/
def State.update (s : State) (i : Nat) (f : Instance → Option Instance) : Option State :=
  (s.instances[i]?.bind f).map fun inst => { s with instances := s.instances.set i inst }

/-- The consumer runs from its start until the token is cancelled. -/
def Instance.consuming (inst : Instance) : Bool :=
  !inst.cancelled && match inst.creation with
    | .hydrating _ | .hydrated | .inserted => true
    | .built | .seeded | .discarded => false

/-- A snapshot seeds the store, if it can be used. -/
def seedStep (s : State) (usable : Bool) (inst : Instance) : Option Instance :=
  if inst.creation = .built then
    some { inst with
      store := if usable then s.snapshot.getD inst.store else inst.store
      creation := .seeded }
  else none

/-- The consumer applies the next event of the stream. -/
def consumeStep (s : State) (inst : Instance) : Option Instance :=
  if inst.consuming then
    s.log[inst.store.lastStreamSeq]?.map fun e =>
      { inst with store := ⟨apply inst.store.marking e, inst.store.lastStreamSeq + 1⟩ }
  else none

/-- Creation waits until the store has caught up. -/
def hydrateStep (inst : Instance) : Option Instance :=
  match inst.creation with
  | .hydrating target =>
    if target ≤ inst.store.lastStreamSeq then some { inst with creation := .hydrated } else none
  | _ => none

/-- Hibernation takes the store's state as it is. -/
def captureStep (inst : Instance) : Option Instance :=
  if inst.hibernation = .removed then some { inst with hibernation := .captured inst.store } else none

def cancelStep (inst : Instance) : Option Instance :=
  if inst.hibernation = .written then some { inst with hibernation := .done, cancelled := true } else none

def wakeStep (inst : Instance) : Option Instance :=
  if inst.creation = .inserted ∧ inst.loop = .waiting then some { inst with loop := .passing } else none

/-- A pass selects tokens that its marking has. -/
def selectStep (consumed : Finset TokenId) (inst : Instance) : Option Instance :=
  if inst.loop = .passing ∧ consumed ⊆ inst.store.marking then
    some { inst with loop := .selected inst.store.lastStreamSeq consumed }
  else none

def quiesceStep (inst : Instance) : Option Instance :=
  if inst.loop = .passing then some { inst with loop := .waiting } else none

/-- A cancelled loop stops where it waits. -/
def stopStep (inst : Instance) : Option Instance :=
  if inst.loop = .waiting ∧ inst.cancelled then some { inst with loop := .stopped } else none

/-- Every step of an instance, and those of the registry. -/
def step (s : State) : Act → Option State
  | .build => if s.map = none then some { s with instances := s.instances ++ [.fresh] } else none
  | .seed i usable => s.update i (seedStep s usable)
  | .startConsumer i => s.update i fun inst =>
      if inst.creation = .seeded then some { inst with creation := .hydrating s.log.length } else none
  | .consume i => s.update i (consumeStep s)
  | .hydrate i => s.update i hydrateStep
  | .insert i =>
    match s.instances[i]? with
    | none => none
    | some inst =>
      if inst.creation = .hydrated then
        match s.map with
        | some _ => some { s with
            instances := s.instances.set i { inst with creation := .discarded, cancelled := true } }
        | none => some { s with
            map := some i
            instances := s.instances.set i { inst with creation := .inserted } }
      else none
  | .remove =>
    match s.map with
    | none => none
    | some i => (s.update i fun inst => some { inst with hibernation := .removed }).map fun s' =>
        { s' with map := none }
  | .capture i => s.update i captureStep
  | .put i ok =>
    match s.instances[i]? with
    | some inst => match inst.hibernation with
      | .captured snapshot => some { s with
          snapshot := if ok then some snapshot else s.snapshot
          instances := s.instances.set i { inst with hibernation := .written } }
      | _ => none
    | none => none
  | .cancel i => s.update i cancelStep
  | .wake i => s.update i wakeStep
  | .select i consumed => s.update i (selectStep consumed)
  | .append i produced =>
    match s.instances[i]? with
    | some inst => match inst.loop with
      | .selected _ consumed =>
        -- ids are drawn anew
        if Disjoint produced (producedIn s.log) then some { s with
            log := s.log ++ [⟨some i, consumed, produced⟩]
            instances := s.instances.set i { inst with loop := .passing } }
        else none
      | _ => none
    | none => none
  | .quiesce i => s.update i quiesceStep
  | .stop i => s.update i stopStep
  | .external consumed produced =>
    if Disjoint produced (producedIn s.log) then
      some { s with log := s.log ++ [⟨none, consumed, produced⟩] }
    else none

end NetRegistry

end Mekhan

import Mekhan.Application.Errors

/-!
# Durable timers

`nats/src/clockmaster.rs`: timers are entries of a key-value bucket. `schedule` puts an entry under
the timer's key; the clockmaster lists the bucket at start-up, then watches it, and runs one task per
timer that sleeps, reads the entry again, publishes the signal and deletes the key.

Everything that awaits is a step of its own. The watch delivers exactly the updates made after it is
established. An aborted task does not come out of its sleep; a publish or delete it has sent may
still take effect. Time is not modelled: a sleep may end at any step. What the signal carries and
the workspace it is published under play no part here.
-/

namespace Mekhan

open Infra

structure TimerScheduleRequest where
  netId : String
  placeId : String
  correlationId : Uuid
  delayMs : Nat
  payload : Json
  workspaceId : String

structure TimerValue where
  netId : String
  placeId : String
  correlationId : Uuid
  expiresAtMs : Nat
  payload : Json
  workspaceId : String
  deriving DecidableEq

def timerKvKey (netId placeId : String) (correlationId : Uuid) : String :=
  "timer." ++ netId ++ "." ++ placeId ++ "." ++ correlationId.toText

namespace TimerScheduleRequest

def key (r : TimerScheduleRequest) : String := timerKvKey r.netId r.placeId r.correlationId

/-- The value `schedule` writes, at the time the clock shows. -/
def value (r : TimerScheduleRequest) (nowMs : Nat) : TimerValue where
  netId := r.netId
  placeId := r.placeId
  correlationId := r.correlationId
  expiresAtMs := nowMs + r.delayMs
  payload := r.payload
  workspaceId := r.workspaceId

end TimerScheduleRequest

/-- An entry of the bucket; every put has a revision of its own. -/
structure TimerEntry where
  revision : Nat
  value : TimerValue
  deriving DecidableEq

inductive BucketUpdate where
  | put (key : String) (entry : TimerEntry)
  | delete (key : String)

inductive StartUp where
  | starting
  /-- Listed; these keys are still to be read. -/
  | listing (remaining : List String)
  | watching
  deriving DecidableEq

inductive TaskState where
  | sleeping
  | firing
  | published
  | done
  deriving DecidableEq

structure TimerTask where
  key : String
  entry : TimerEntry
  state : TaskState
  aborted : Bool

/-- A key that a task deleted: the entry it was scheduled for and the entry that was there. -/
structure TimerDeletion where
  key : String
  own : TimerEntry
  removed : TimerEntry

/-- The bucket and the clockmaster on it, with what has been handed over, executed and deleted. -/
structure Clockmaster where
  bucket : MapOf String TimerEntry
  nextRevision : Nat
  phase : StartUp
  updates : List BucketUpdate
  timers : MapOf String Nat
  tasks : List TimerTask
  handed : List (String × TimerEntry)
  executed : List (String × TimerEntry)
  deletions : List TimerDeletion

inductive ClockAction where
  | schedule (request : TimerScheduleRequest) (nowMs : Nat)
  | cancel (key : String)
  | list (keys : List String)
  /-- The next listed key is read and its timer scheduled. -/
  | hydrate
  | hydrateFails
  | watchAll
  | observe
  | fire (task : Nat)
  | publish (task : Nat)
  | delete (task : Nat)
  /-- The task ends early: aborted, or its read, a timestamp or its publish failed. -/
  | stop (task : Nat)
  | restart

namespace Clockmaster

def empty : Clockmaster where
  bucket := ∅
  nextRevision := 1
  phase := .starting
  updates := []
  timers := ∅
  tasks := []
  handed := []
  executed := []
  deletions := []

/-- What the watch gets to see of an update. -/
def notify (s : Clockmaster) (u : BucketUpdate) : Clockmaster :=
  if s.phase = .watching then { s with updates := s.updates ++ [u] } else s

def put (s : Clockmaster) (key : String) (value : TimerValue) : Clockmaster :=
  let entry : TimerEntry := ⟨s.nextRevision, value⟩
  { s with bucket := s.bucket.insert key entry, nextRevision := s.nextRevision + 1 }.notify
    (.put key entry)

def remove (s : Clockmaster) (key : String) : Clockmaster :=
  { s with bucket := s.bucket.erase key }.notify (.delete key)

def setTask (s : Clockmaster) (t : Nat) (task : TimerTask) : Clockmaster :=
  { s with tasks := s.tasks.set t task }

def abort (s : Clockmaster) (t : Nat) : Clockmaster :=
  match s.tasks[t]? with
  | some task => s.setTask t { task with aborted := true }
  | none => s

/-- Aborts the task tracked for the key, if there is one. -/
def abortTracked (s : Clockmaster) (key : String) : Clockmaster :=
  match s.timers.lookup key with
  | some prev => { s with timers := s.timers.erase key }.abort prev
  | none => s

def scheduleTimerExecution (s : Clockmaster) (key : String) (entry : TimerEntry) : Clockmaster :=
  let s := s.abortTracked key
  { s with
    timers := s.timers.insert key s.tasks.length
    tasks := s.tasks ++ [⟨key, entry, .sleeping, false⟩]
    handed := s.handed ++ [(key, entry)] }

/-- Hydration of one key: nothing is scheduled when the entry is gone. -/
def hydrateKey (s : Clockmaster) (key : String) : Clockmaster :=
  match s.bucket.lookup key with
  | some entry => s.scheduleTimerExecution key entry
  | none => s

def handleUpdate (s : Clockmaster) : BucketUpdate → Clockmaster
  | .put key entry => s.scheduleTimerExecution key entry
  | .delete key => s.abortTracked key

/-- The check before firing: the entry is still there, with the expiry the task was scheduled for. -/
def checkEntry (s : Clockmaster) (task : TimerTask) : TaskState :=
  match s.bucket.lookup task.key with
  | some entry =>
    if entry.value.expiresAtMs = task.entry.value.expiresAtMs then .firing else .done
  | none => .done

/-- The delete after the publish. It names the key, not the entry. -/
def deleteKey (s : Clockmaster) (task : TimerTask) : Clockmaster :=
  match s.bucket.lookup task.key with
  | some entry =>
    let deletion : TimerDeletion := ⟨task.key, task.entry, entry⟩
    { s with deletions := s.deletions ++ [deletion] }.remove task.key
  | none => s.remove task.key

def step (s : Clockmaster) : ClockAction → Option Clockmaster
  | .schedule request nowMs => some (s.put request.key (request.value nowMs))
  | .cancel key => some (s.remove key)
  | .list keys =>
    if s.phase = .starting ∧ keys.toFinset = s.bucket.keys then some { s with phase := .listing keys }
    else none
  | .hydrate =>
    match s.phase with
    | .listing (key :: rest) => some { s.hydrateKey key with phase := .listing rest }
    | _ => none
  | .hydrateFails =>
    match s.phase with
    | .listing (_ :: rest) => some { s with phase := .listing rest }
    | _ => none
  | .watchAll =>
    if s.phase = .listing [] then some { s with phase := .watching, updates := [] } else none
  | .observe =>
    match s.phase, s.updates with
    | .watching, u :: rest => some ({ s with updates := rest }.handleUpdate u)
    | _, _ => none
  | .fire t =>
    match s.tasks[t]? with
    | some task =>
      if task.state = .sleeping ∧ task.aborted = false then
        some (s.setTask t { task with state := s.checkEntry task })
      else none
    | none => none
  | .publish t =>
    match s.tasks[t]? with
    | some task =>
      if task.state = .firing then
        some ({ s with executed := s.executed ++ [(task.key, task.entry)] }.setTask t
          { task with state := .published })
      else none
    | none => none
  | .delete t =>
    match s.tasks[t]? with
    | some task =>
      if task.state = .published then some ((s.deleteKey task).setTask t { task with state := .done })
      else none
    | none => none
  | .stop t =>
    match s.tasks[t]? with
    | some task => some (s.setTask t { task with state := .done })
    | none => none
  | .restart =>
    some { s with phase := .starting, updates := [], timers := ∅, tasks := [], handed := [] }

end Clockmaster

end Mekhan

import Mekhan.Infra.Runs
import Mekhan.Infra.Slots
import Mekhan.Sdk.ExecutorLifecycle

/-!
# Executor workers

`JobExecutor::execute` of `executor/crates/executor-worker/src/executor.rs` with the handler around it, the
`CancellationRegistry` and the listener of `cancel.rs`, and the acknowledgement of `apalis-nats`. Workers share the
directory of the run directories; each has a registry of its own. What `execute` does between two of its waits is one
step, the removal of a run directory is one step, and a crash takes every delivery that its worker has in hand. The
real `remove_dir_all` is not atomic across processes: a removal in progress may take a lock file made meanwhile.

A run directory stands for the execution id it is made of. Statuses that are not terminal, except `Accepted`, and
events are left out, and so is all that staging and the backend do besides ending.
-/

namespace Mekhan

namespace Worker

open Infra

/-! ## The cancellation registry -/

/-- The token by which each execution can be cancelled. -/
abbrev CancellationRegistry := String → Option Nat

namespace CancellationRegistry

def new : CancellationRegistry := fun _ => none

def register (registry : CancellationRegistry) (executionId : String) (token : Nat) : CancellationRegistry :=
  Function.update registry executionId (some token)

def deregister (registry : CancellationRegistry) (executionId : String) : CancellationRegistry :=
  Function.update registry executionId none

end CancellationRegistry

/-! ## Deliveries -/

/-- What the worker reads of a job. -/
structure ExecutionJob where
  executionId : String
  /-- `spec.backend` -/
  backend : String

/-- When the run's directory is removed. -/
inductive CleanupPolicy where
  | immediate
  | onSuccess
  | retain

def CleanupPolicy.shouldCleanup (policy : CleanupPolicy) (ending : ExecutionStatus) : Bool :=
  match policy with
  | immediate => true
  | onSuccess => ending = .completed
  | retain => false

def isTerminal : ExecutionStatus → Bool
  | .completed | .failed | .cancelled | .timedOut => true
  | .accepted | .running => false

/-- How far a delivery has come. -/
inductive Phase where
  | delivered
  | accepted
  | prepared
  /-- It has made the lock file, and has no token yet. -/
  | locked
  | registered (token : Nat)
  /-- Staging is done and the backend runs under the token. -/
  | running (token : Nat)
  /-- A terminal status is published: that of the run, or `Failed` for staging, where there is no ending. -/
  | reported (token : Nat) (ending : Option ExecutionStatus)
  | deregistered (ending : ExecutionStatus)
  /-- `execute` has returned after a report. -/
  | returned
  /-- `execute` has returned without a report. -/
  | turnedAway
  | acknowledged
  | crashed
  deriving DecidableEq

/-- A delivery of a job to a worker. -/
structure Delivery where
  worker : Nat
  job : ExecutionJob
  phase : Phase
  /-- A cancel for the execution was handled after `Accepted` was published and before a terminal status was. -/
  asked : Bool

/-- What stays fixed over a run. -/
structure Config where
  /-- Whether a worker has a backend for a kind of spec. -/
  supports : Nat → String → Bool
  cleanupPolicy : Nat → CleanupPolicy

/-- The workers with what they share. Jobs are told apart by their execution ids. -/
structure Fleet where
  deliveries : List Delivery
  /-- The executions whose run directory has a lock file. -/
  locks : List String
  registries : Nat → CancellationRegistry
  tokens : Nat
  cancelled : List Nat
  published : List (String × ExecutionStatus)
  /-- The jobs whose message has been acknowledged. -/
  acknowledged : List String

/-- What a delivery can do next. -/
inductive Move where
  | accept
  | reject
  | createDir (succeeds : Bool)
  /-- `create_new` on the lock file. It fails where there is one, and for any other reason. -/
  | lock (succeeds : Bool)
  | register
  | stage (succeeds : Bool)
  /-- The backend has returned and the outcome is reported. -/
  | finish (status : ExecutionStatus)
  | deregister
  | cleanUp (removed : Bool)
  | ack
  deriving DecidableEq

/-- What can happen in the fleet. -/
inductive Action where
  /-- The message of a job is delivered, for the first time or again. -/
  | deliver (worker : Nat) (job : ExecutionJob)
  | advance (delivery : Nat) (move : Move)
  /-- The listener of a worker handles a cancel. -/
  | cancel (worker : Nat) (executionId : String)
  | crash (worker : Nat)

namespace Phase

/-- `Accepted` is published, a terminal status is not. -/
def Awaiting : Phase → Prop
  | accepted | prepared | locked | registered _ | running _ => True
  | _ => False

instance : DecidablePred Awaiting
  | accepted | prepared | locked | registered _ | running _ => .isTrue trivial
  | delivered | reported _ _ | deregistered _ | returned | turnedAway | acknowledged | crashed => .isFalse id

/-- A crash ends everything that is not settled. -/
def crash : Phase → Phase
  | acknowledged => acknowledged
  | _ => crashed

end Phase

namespace Fleet

/-- Nothing is delivered yet. -/
def empty : Fleet where
  deliveries := []
  locks := []
  registries := fun _ => .new
  tokens := 0
  cancelled := []
  published := []
  acknowledged := []

def setPhase (s : Fleet) (i : Nat) (d : Delivery) (phase : Phase) : Fleet :=
  { s with deliveries := s.deliveries.set i { d with phase } }

/-- Publishes a status of the job. -/
def report (s : Fleet) (d : Delivery) (status : ExecutionStatus) : Fleet :=
  { s with published := s.published ++ [(d.job.executionId, status)] }

def onRegistry (s : Fleet) (worker : Nat) (f : CancellationRegistry → CancellationRegistry) : Fleet :=
  { s with registries := Function.update s.registries worker (f (s.registries worker)) }

/-- A move in the phase in which the code can make it. -/
def advance (cfg : Config) (s : Fleet) (i : Nat) (d : Delivery) (move : Move) : Option Fleet :=
  match move, d.phase with
  | .accept, .delivered => some ((s.report d .accepted).setPhase i d .accepted)
  | .reject, .accepted =>
    if cfg.supports d.worker d.job.backend then none else some ((s.report d .failed).setPhase i d .returned)
  | .createDir succeeds, .accepted =>
    if cfg.supports d.worker d.job.backend then
      some (s.setPhase i d (if succeeds then .prepared else .turnedAway))
    else none
  | .lock true, .prepared =>
    if d.job.executionId ∈ s.locks then none
    else some { s.setPhase i d .locked with locks := d.job.executionId :: s.locks }
  | .lock false, .prepared => some (s.setPhase i d .turnedAway)
  | .register, .locked =>
    some { (s.onRegistry d.worker (·.register d.job.executionId s.tokens)).setPhase i d (.registered s.tokens) with
      tokens := s.tokens + 1 }
  | .stage true, .registered token => some (s.setPhase i d (.running token))
  | .stage false, .registered token => some ((s.report d .failed).setPhase i d (.reported token none))
  | .finish status, .running token =>
    if isTerminal status then some ((s.report d status).setPhase i d (.reported token (some status))) else none
  | .deregister, .reported _ ending =>
    let s := s.onRegistry d.worker (·.deregister d.job.executionId)
    match ending with
    | none => some (s.setPhase i d .returned)
    | some status => some (s.setPhase i d (.deregistered status))
  | .cleanUp removed, .deregistered ending =>
    if (cfg.cleanupPolicy d.worker).shouldCleanup ending ∧ removed = true then
      some { s.setPhase i d .returned with locks := s.locks.filter (· ≠ d.job.executionId) }
    else some (s.setPhase i d .returned)
  -- The handler returns `Ok` whatever the status.
  | .ack, .returned | .ack, .turnedAway =>
    some { s.setPhase i d .acknowledged with acknowledged := d.job.executionId :: s.acknowledged }
  | _, _ => none

/-- The listener has handled a cancel while the delivery waited for its outcome. -/
def askDelivery (worker : Nat) (executionId : String) (d : Delivery) : Delivery :=
  if d.worker = worker ∧ d.job.executionId = executionId ∧ d.phase.Awaiting then { d with asked := true } else d

/-- A crash of the worker ends all it was doing. -/
def crashDelivery (worker : Nat) (d : Delivery) : Delivery :=
  if d.worker = worker then { d with phase := d.phase.crash } else d

/-- The steps of the fleet, one delivery or one worker at a time. -/
def step (cfg : Config) (s : Fleet) : Action → Option Fleet
  | .deliver worker job => some { s with deliveries := s.deliveries ++ [⟨worker, job, .delivered, false⟩] }
  | .advance i move => s.deliveries[i]?.bind fun d => s.advance cfg i d move
  | .cancel worker executionId =>
    some { s with
      cancelled := (s.registries worker executionId).toList ++ s.cancelled
      deliveries := s.deliveries.map (askDelivery worker executionId) }
  | .crash worker =>
    some { s with
      deliveries := s.deliveries.map (crashDelivery worker)
      registries := Function.update s.registries worker .new }

end Fleet

end Worker

end Mekhan

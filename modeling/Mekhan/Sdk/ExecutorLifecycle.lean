import Mekhan.Application.NetScheduling
import Mekhan.Service.PoolNet

/-!
# The lifecycle of an execution

`engine/sdk/src/components/executor_lifecycle.rs`: `executor_lifecycle` submits the jobs that come into
its inbox, tracks each by the status signals that carry its execution id, and sorts it into completed,
failed, timed out or cancelled; `effect_error_recovery_with` (`engine/sdk/src/context.rs`) takes care of
submissions and cancellations that went wrong. The telemetry events, which touch no job token, are left
out, and so are the forwarding transitions: what leaves a final place is up to the surrounding net.
-/

namespace Mekhan

open Infra
open Rhai (prop int increment)

inductive ExecutionStatus where
  | accepted
  | running
  | completed
  | failed
  | timedOut
  | cancelled
  deriving DecidableEq

namespace ExecutionStatus

def asStr : ExecutionStatus → String
  | accepted => "accepted"
  | running => "running"
  | completed => "completed"
  | failed => "failed"
  | timedOut => "timed_out"
  | cancelled => "cancelled"

def isTerminal : ExecutionStatus → Bool
  | accepted | running => false
  | completed | failed | timedOut | cancelled => true

end ExecutionStatus

inductive LifecyclePlace where
  | inbox
  | deadLetter
  | effectErrors
  | completed
  | sig (status : ExecutionStatus)
  | submitted
  | accepted
  | running
  | failed
  | timedOut
  | cancelRequest
  | cancelling
  | cancelled
  deriving DecidableEq

inductive LifecycleTransition where
  | submit
  | tAccepted
  | tRunning
  | tSuccess
  | tFailed
  | tFailedPreRun
  | tTimeout
  | tTimeoutPreRun
  | cancel
  | tCancelled
  | retryEffectErr
  | dlqEffectErr
  deriving DecidableEq

def LifecycleTransition.all : List LifecycleTransition :=
  [.submit, .tAccepted, .tRunning, .tSuccess, .tFailed, .tFailedPreRun, .tTimeout, .tTimeoutPreRun,
    .cancel, .tCancelled, .retryEffectErr, .dlqEffectErr]

instance : Fintype LifecycleTransition where
  elems := ⟨LifecycleTransition.all, by decide⟩
  complete t := by cases t <;> decide

inductive ClientAnswer where
  /-- The job runs under the id; for a cancellation the id is not used. -/
  | ok (executionId : String)
  | error (message : String) (retryable : Bool)
  deriving DecidableEq

namespace ExecutorLifecycle

open PoolNet (copy)

/-! ## Scripts -/

def isMeta (key : String) : Bool := key.startsWith "_"

/-- The `_`-prefixed leaves of a token. -/
def controlLeaves (job : RhaiMap) : RhaiMap := job.filter fun x => isMeta x.1

/-- `sig.execution_id == job.execution_id`. -/
def correlates : List RhaiMap → Bool
  | [job, sig] => Rhai.eq (prop sig "execution_id") (prop job "execution_id")
  | _ => false

/-- The script of `t_success`. -/
def done (job sig : RhaiMap) : RhaiMap :=
  copy ["job_id", "run", "execution_id"] job ++
    [("detail", prop sig "detail"),
      ("source", if prop sig "source" = .null then .str "" else prop sig "source"),
      ("status", prop sig "status")] ++ controlLeaves job

/-- The fields from which a failed job can be submitted again. -/
def resubmitKeys : List String :=
  ["retries", "max_retries", "run", "spec", "executor_namespace", "feed_chunks"]

/-- The script of `t_failed` and its sibling. -/
def failure (job sig : RhaiMap) : RhaiMap :=
  copy ["job_id", "execution_id"] job ++ [("detail", prop sig "detail")] ++ copy resubmitKeys job

/-- The script of `t_timeout` and its sibling. -/
def timeout (job _sig : RhaiMap) : RhaiMap :=
  copy ["job_id", "execution_id"] job ++ copy resubmitKeys job

/-- `err.inputs.job`; the scripts below fail on an error that has none. -/
def failedJob? (err : RhaiMap) : Option RhaiMap :=
  match prop err "inputs" with
  | .obj inputs =>
    match prop inputs "job" with
    | .obj job => some job
    | _ => none
  | _ => none

/-- `if job.contains(key) { job[key] } else { value }`. -/
def getOr (job : RhaiMap) (key : String) (value : Nat) : Json :=
  (job.lookup key).getD (int value)

def retryable (err : RhaiMap) : Bool := Rhai.eq (prop err "retryable") (.bool true)

/-- `job.retries = retries + 1`. -/
def retried (job : RhaiMap) : RhaiMap := ("retries", increment (getOr job "retries" 0)) :: job

/-- The dead letter of a job whose effect failed for good. -/
def dead (err job : RhaiMap) : RhaiMap :=
  copy ["job_id", "run"] job ++
    [("reason", prop err "error"), ("retries_exhausted", int 0)]

/-- `retries < max_retries`. -/
def retriesLeft (job : RhaiMap) : Bool := Rhai.lt (getOr job "retries" 0) (getOr job "max_retries" 3)

/-- `retries >= max_retries`. -/
def retriesSpent (job : RhaiMap) : Bool := Rhai.ge (getOr job "retries" 0) (getOr job "max_retries" 3)

/-! ## Transitions -/

/-- The `executor_submit` effect. -/
def submit (answer : ClientAnswer) : NetTransition LifecyclePlace RhaiMap where
  inputs := [.inbox]
  guard := fun _ => true
  outputs
    | [job] =>
      match answer with
      | .ok executionId => [(.submitted, ("execution_id", .str executionId) :: job)]
      | .error message retryable =>
        [(.effectErrors,
          errorToken message "executor_submit" "submit" retryable [("job", .obj job)])]
    | _ => []

/-- A job moves on at the signal that carries its execution id. -/
def track (source : LifecyclePlace) (status : ExecutionStatus) (target : LifecyclePlace)
    (script : RhaiMap → RhaiMap → RhaiMap) : NetTransition LifecyclePlace RhaiMap where
  inputs := [source, .sig status]
  guard := correlates
  outputs
    | [job, sig] => [(target, script job sig)]
    | _ => []

/-- The `executor_cancel` effect. -/
def cancel (answer : ClientAnswer) : NetTransition LifecyclePlace RhaiMap where
  inputs := [.running, .cancelRequest]
  guard := correlates
  outputs
    | [job, sig] =>
      match answer with
      | .ok _ => [(.cancelling, ("cancelled", .bool true) :: job)]
      | .error message retryable =>
        [(.effectErrors, errorToken message "executor_cancel" "cancel" retryable
          [("job", .obj job), ("sig", .obj sig)])]
    | _ => []

def retryEffectErr : NetTransition LifecyclePlace RhaiMap where
  inputs := [.effectErrors]
  guard
    | [err] => retryable err && (failedJob? err).any retriesLeft
    | _ => false
  outputs
    | [err] => (failedJob? err).toList.map fun job => (.inbox, retried job)
    | _ => []

def dlqEffectErr : NetTransition LifecyclePlace RhaiMap where
  inputs := [.effectErrors]
  guard
    | [err] => !retryable err || (failedJob? err).any retriesSpent
    | _ => false
  outputs
    | [err] => (failedJob? err).toList.map fun job => (.deadLetter, dead err job)
    | _ => []

end ExecutorLifecycle

open ExecutorLifecycle in
/-- `executor_lifecycle`, with the answer the next call of the client gets. -/
def executorLifecycle (answer : ClientAnswer) :
    LifecycleTransition → NetTransition LifecyclePlace RhaiMap
  | .submit => submit answer
  | .tAccepted => track .submitted .accepted .accepted fun job _ => job
  | .tRunning => track .accepted .running .running fun job _ => job
  | .tSuccess => track .running .completed .completed done
  | .tFailed => track .running .failed .failed failure
  | .tFailedPreRun => track .accepted .failed .failed failure
  | .tTimeout => track .running .timedOut .timedOut timeout
  | .tTimeoutPreRun => track .accepted .timedOut .timedOut timeout
  | .cancel => cancel answer
  | .tCancelled => track .cancelling .cancelled .cancelled fun job _ => job
  | .retryEffectErr => retryEffectErr
  | .dlqEffectErr => dlqEffectErr

namespace ExecutorLifecycle

/-! ## What a firing does -/

/-- The transitions on a status: the places they take a job from and to, and the script. -/
inductive Moves : LifecycleTransition → LifecyclePlace → ExecutionStatus → LifecyclePlace →
    (RhaiMap → RhaiMap → RhaiMap) → Prop
  | accepted : Moves .tAccepted .submitted .accepted .accepted fun job _ => job
  | running : Moves .tRunning .accepted .running .running fun job _ => job
  | success : Moves .tSuccess .running .completed .completed done
  | failed : Moves .tFailed .running .failed .failed failure
  | failedPreRun : Moves .tFailedPreRun .accepted .failed .failed failure
  | timeout : Moves .tTimeout .running .timedOut .timedOut timeout
  | timeoutPreRun : Moves .tTimeoutPreRun .accepted .timedOut .timedOut timeout
  | cancelled : Moves .tCancelled .cancelling .cancelled .cancelled fun job _ => job

section

variable {t : LifecycleTransition} {source target : LifecyclePlace} {status : ExecutionStatus}
  {script : RhaiMap → RhaiMap → RhaiMap}

theorem Moves.executionId (h : Moves t source status target script) (job sig : RhaiMap) :
    prop (script job sig) "execution_id" = prop job "execution_id" := by
  cases h <;> rfl

theorem Moves.transition (h : Moves t source status target script) (answer : ClientAnswer) :
    executorLifecycle answer t = track source status target script := by
  cases h <;> rfl

end

/-- The firings of the net, by the tokens they consume and produce. -/
inductive Fires (answer : ClientAnswer) : LifecycleTransition →
    List (LifecyclePlace × RhaiMap) → List (LifecyclePlace × RhaiMap) → Prop
  | submit {job : RhaiMap} {executionId : String} (hanswer : answer = .ok executionId) :
      Fires answer .submit [(.inbox, job)]
        [(.submitted, ("execution_id", .str executionId) :: job)]
  | submitError {job : RhaiMap} {message : String} {retryable : Bool}
      (hanswer : answer = .error message retryable) :
      Fires answer .submit [(.inbox, job)] [(.effectErrors,
        errorToken message "executor_submit" "submit" retryable [("job", .obj job)])]
  | track {t : LifecycleTransition} {source target : LifecyclePlace} {status : ExecutionStatus}
      {script : RhaiMap → RhaiMap → RhaiMap} {job sig : RhaiMap}
      (hmoves : Moves t source status target script)
      (hid : Rhai.eq (prop sig "execution_id") (prop job "execution_id")) :
      Fires answer t [(source, job), (.sig status, sig)] [(target, script job sig)]
  | cancel {job sig : RhaiMap} {executionId : String} (hanswer : answer = .ok executionId)
      (hid : Rhai.eq (prop sig "execution_id") (prop job "execution_id")) :
      Fires answer .cancel [(.running, job), (.cancelRequest, sig)]
        [(.cancelling, ("cancelled", .bool true) :: job)]
  | cancelError {job sig : RhaiMap} {message : String} {retryable : Bool}
      (hanswer : answer = .error message retryable) :
      Fires answer .cancel [(.running, job), (.cancelRequest, sig)] [(.effectErrors,
        errorToken message "executor_cancel" "cancel" retryable
          [("job", .obj job), ("sig", .obj sig)])]
  | retryEffectErr {err job : RhaiMap} (hjob : failedJob? err = some job)
      (hleft : retriesLeft job = true) :
      Fires answer .retryEffectErr [(.effectErrors, err)] [(.inbox, retried job)]
  | dlqEffectErr {err : RhaiMap} :
      Fires answer .dlqEffectErr [(.effectErrors, err)]
        ((failedJob? err).toList.map fun job => (.deadLetter, dead err job))

theorem fires_of_fire {answer : ClientAnswer} {t : LifecycleTransition} {tokens : List RhaiMap}
    (hlen : tokens.length = (executorLifecycle answer t).inputs.length)
    (hguard : (executorLifecycle answer t).guard tokens = true) :
    Fires answer t ((executorLifecycle answer t).inputs.zip tokens)
      ((executorLifecycle answer t).outputs tokens) := by
  cases t with
  | submit =>
    obtain ⟨job, rfl⟩ := List.length_eq_one_iff.mp hlen
    cases answer with
    | ok executionId => exact .submit rfl
    | error message retryable => exact .submitError rfl
  | cancel =>
    obtain ⟨job, sig, rfl⟩ := List.length_eq_two.mp hlen
    cases answer with
    | ok executionId => exact .cancel rfl hguard
    | error message retryable => exact .cancelError rfl
  | retryEffectErr =>
    obtain ⟨err, rfl⟩ := List.length_eq_one_iff.mp hlen
    obtain ⟨-, hany⟩ := (Bool.and_eq_true _ _).mp hguard
    obtain ⟨job, hjob, hleft⟩ := (Option.any_eq_true _ _).mp hany
    have houtputs : (executorLifecycle answer .retryEffectErr).outputs [err] =
        [(.inbox, retried job)] := by
      simp [executorLifecycle, retryEffectErr, hjob]
    rw [houtputs]
    exact .retryEffectErr hjob hleft
  | dlqEffectErr =>
    obtain ⟨err, rfl⟩ := List.length_eq_one_iff.mp hlen
    exact .dlqEffectErr
  | tAccepted =>
    obtain ⟨job, sig, rfl⟩ := List.length_eq_two.mp hlen
    exact .track .accepted hguard
  | tRunning =>
    obtain ⟨job, sig, rfl⟩ := List.length_eq_two.mp hlen
    exact .track .running hguard
  | tSuccess =>
    obtain ⟨job, sig, rfl⟩ := List.length_eq_two.mp hlen
    exact .track .success hguard
  | tFailed =>
    obtain ⟨job, sig, rfl⟩ := List.length_eq_two.mp hlen
    exact .track .failed hguard
  | tFailedPreRun =>
    obtain ⟨job, sig, rfl⟩ := List.length_eq_two.mp hlen
    exact .track .failedPreRun hguard
  | tTimeout =>
    obtain ⟨job, sig, rfl⟩ := List.length_eq_two.mp hlen
    exact .track .timeout hguard
  | tTimeoutPreRun =>
    obtain ⟨job, sig, rfl⟩ := List.length_eq_two.mp hlen
    exact .track .timeoutPreRun hguard
  | tCancelled =>
    obtain ⟨job, sig, rfl⟩ := List.length_eq_two.mp hlen
    exact .track .cancelled hguard

end ExecutorLifecycle

end Mekhan

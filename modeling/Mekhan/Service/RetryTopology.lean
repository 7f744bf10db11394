import Mekhan.Application.NetScheduling
import Mekhan.Sdk.ExecutorLifecycle

/-!
# The retry policy of an automated step

`service/src/compiler/rhai_gen.rs`: `build_retry_topology` takes what the lifecycle has put into failed
and timed out, and submits it again as long as there are retries left, at once or after a delay;
otherwise the job is exhausted, which an error handler deals with or else fails the net. The timers of
`nats/src/clockmaster.rs` are a place of their own here: a timer that is scheduled is a token there
until it fires.
-/

namespace Mekhan

open Infra
open Rhai (prop int increment)

inductive BackoffKind where
  | immediate
  | fixed
  | exponential
  deriving DecidableEq

structure RetryPolicy where
  maxRetries : Nat
  backoff : BackoffKind
  baseDelayMs : Nat
  /-- A `u32`. -/
  maxFits : maxRetries < 2 ^ 32

/-- What `build_retry_topology` is called with. -/
structure RetryNode where
  policy : RetryPolicy
  errorHandled : Bool
  /-- The id of the place that the timers fire into. -/
  retrySignal : String
  display : Json → String

inductive StepPlace where
  | lifecycle (place : LifecyclePlace)
  | failure
  | failureLog
  | retryTimer
  | retryTimerScheduled
  | armed
  | retryFire
  | error
  deriving DecidableEq

inductive StepTransition where
  | lifecycle (t : LifecycleTransition)
  | onFailed
  | onTimeout
  | logFailure
  | retry
  | retryArm
  | retrySchedule
  | retryReinject
  | exhausted
  | exhaustedDeadend
  deriving DecidableEq

namespace RetryTopology

open ExecutorLifecycle (failedJob?)
open PoolNet (copy)

variable (node : RetryNode)

/-! ## Scripts -/

def field (value : Json) (key : String) : Json := (value.get? key).getD .null

/-- The `msg` of `on_failed`. -/
def failureMessage (detail : Json) : String :=
  let exitCode :=
    match field detail "outcome" with
    | .obj outcome =>
      match outcome.lookup "exit_code" with
      | some code => " (exit code " ++ node.display code ++ ")"
      | none => ""
    | _ => ""
  let stderr :=
    match field detail "stderr_tail" with
    | .str tail => if tail = "" then "" else ": " ++ tail
    | _ => ""
  "Automated step failed" ++ exitCode ++ stderr

def failureKeys : List String :=
  ["job_id", "run", "retries", "max_retries", "spec", "executor_namespace", "feed_chunks"]

def failure (reason : String) (e : RhaiMap) : RhaiMap := copy failureKeys e ++ [("reason", .str reason)]

def logEntry (message : String) (detail : RhaiMap) : RhaiMap :=
  [("level", .str "error"), ("source", .str "executor"), ("message", .str message),
    ("detail", .obj detail)]

def resubmit (f : RhaiMap) : RhaiMap :=
  [("job_id", prop f "job_id"), ("run", increment (prop f "run")),
    ("retries", increment (prop f "retries"))] ++
    copy ["max_retries", "spec", "executor_namespace", "feed_chunks"] f

/-- `x << y` on `i64`: bits that are shifted out are lost, and nothing is left from 64 on. -/
def shiftLeft (x : Int) (y : Nat) : Int := if y < 64 then (x * 2 ^ y).bmod (2 ^ 64) else 0

/-- The delay before the retry; a base that is no `i64` is a float, on which `<<` fails. -/
def delay (f : RhaiMap) : Option Json :=
  match node.policy.backoff with
  | .exponential =>
    match int node.policy.baseDelayMs, prop f "retries" with
    | .num base, .num retries =>
      match base.asI64, retries.asU64 with
      | some base, some retries => some (.num (.ofInt (shiftLeft base retries)))
      | _, _ => none
    | _, _ => none
  | _ => some (Rhai.dynamicToJsonValue (int node.policy.baseDelayMs))

def timer (delayMs : Json) (f : RhaiMap) : RhaiMap :=
  [("delay_ms", delayMs), ("target_place_id", .str node.retrySignal), ("payload", .obj (resubmit f))]

/-- `f.retries < f.max_retries`. -/
def retriesLeft : List RhaiMap → Bool
  | [f] => Rhai.lt (prop f "retries") (prop f "max_retries")
  | _ => false

/-- `f.retries >= f.max_retries`. -/
def retriesSpent : List RhaiMap → Bool
  | [f] => Rhai.ge (prop f "retries") (prop f "max_retries")
  | _ => false

/-! ## Transitions -/

def onFailed : NetTransition StepPlace RhaiMap where
  inputs := [.lifecycle .failed]
  guard := fun _ => true
  outputs
    | [e] =>
      [(.failure, failure "failed" e),
        (.failureLog, logEntry (failureMessage node (prop e "detail"))
          (copy ["execution_id", "run", "retries"] e ++ [("executor", prop e "detail")]))]
    | _ => []

def onTimeout : NetTransition StepPlace RhaiMap where
  inputs := [.lifecycle .timedOut]
  guard := fun _ => true
  outputs
    | [e] =>
      [(.failure, failure "timed_out" e),
        (.failureLog, logEntry "Automated step timed out" (copy ["execution_id", "run", "retries"] e))]
    | _ => []

/-- The `process_log_message` effect; what it puts out is dropped. -/
def logFailure : NetTransition StepPlace RhaiMap where
  inputs := [.failureLog]
  guard := fun _ => true
  outputs := fun _ => []

def retry : NetTransition StepPlace RhaiMap where
  inputs := [.failure]
  guard := retriesLeft
  outputs
    | [f] => [(.lifecycle .inbox, resubmit f)]
    | _ => []

def retryArm : NetTransition StepPlace RhaiMap where
  inputs := [.failure]
  guard := retriesLeft
  outputs
    | [f] => (delay node f).toList.map fun delayMs => (.retryTimer, timer node delayMs f)
    | _ => []

/-- The `timer_schedule` effect. It fails for good on a delay that is no `u64`. -/
def retrySchedule (answer : ClientAnswer) : NetTransition StepPlace RhaiMap where
  inputs := [.retryTimer]
  guard := fun _ => true
  outputs
    | [timer] =>
      let failed (message : String) (retryable : Bool) :=
        [(.lifecycle .effectErrors, errorToken message "timer_schedule" "retry_schedule" retryable
          [("timer", .obj timer)])]
      match prop timer "delay_ms", prop timer "payload" with
      | .num (.posInt _), .obj payload =>
        match answer with
        | .ok correlationId =>
          [(.retryTimerScheduled,
              [("timer_correlation_id", .str correlationId), ("scheduled", .bool true)] ++ timer),
            (.armed, payload)]
        | .error message retryable => failed message retryable
      | _, _ => failed "Missing delay_ms in timer input" false
    | _ => []

def retryReinject : NetTransition StepPlace RhaiMap where
  inputs := [.retryFire]
  guard := fun _ => true
  outputs
    | [j] => [(.lifecycle .inbox, j)]
    | _ => []

def exhausted : NetTransition StepPlace RhaiMap where
  inputs := [.failure]
  guard := retriesSpent
  outputs
    | [f] => [(.error, f)]
    | _ => []

def exhaustedDeadend : NetTransition StepPlace RhaiMap where
  inputs := [.failure]
  guard := retriesSpent
  outputs := fun _ => []

/-- `build_retry_topology` on top of `executor_lifecycle`. -/
def stepNet (answer : ClientAnswer) : StepTransition → Option (NetTransition StepPlace RhaiMap)
  | .lifecycle t => some ((executorLifecycle answer t).rename .lifecycle)
  | .onFailed => some (onFailed node)
  | .onTimeout => some onTimeout
  | .logFailure => some logFailure
  | .retry => if node.policy.backoff = .immediate then some retry else none
  | .retryArm => if node.policy.backoff = .immediate then none else some (retryArm node)
  | .retrySchedule => if node.policy.backoff = .immediate then none else some (retrySchedule answer)
  | .retryReinject => if node.policy.backoff = .immediate then none else some retryReinject
  | .exhausted => if node.errorHandled then some exhausted else none
  | .exhaustedDeadend => if node.errorHandled then none else some exhaustedDeadend

/-- Whether the script of a firing fails, which fails the net. -/
def throws : StepTransition → List RhaiMap → Bool
  | .lifecycle .dlqEffectErr, [err] => (failedJob? err).isNone
  | .retryArm, [f] => (delay node f).isNone
  | .exhaustedDeadend, _ => true
  | _, _ => false

/-! ## What a firing does -/

abbrev JobToken := Traced RhaiMap

/-- The token after a script, of the same job. -/
def JobToken.next (x : JobToken) (colour : RhaiMap) : JobToken := ⟨colour, x.origin⟩

/-- The firings of the net whose scripts do not fail, by the tokens they consume and produce. -/
inductive StepFires (answer : ClientAnswer) : StepTransition →
    List (StepPlace × JobToken) → List (StepPlace × JobToken) → Prop
  | submit {x : JobToken} {executionId : String} (hanswer : answer = .ok executionId) :
      StepFires answer (.lifecycle .submit) [(.lifecycle .inbox, x)]
        [(.lifecycle .submitted, x.next (("execution_id", .str executionId) :: x.colour))]
  | submitError {x : JobToken} {message : String} {retryable : Bool}
      (hanswer : answer = .error message retryable) :
      StepFires answer (.lifecycle .submit) [(.lifecycle .inbox, x)]
        [(.lifecycle .effectErrors, x.next (errorToken message "executor_submit" "submit" retryable
          [("job", .obj x.colour)]))]
  | track {t : LifecycleTransition} {source target : LifecyclePlace} {status : ExecutionStatus}
      {script : RhaiMap → RhaiMap → RhaiMap} {x y : JobToken}
      (hmoves : ExecutorLifecycle.Moves t source status target script) :
      StepFires answer (.lifecycle t) [(.lifecycle source, x), (.lifecycle (.sig status), y)]
        [(.lifecycle target, x.next (script x.colour y.colour))]
  | cancel {x y : JobToken} :
      StepFires answer (.lifecycle .cancel) [(.lifecycle .running, x), (.lifecycle .cancelRequest, y)]
        [(.lifecycle .cancelling, x.next (("cancelled", .bool true) :: x.colour))]
  | cancelError {x y : JobToken} {message : String} {retryable : Bool} :
      StepFires answer (.lifecycle .cancel) [(.lifecycle .running, x), (.lifecycle .cancelRequest, y)]
        [(.lifecycle .effectErrors, x.next (errorToken message "executor_cancel" "cancel" retryable
          [("job", .obj x.colour), ("sig", .obj y.colour)]))]
  | retryEffectErr {x : JobToken} {job : RhaiMap} (hjob : failedJob? x.colour = some job)
      (hleft : ExecutorLifecycle.retriesLeft job = true) :
      StepFires answer (.lifecycle .retryEffectErr) [(.lifecycle .effectErrors, x)]
        [(.lifecycle .inbox, x.next (ExecutorLifecycle.retried job))]
  | dlqEffectErr {x : JobToken} {job : RhaiMap} (hjob : failedJob? x.colour = some job) :
      StepFires answer (.lifecycle .dlqEffectErr) [(.lifecycle .effectErrors, x)]
        [(.lifecycle .deadLetter, x.next (ExecutorLifecycle.dead x.colour job))]
  | normalise {t : StepTransition} {source : LifecyclePlace} {reason : String} {x : JobToken}
      {log : RhaiMap} (hsource : t = .onFailed ∧ source = .failed ∨ t = .onTimeout ∧ source = .timedOut) :
      StepFires answer t [(.lifecycle source, x)]
        [(.failure, x.next (failure reason x.colour)), (.failureLog, x.next log)]
  | logFailure {x : JobToken} : StepFires answer .logFailure [(.failureLog, x)] []
  | retry {x : JobToken} (hleft : retriesLeft [x.colour] = true) :
      StepFires answer .retry [(.failure, x)] [(.lifecycle .inbox, x.next (resubmit x.colour))]
  | retryArm {x : JobToken} {delayMs : Json} (hbackoff : node.policy.backoff ≠ .immediate)
      (hleft : retriesLeft [x.colour] = true) (hdelay : delay node x.colour = some delayMs) :
      StepFires answer .retryArm [(.failure, x)]
        [(.retryTimer, x.next (timer node delayMs x.colour))]
  | retrySchedule {x : JobToken} {delayMs : Nat} {payload : RhaiMap} {correlationId : String}
      (hanswer : answer = .ok correlationId) (hdelay : prop x.colour "delay_ms" = int delayMs)
      (hpayload : prop x.colour "payload" = .obj payload) :
      StepFires answer .retrySchedule [(.retryTimer, x)]
        [(.retryTimerScheduled, x.next ([("timer_correlation_id", .str correlationId),
          ("scheduled", .bool true)] ++ x.colour)), (.armed, x.next payload)]
  | retryScheduleError {x : JobToken} {err : RhaiMap}
      (hfailed : (∃ message retryable, answer = .error message retryable) ∨
        (∀ n, prop x.colour "delay_ms" ≠ int n) ∨ ∀ payload, prop x.colour "payload" ≠ .obj payload) :
      StepFires answer .retrySchedule [(.retryTimer, x)] [(.lifecycle .effectErrors, x.next err)]
  | retryReinject {x : JobToken} :
      StepFires answer .retryReinject [(.retryFire, x)] [(.lifecycle .inbox, x.next x.colour)]
  | exhausted {x : JobToken} (hspent : retriesSpent [x.colour] = true) :
      StepFires answer .exhausted [(.failure, x)] [(.error, x.next x.colour)]

variable {node}

variable {answer : ClientAnswer} {tokens : List JobToken}

theorem stepFires_of_lifecycle {t : LifecycleTransition}
    (hlen : tokens.length = (executorLifecycle answer t).inputs.length)
    (hguard : (executorLifecycle answer t).guard (tokens.map Traced.colour) = true)
    (hthrows : throws node (.lifecycle t) (tokens.map Traced.colour) = false) :
    StepFires node answer (.lifecycle t)
      ((tracedNet ((executorLifecycle answer t).rename .lifecycle)).inputs.zip tokens)
      ((tracedNet ((executorLifecycle answer t).rename .lifecycle)).outputs tokens) := by
  cases t with
  | submit =>
    obtain ⟨x, rfl⟩ := List.length_eq_one_iff.mp hlen
    cases answer with
    | ok executionId => exact .submit rfl
    | error message retryable => exact .submitError rfl
  | cancel =>
    obtain ⟨x, y, rfl⟩ := List.length_eq_two.mp hlen
    cases answer with
    | ok executionId => exact .cancel
    | error message retryable => exact .cancelError
  | retryEffectErr =>
    obtain ⟨x, rfl⟩ := List.length_eq_one_iff.mp hlen
    obtain ⟨-, hany⟩ := (Bool.and_eq_true _ _).mp hguard
    obtain ⟨job, hjob, hleft⟩ := (Option.any_eq_true _ _).mp hany
    have houtputs : (tracedNet ((executorLifecycle answer .retryEffectErr).rename
        StepPlace.lifecycle)).outputs [x] =
          [(.lifecycle .inbox, x.next (ExecutorLifecycle.retried job))] := by
      simp [tracedNet, NetTransition.rename, executorLifecycle, ExecutorLifecycle.retryEffectErr,
        hjob, JobToken.next]
    rw [houtputs]
    exact .retryEffectErr hjob hleft
  | dlqEffectErr =>
    obtain ⟨x, rfl⟩ := List.length_eq_one_iff.mp hlen
    have hsome : (failedJob? x.colour).isNone = false := hthrows
    obtain ⟨job, hjob⟩ := Option.isSome_iff_exists.mp
      (by simpa using hsome : (failedJob? x.colour).isSome = true)
    have houtputs : (tracedNet ((executorLifecycle answer .dlqEffectErr).rename
        StepPlace.lifecycle)).outputs [x] =
          [(.lifecycle .deadLetter, x.next (ExecutorLifecycle.dead x.colour job))] := by
      simp [tracedNet, NetTransition.rename, executorLifecycle, ExecutorLifecycle.dlqEffectErr,
        hjob, JobToken.next]
    rw [houtputs]
    exact .dlqEffectErr hjob
  | tAccepted =>
    obtain ⟨x, y, rfl⟩ := List.length_eq_two.mp hlen
    exact .track .accepted
  | tRunning =>
    obtain ⟨x, y, rfl⟩ := List.length_eq_two.mp hlen
    exact .track .running
  | tSuccess =>
    obtain ⟨x, y, rfl⟩ := List.length_eq_two.mp hlen
    exact .track .success
  | tFailed =>
    obtain ⟨x, y, rfl⟩ := List.length_eq_two.mp hlen
    exact .track .failed
  | tFailedPreRun =>
    obtain ⟨x, y, rfl⟩ := List.length_eq_two.mp hlen
    exact .track .failedPreRun
  | tTimeout =>
    obtain ⟨x, y, rfl⟩ := List.length_eq_two.mp hlen
    exact .track .timeout
  | tTimeoutPreRun =>
    obtain ⟨x, y, rfl⟩ := List.length_eq_two.mp hlen
    exact .track .timeoutPreRun
  | tCancelled =>
    obtain ⟨x, y, rfl⟩ := List.length_eq_two.mp hlen
    exact .track .cancelled

theorem stepFires_of_schedule (x : JobToken) : StepFires node answer .retrySchedule [(.retryTimer, x)]
      ((tracedNet (retrySchedule answer)).outputs [x]) := by
  by_cases hok : (∃ n, prop x.colour "delay_ms" = int n) ∧
      ∃ payload, prop x.colour "payload" = .obj payload
  · obtain ⟨⟨n, hdelay⟩, payload, hpayload⟩ := hok
    cases answer with
    | ok correlationId =>
      have houtputs : (tracedNet (retrySchedule (.ok correlationId))).outputs [x] =
          [(.retryTimerScheduled, x.next ([("timer_correlation_id", .str correlationId),
            ("scheduled", .bool true)] ++ x.colour)), (.armed, x.next payload)] := by
        simp [tracedNet, retrySchedule, hdelay, hpayload, int, JobToken.next]
      rw [houtputs]
      exact .retrySchedule rfl hdelay hpayload
    | error message retryable =>
      have houtputs : (tracedNet (retrySchedule (.error message retryable))).outputs [x] =
          [(.lifecycle .effectErrors, x.next (errorToken message "timer_schedule" "retry_schedule"
            retryable [("timer", .obj x.colour)]))] := by
        simp [tracedNet, retrySchedule, hdelay, hpayload, int, JobToken.next]
      rw [houtputs]
      exact .retryScheduleError (Or.inl ⟨message, retryable, rfl⟩)
  · have houtputs : (tracedNet (retrySchedule answer)).outputs [x] =
        [(.lifecycle .effectErrors, x.next (errorToken "Missing delay_ms in timer input"
          "timer_schedule" "retry_schedule" false [("timer", .obj x.colour)]))] := by
      simp only [tracedNet, retrySchedule, List.map_cons, List.map_nil]
      split
      · next n payload hdelay hpayload => exact absurd ⟨⟨n, hdelay⟩, payload, hpayload⟩ hok
      · rfl
    rw [houtputs]
    refine .retryScheduleError (Or.inr ?_)
    rcases not_and_or.mp hok with hdelay | hpayload
    · exact Or.inl (not_exists.mp hdelay)
    · exact Or.inr (not_exists.mp hpayload)

theorem stepFires_of_fire {t : StepTransition}
    {transition : NetTransition StepPlace RhaiMap} (hnet : stepNet node answer t = some transition)
    (hlen : tokens.length = transition.inputs.length)
    (hguard : transition.guard (tokens.map Traced.colour) = true)
    (hthrows : throws node t (tokens.map Traced.colour) = false) :
    StepFires node answer t ((tracedNet transition).inputs.zip tokens)
      ((tracedNet transition).outputs tokens) := by
  cases t with
  | lifecycle t =>
    cases hnet
    exact stepFires_of_lifecycle (by simpa [NetTransition.rename] using hlen) hguard hthrows
  | onFailed =>
    cases hnet
    obtain ⟨x, rfl⟩ := List.length_eq_one_iff.mp hlen
    exact .normalise (Or.inl ⟨rfl, rfl⟩)
  | onTimeout =>
    cases hnet
    obtain ⟨x, rfl⟩ := List.length_eq_one_iff.mp hlen
    exact .normalise (Or.inr ⟨rfl, rfl⟩)
  | logFailure =>
    cases hnet
    obtain ⟨x, rfl⟩ := List.length_eq_one_iff.mp hlen
    exact .logFailure
  | retry =>
    simp only [stepNet, Option.ite_none_right_eq_some, Option.some.injEq] at hnet
    obtain ⟨-, rfl⟩ := hnet
    obtain ⟨x, rfl⟩ := List.length_eq_one_iff.mp hlen
    exact .retry hguard
  | retryArm =>
    simp only [stepNet, Option.ite_none_left_eq_some, Option.some.injEq] at hnet
    obtain ⟨hbackoff, rfl⟩ := hnet
    obtain ⟨x, rfl⟩ := List.length_eq_one_iff.mp hlen
    have hsome : (delay node x.colour).isNone = false := hthrows
    obtain ⟨delayMs, hdelay⟩ := Option.isSome_iff_exists.mp
      (by simpa using hsome : (delay node x.colour).isSome = true)
    have houtputs : (tracedNet (retryArm node)).outputs [x] =
        [(.retryTimer, x.next (timer node delayMs x.colour))] := by
      simp [tracedNet, retryArm, hdelay, JobToken.next]
    rw [houtputs]
    exact .retryArm hbackoff hguard hdelay
  | retrySchedule =>
    simp only [stepNet, Option.ite_none_left_eq_some, Option.some.injEq] at hnet
    obtain ⟨-, rfl⟩ := hnet
    obtain ⟨x, rfl⟩ := List.length_eq_one_iff.mp hlen
    exact stepFires_of_schedule x
  | retryReinject =>
    simp only [stepNet, Option.ite_none_left_eq_some, Option.some.injEq] at hnet
    obtain ⟨-, rfl⟩ := hnet
    obtain ⟨x, rfl⟩ := List.length_eq_one_iff.mp hlen
    exact .retryReinject
  | exhausted =>
    simp only [stepNet, Option.ite_none_right_eq_some, Option.some.injEq] at hnet
    obtain ⟨-, rfl⟩ := hnet
    obtain ⟨x, rfl⟩ := List.length_eq_one_iff.mp hlen
    exact .exhausted hguard
  | exhaustedDeadend => exact absurd hthrows (by simp [throws])

end RetryTopology

end Mekhan

import Mekhan.Application.NetScheduling

/-!
# The net of a Timeout node

`service/src/compiler/lower/timeout.rs` with the cancel fan-out of `lower/mod.rs`: `lower_timeout` forks
the input into a timer and the body; `t_body_done` and `t_timeout` race for the token of the scheduled
timer. A timeout puts a token into `cancel_pulse`, and for every body child that can be cancelled a
drain transition takes its in-flight token as long as there is a pulse. The body is whatever consumes
`body_in` and produces `body_out`.
-/

namespace Mekhan

open Infra
open Rhai (prop)

inductive CancelKind where
  | human
  | executor
  | scheduler
  | timer
  | subWorkflow
  deriving DecidableEq

/-- Where a body child keeps the token of what it has in flight. -/
structure CancellableInFlight where
  childId : String
  kind : CancelKind
  correlationField : String
  extraField : Option String

structure TimeoutNode where
  id : String
  /-- `duration_ms_expr` on the input. -/
  durationMs : RhaiMap → Json
  /-- The body children that can be cancelled. -/
  cancellable : List CancellableInFlight

inductive TimeoutPlace where
  | input
  | timerData
  | bodyIn
  | bodyOut
  | scheduled
  | sigTimeout
  | cancelInput
  | cancelled
  | cancelPulse
  | doneOut
  | timeoutOut
  | effectErrors
  /-- The in-flight place of a body child; the first ones are those that can be cancelled. -/
  | inFlight (child : Nat)
  | drainInput (child : Nat)
  | drainDone (child : Nat)
  deriving DecidableEq

inductive TimeoutTransition where
  | tPrep
  | tSchedule
  | tBodyDone
  | tCancel
  | tTimeout
  | tDrain (child : Nat)
  | tDrainEffect (child : Nat)
  deriving DecidableEq

abbrev TimeoutToken := Stamped (Traced RhaiMap)

abbrev TimeoutMarking := Queues TimeoutPlace TimeoutToken

namespace TimeoutNet

variable (node : TimeoutNode)

def childId (child : Nat) : String :=
  ((node.cancellable[child]?).map CancellableInFlight.childId).getD ""

def transitionId : TimeoutTransition → TransitionId
  | .tPrep => ⟨"t_" ++ node.id ++ "_prep"⟩
  | .tSchedule => ⟨"t_" ++ node.id ++ "_schedule"⟩
  | .tBodyDone => ⟨"t_" ++ node.id ++ "_body_done"⟩
  | .tCancel => ⟨"t_" ++ node.id ++ "_cancel"⟩
  | .tTimeout => ⟨"t_" ++ node.id ++ "_timeout"⟩
  | .tDrain child => ⟨"t_" ++ node.id ++ "_drain_" ++ childId node child⟩
  | .tDrainEffect child => ⟨"t_" ++ node.id ++ "_drain_" ++ childId node child ++ "_effect"⟩

/-! ## Transitions -/

def timerInput (input : RhaiMap) : RhaiMap :=
  [("delay_ms", node.durationMs input),
    ("target_place_id", .str ("p_" ++ node.id ++ "_sig_timeout")), ("payload", .obj input)]

def tPrep : QueueTransition TimeoutPlace RhaiMap where
  inputs := [.take .input]
  guard := fun _ => true
  outputs := fun bound => bound.flatten.flatMap fun input =>
    [(.timerData, timerInput node input), (.bodyIn, input)]

/-- An effect that adds its result to the token it takes. -/
def effect (answer : EffectAnswer) (handlerId port : String) (t : TimeoutTransition)
    (source target : TimeoutPlace) : QueueTransition TimeoutPlace RhaiMap where
  inputs := [.take source]
  guard := fun _ => true
  outputs := fun bound => bound.flatten.map fun token =>
    match answer with
    | .ok result => (target, result ++ token)
    | .error message retryable =>
      (.effectErrors,
        errorToken message handlerId (transitionId node t).name retryable [(port, .obj token)])

/-- The `timer_schedule` effect; its result has the new timer's correlation id. -/
def tSchedule (answer : EffectAnswer) : QueueTransition TimeoutPlace RhaiMap :=
  effect node answer "timer_schedule" "timer" .tSchedule .timerData .scheduled

def cancelRequest (scheduled : RhaiMap) : RhaiMap :=
  [("timer_correlation_id", prop scheduled "timer_correlation_id"),
    ("target_place_id", prop scheduled "target_place_id")]

def tBodyDone : QueueTransition TimeoutPlace RhaiMap where
  inputs := [.take .bodyOut, .take .scheduled]
  guard := fun _ => true
  outputs
    | [[bodyOut], [scheduled]] => [(.doneOut, bodyOut), (.cancelInput, cancelRequest scheduled)]
    | _ => []

/-- The `timer_cancel` effect. -/
def tCancel (answer : EffectAnswer) : QueueTransition TimeoutPlace RhaiMap :=
  effect node answer "timer_cancel" "timer" .tCancel .cancelInput .cancelled

/-- `scheduled.payload`. -/
def payload (scheduled : RhaiMap) : RhaiMap :=
  match prop scheduled "payload" with
  | .obj entries => entries
  | _ => []

def tTimeout : QueueTransition TimeoutPlace RhaiMap where
  inputs := [.take .scheduled, .take .sigTimeout]
  guard := fun _ => true
  outputs
    | [[scheduled], [_]] =>
      [(.timeoutOut, payload scheduled),
        (.cancelPulse, [("timer_correlation_id", prop scheduled "timer_correlation_id")])]
    | _ => []

/-- The input of the cancel effect for a child's token. -/
def cancelShape (spec : CancellableInFlight) (token : RhaiMap) : RhaiMap :=
  let corr := prop token spec.correlationField
  match spec.kind with
  | .human => [("task_id", corr), ("place", .str ("p_" ++ spec.childId ++ "_signal"))]
  | .executor => [("execution_id", corr)]
  | .scheduler => [("scheduler_job_id", corr)]
  | .timer => [("timer_correlation_id", corr),
      ("target_place_id", prop token (spec.extraField.getD "target_place_id"))]
  | .subWorkflow => [("child_net_id", corr), ("reason", .str "parent_timeout")]

/-- `handler_id` of the cancel effect. -/
def handlerId : CancelKind → String
  | .human => "human_cancel"
  | .executor => "executor_cancel"
  | .scheduler => "scheduler_cancel"
  | .timer => "timer_cancel"
  | .subWorkflow => "subworkflow_cancel"

/-- `default_input_port` of the cancel effect. -/
def inputPort : CancelKind → String
  | .human => "task"
  | .executor | .scheduler => "job"
  | .timer => "timer"
  | .subWorkflow => "cancel"

/-- Consumes the child's in-flight token as long as there is a pulse. -/
def tDrain (child : Nat) : QueueTransition TimeoutPlace RhaiMap where
  inputs := [.take (.inFlight child), .peek .cancelPulse]
  guard := fun _ => true
  outputs
    | [[token], [_]] =>
      (node.cancellable[child]?).toList.map fun spec =>
        (.drainInput child, cancelShape spec token)
    | _ => []

def ofKind (f : CancelKind → String) (child : Nat) : String :=
  ((node.cancellable[child]?).map fun spec => f spec.kind).getD ""

def tDrainEffect (answer : EffectAnswer) (child : Nat) : QueueTransition TimeoutPlace RhaiMap :=
  effect node answer (ofKind node handlerId child) (ofKind node inputPort child) (.tDrainEffect child)
    (.drainInput child) (.drainDone child)

/-! ## The net -/

/-- `lower_timeout` and `apply_timeout_cancel_fanouts`, with the answer the next effect call gets. -/
def timeoutNet (answer : EffectAnswer) : TimeoutTransition → QueueTransition TimeoutPlace RhaiMap
  | .tPrep => tPrep node
  | .tSchedule => tSchedule node answer
  | .tBodyDone => tBodyDone
  | .tCancel => tCancel node answer
  | .tTimeout => tTimeout
  | .tDrain child => tDrain node child
  | .tDrainEffect child => tDrainEffect node answer child

def transitions : List TimeoutTransition :=
  [.tPrep, .tSchedule, .tBodyDone, .tCancel, .tTimeout] ++
    (List.range node.cancellable.length).flatMap fun child => [.tDrain child, .tDrainEffect child]

def selected (answer : EffectAnswer) (m : TimeoutMarking) : Option (TimeoutTransition × Best) :=
  selectCandidate (transitionId node) (fun t => traced (timeoutNet node answer t)) m
    (transitions node)

/-! ## What a firing does -/

/-- The firings at a marking, by the tokens they bind. -/
inductive Fires (m : TimeoutMarking) (answer : EffectAnswer) (now : DateTime) :
    TimeoutTransition → List TimeoutToken → TimeoutMarking → Prop
  | prep {l₁ l₂ : List TimeoutToken} {x : TimeoutToken} (hinput : m .input = l₁ ++ x :: l₂) :
      Fires m answer now .tPrep [x] (enqueue (Function.update m .input (l₁ ++ l₂))
        [(.timerData, ⟨⟨timerInput node x.colour.colour, x.colour.origin⟩, now⟩),
          (.bodyIn, ⟨x.colour, now⟩)])
  | schedule {l₁ l₂ : List TimeoutToken} {x y : TimeoutToken} {target : TimeoutPlace}
      (htimer : m .timerData = l₁ ++ x :: l₂) (hy : y.colour.origin = x.colour.origin)
      (htarget : target = .scheduled ∨ target = .effectErrors) :
      Fires m answer now .tSchedule [x] (enqueue (Function.update m .timerData (l₁ ++ l₂)) [(target, y)])
  | bodyDone {l₁ l₂ d₁ d₂ : List TimeoutToken} {x y z : TimeoutToken}
      (hbody : m .bodyOut = l₁ ++ x :: l₂) (hscheduled : m .scheduled = d₁ ++ y :: d₂) :
      Fires m answer now .tBodyDone [x, y]
        (enqueue (Function.update (Function.update m .bodyOut (l₁ ++ l₂)) .scheduled (d₁ ++ d₂))
          [(.doneOut, ⟨x.colour, now⟩), (.cancelInput, z)])
  | cancel {l₁ l₂ : List TimeoutToken} {x y : TimeoutToken} {target : TimeoutPlace}
      (hrequest : m .cancelInput = l₁ ++ x :: l₂)
      (htarget : target = .cancelled ∨ target = .effectErrors) :
      Fires m answer now .tCancel [x]
        (enqueue (Function.update m .cancelInput (l₁ ++ l₂)) [(target, y)])
  | timeout {l₁ l₂ d₁ d₂ : List TimeoutToken} {x y z w : TimeoutToken}
      (hscheduled : m .scheduled = l₁ ++ x :: l₂) (hsig : m .sigTimeout = d₁ ++ y :: d₂) :
      Fires m answer now .tTimeout [x, y]
        (enqueue (Function.update (Function.update m .scheduled (l₁ ++ l₂)) .sigTimeout (d₁ ++ d₂))
          [(.timeoutOut, z), (.cancelPulse, w)])
  | drain {child : Nat} {l₁ l₂ : List TimeoutToken} {x y : TimeoutToken}
      {out : List (TimeoutPlace × TimeoutToken)} (hflight : m (.inFlight child) = l₁ ++ x :: l₂)
      (hpulse : (m .cancelPulse).getLast? = some y) (hout : ∀ z ∈ out, z.1 = .drainInput child) :
      Fires m answer now (.tDrain child) [x, y]
        (enqueue (Function.update m (.inFlight child) (l₁ ++ l₂)) out)
  | drainEffect {child : Nat} {l₁ l₂ : List TimeoutToken} {x y : TimeoutToken}
      {target : TimeoutPlace} (hrequest : m (.drainInput child) = l₁ ++ x :: l₂)
      (htarget : target = .drainDone child ∨ target = .effectErrors) :
      Fires m answer now (.tDrainEffect child) [x]
        (enqueue (Function.update m (.drainInput child) (l₁ ++ l₂)) [(target, y)])

variable {node}

theorem effect_outputs (answer : EffectAnswer) (handlerId port : String) (t : TimeoutTransition)
    (source target : TimeoutPlace) (now : DateTime) (x : TimeoutToken) : ∃ (place : TimeoutPlace) (y : TimeoutToken),
      (place = target ∨ place = .effectErrors) ∧ y.colour.origin = x.colour.origin ∧
      (timed now (traced (effect node answer handlerId port t source target))).outputs [[x]] = [(place, y)] := by
  cases answer with
  | ok result =>
    exact ⟨target, ⟨⟨result ++ x.colour.colour, x.colour.origin⟩, now⟩, Or.inl rfl, rfl, rfl⟩
  | error message retryable =>
    exact ⟨.effectErrors, ⟨⟨errorToken message handlerId (transitionId node t).name retryable
      [(port, .obj x.colour.colour)], x.colour.origin⟩, now⟩, Or.inr rfl, rfl, rfl⟩

theorem fires_of_fire {m m' : TimeoutMarking} {answer : EffectAnswer} {now : DateTime}
    {t : TimeoutTransition} (h : (timed now (traced (timeoutNet node answer t))).fire? m = some m') :
    ∃ tokens, boundBy (timeoutNet node answer) m t = some tokens ∧ Fires node m answer now t tokens m' := by
  cases t with
  | tPrep =>
    obtain ⟨l₁, x, l₂, hinput, -, hb, rfl⟩ := QueueTransition.fire?_one_guarded rfl h
    exact ⟨[x], boundBy_of_binding hb, .prep hinput⟩
  | tSchedule =>
    obtain ⟨l₁, x, l₂, htimer, -, hb, rfl⟩ := QueueTransition.fire?_one_guarded rfl h
    obtain ⟨place, y, hplace, hy, hout⟩ := effect_outputs answer "timer_schedule"
      "timer" .tSchedule .timerData .scheduled now x
    have hout' : (timed now (traced (timeoutNet node answer .tSchedule))).outputs [[x]] =
      [(place, y)] := hout
    rw [hout']
    exact ⟨[x], boundBy_of_binding hb, .schedule htimer hy hplace⟩
  | tBodyDone =>
    obtain ⟨l₁, x, l₂, d₁, y, d₂, hbody, hscheduled, -, hb, rfl⟩ :=
      QueueTransition.fire?_two_guarded rfl (by decide) h
    exact ⟨[x, y], boundBy_of_binding hb, .bodyDone hbody hscheduled⟩
  | tCancel =>
    obtain ⟨l₁, x, l₂, hrequest, -, hb, rfl⟩ := QueueTransition.fire?_one_guarded rfl h
    obtain ⟨place, y, hplace, -, hout⟩ := effect_outputs answer "timer_cancel"
      "timer" .tCancel .cancelInput .cancelled now x
    have hout' : (timed now (traced (timeoutNet node answer .tCancel))).outputs [[x]] =
      [(place, y)] := hout
    rw [hout']
    exact ⟨[x], boundBy_of_binding hb, .cancel hrequest hplace⟩
  | tTimeout =>
    obtain ⟨l₁, x, l₂, d₁, y, d₂, hscheduled, hsig, -, hb, rfl⟩ :=
      QueueTransition.fire?_two_guarded rfl (by decide) h
    exact ⟨[x, y], boundBy_of_binding hb, .timeout hscheduled hsig⟩
  | tDrain child =>
    obtain ⟨l₁, x, l₂, y, hflight, hpulse, hb, rfl⟩ :=
      QueueTransition.fire?_take_peek rfl (by simp) h
    refine ⟨[x, y], boundBy_of_binding hb, .drain hflight hpulse fun z hz => ?_⟩
    cases hspec : node.cancellable[child]? with
    | none => simp [timed, traced, QueueTransition.comap, timeoutNet, tDrain, hspec] at hz
    | some spec =>
      simp [timed, traced, QueueTransition.comap, timeoutNet, tDrain, hspec] at hz
      rw [hz]
  | tDrainEffect child =>
    obtain ⟨l₁, x, l₂, hrequest, -, hb, rfl⟩ := QueueTransition.fire?_one_guarded rfl h
    obtain ⟨place, y, hplace, -, hout⟩ := effect_outputs answer (ofKind node handlerId child)
      (ofKind node inputPort child) (.tDrainEffect child) (.drainInput child) (.drainDone child) now x
    have hout' : (timed now (traced (timeoutNet node answer (.tDrainEffect child)))).outputs [[x]] =
      [(place, y)] := hout
    rw [hout']
    exact ⟨[x], boundBy_of_binding hb, .drainEffect hrequest hplace⟩

end TimeoutNet

end Mekhan

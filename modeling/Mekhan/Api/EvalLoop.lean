import Mekhan.Application.EvaluationLoop
import Mekhan.Infra.Runs

/-!
# Who evaluates a net, and when

The background loop of `spawn_net_evaluation_loop`, the other callers of `evaluate_until_quiescent` and
`drain_finalizers`, the evaluation lock between them and the wake-ups of the loop, for one net in Running
mode. What the evaluation reads and writes of the net is a parameter; `engineNet` is the net of the engine.

No append fails, and no pass ends with an error or a deferral.
-/

namespace Mekhan

namespace EvalLoop

variable {M T D : Type}

/-! ## The net -/

/-- What the firing of a selected transition comes to. `tokens` is the number of produced tokens of a
`TransitionFired`, and 0 for any other event. -/
inductive Firing (M : Type) where
  | fired (marking : M) (tokens : Nat)
  /-- Permanent or rejected; the events that record it are appended. -/
  | failed (marking : M)
  /-- A deferral or an error that is not permanent. -/
  | stopped

/-- What an evaluation reads and writes of a net. -/
structure Net (M T D : Type) where
  /-- `select_next_transition` in the normal phase -/
  select : M → Option T
  /-- `select_next_transition` in the finalizing phase -/
  finalizer : M → Option T
  /-- `check_terminal_state` finds a token. -/
  terminal : M → Bool
  /-- `fire_transition`, with what it draws, the marking that was read, the transition, and the marking
  that the events are appended to -/
  fire : D → M → T → M → Firing M
  /-- The `TokenCreated` of `create_token` -/
  create : D → M → M

/-! ## Passes -/

inductive Caller where
  /-- The background loop, 1000 steps at most. -/
  | loop
  | http (maxSteps : Nat)
  /-- One round of `drive_in_net_executor_cancel`. -/
  | terminate
  /-- The `drain_finalizers` of `terminate`. -/
  | drain

def Caller.maxSteps : Caller → Nat
  | loop => 1000
  | http n => if n = 0 then 1000 else n
  | terminate => 1000
  | drain => 0

/-- The part of an `EvaluateResult` that the callers look at besides the events. -/
structure Result where
  terminalReached : Bool
  failureReached : Bool

inductive Stage (M T : Type) where
  /-- At the top of the `while`. -/
  | look
  | fire (read : M) (transition : T)
  /-- At the top of the drain, with rounds left. -/
  | drain (rounds : Nat)
  | finalize (rounds : Nat) (read : M) (transition : T)
  | ended (result : Result)

structure Pass (M T : Type) where
  caller : Caller
  stepsLeft : Nat
  stage : Stage M T
  /-- The produced tokens of its `TransitionFired` events. -/
  tokens : Nat

inductive LoopPhase where
  /-- At the `select!`. -/
  | waiting
  | woken
  | passing
  /-- A terminal place or a failure was reported to the loop. -/
  | tearing
  | stopped
deriving DecidableEq

structure State (M T : Type) where
  marking : M
  /-- The stored permit of `eval_notify`. -/
  permit : Bool
  /-- The consumer applied an event that the consumer-to-eval bridge has not seen. -/
  applied : Bool
  /-- Calls of `notify_one` that are still to come, of `create_token` and of the HTTP handler. -/
  owed : Nat
  loop : LoopPhase
  pass : Option (Pass M T)
  /-- A transition failed permanently, or was rejected. -/
  failed : Bool
  /-- The NetCompleted, NetFailed or NetCancelled event is appended and the tasks of the net cancelled. -/
  tornDown : Bool

def State.start (marking : M) : State M T := ⟨marking, true, false, 0, .waiting, none, false, false⟩

def maxFinalizerSteps : Nat := 64

variable (net : Net M T D)

/-- The end of a pass: the lock is free, and the caller looks at the result. The loop returns to its wait
unless it has an outcome to report; the HTTP handler notifies once for each produced token. -/
def release (p : Pass M T) (r : Result) (s : State M T) : State M T :=
  match p.caller with
  | .loop => { s with pass := none, loop := if r.terminalReached || r.failureReached then .tearing else .waiting }
  | .http _ => { s with pass := none, owed := s.owed + p.tokens }
  | .terminate | .drain => { s with pass := none }

/-- One step of `evaluate_until_quiescent` or `drain_finalizers`. -/
def advance (d : D) (p : Pass M T) (s : State M T) : Option (State M T) :=
  match p.stage with
  | .look =>
    if p.stepsLeft = 0 then some { s with pass := some { p with stage := .ended ⟨false, false⟩ } }
    else match net.select s.marking with
      | none => some { s with pass := some { p with stage := .ended ⟨net.terminal s.marking, false⟩ } }
      | some t => some { s with pass := some { p with stage := .fire s.marking t } }
  | .fire read t => match net.fire d read t s.marking with
    | .fired m tokens => some { s with
        marking := m
        applied := true
        pass := some { p with stepsLeft := p.stepsLeft - 1, stage := .look, tokens := p.tokens + tokens } }
    | .failed m => some { s with
        marking := m
        applied := true
        failed := true
        pass := some { p with stage := .drain maxFinalizerSteps } }
    | .stopped => none
  | .drain rounds => match rounds, net.finalizer s.marking with
    | rounds + 1, some t => some { s with pass := some { p with stage := .finalize rounds s.marking t } }
    | _, _ => some { s with pass := some { p with stage := .ended ⟨false, true⟩ } }
  | .finalize rounds read t => match net.fire d read t s.marking with
    | .fired m tokens => some { s with
        marking := m
        applied := true
        pass := some { p with stage := .drain rounds, tokens := p.tokens + tokens } }
    | .failed m => some { s with
        marking := m
        applied := true
        failed := true
        pass := some { p with stage := .ended ⟨false, true⟩ } }
    | .stopped => none
  | .ended r => some (release p r s)

/-! ## Steps -/

inductive Act (D : Type) where
  /-- The append of `create_token`; its `notify_one` is still to come. -/
  | create (d : D)
  /-- A `notify_one` that was owed. -/
  | pulse
  /-- The bridge sees that the consumer applied something. -/
  | bridge
  | wake
  /-- The loop's `try_lock`. -/
  | tryLock
  /-- Another caller's `try_lock`, or the blocking `lock` of the drain. -/
  | call (c : Caller)
  /-- The next step of the pass that holds the lock. -/
  | advance (d : D)
  /-- The loop appends NetCompleted or NetFailed and cancels. -/
  | tearDown
  /-- `terminate` appends NetCancelled and hibernates the net. -/
  | cancel

def step (s : State M T) : Act D → Option (State M T)
  | .create d => some { s with marking := net.create d s.marking, applied := true, owed := s.owed + 1 }
  | .pulse => if s.owed = 0 then none else some { s with owed := s.owed - 1, permit := true }
  | .bridge => if s.applied then some { s with applied := false, permit := true } else none
  | .wake =>
    if s.loop = .waiting ∧ s.permit = true then some { s with loop := .woken, permit := false } else none
  | .tryLock =>
    if s.loop = .woken then
      match s.pass with
      | none => some { s with loop := .passing, pass := some ⟨.loop, Caller.loop.maxSteps, .look, 0⟩ }
      -- an empty result: the loop waits again
      | some _ => some { s with loop := .waiting }
    else none
  | .call c => match c, s.pass with
    | .loop, _ => none
    | .drain, none => some { s with pass := some ⟨.drain, 0, .drain maxFinalizerSteps, 0⟩ }
    | .drain, some _ => none
    | c, none => some { s with pass := some ⟨c, c.maxSteps, .look, 0⟩ }
    -- an empty result
    | _, some _ => some s
  | .advance d => s.pass.bind fun p => advance net d p s
  | .tearDown => if s.loop = .tearing then some { s with loop := .stopped, tornDown := true } else none
  | .cancel => some { s with tornDown := true }

/-! ## The engine -/

structure EngineDraw where
  draws : Draws
  created : DomainEvent

/-- The produced tokens of a `TransitionFired`. -/
def producedTokens : DomainEvent → Nat
  | .transitionFired _ _ _ produced _ _ _ => produced.length
  | _ => 0

/-- The net of an engine: its log, with selection by the projected marking. -/
def engineNet (fmt : EventFormat) (env : FiringEnv) (clock : Nat → DateTime) :
    Net Engine TransitionId EngineDraw where
  select e := env.topology.bind fun net =>
    (selectNextTransition env.executor net (e.advance env.topology).1 env.schemaRegistry none .normal).1
  finalizer e := env.topology.bind fun net =>
    (selectNextTransition env.executor net (e.advance env.topology).1 env.schemaRegistry none .finalizing).1
  terminal e := (checkTerminalState env.topology (e.advance env.topology).1).isSome
  fire d read t e :=
    match e.fire fmt env clock d.draws (read.advance env.topology).1 t with
    | (.ok event, e) => .fired e (producedTokens event.event)
    | (.error (.preDispatchRejected ..), e) => .failed e
    | (.error err, e) => if err.isPermanent then .failed e else .stopped
  create d e := { e with log := (e.log.append fmt clock d.created).2 }

end EvalLoop

end Mekhan

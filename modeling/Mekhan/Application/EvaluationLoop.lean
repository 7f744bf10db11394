import Mekhan.Application.Evaluation
import Mekhan.Application.Firing

/-!
# The evaluation loop

`evaluate_until_quiescent` and `drain_finalizers` of `application/src/evaluation.rs`, run by one
caller with nothing in between. `Engine` are the parts of a service that the loop changes.

A pass draws from the environment once for each firing (`EvalDraws`), and the clock is read by the
position of the event in the log.
-/

namespace Mekhan

open Infra

/-! ## The log -/

/-- The event store with the complete history since it was last reset, evicted events included. -/
structure Log where
  store : MemoryEventStore
  history : List PersistedEvent

namespace Log

variable (fmt : EventFormat) (clock : Nat → DateTime)

def append (event : DomainEvent) (l : Log) : PersistedEvent × Log :=
  let r := l.store.append fmt (clock l.history.length) event
  (r.1, ⟨r.2, l.history ++ [r.1]⟩)

def reset (l : Log) : Log := ⟨l.store.reset, []⟩

/-- The in-memory store as firings use it; `all_events` is the resident tail. -/
def repository : Store Log DomainEvent PersistedEvent where
  persist := append fmt clock
  events l := l.store.inner.tail
  content := PersistedEvent.event
  content_persist _ _ := rfl

end Log

/-- `events_from`: clamped to the resident tail. -/
def Inner.eventsFrom (g : Inner) (idx : Nat) : List PersistedEvent :=
  g.tail.drop (idx - g.baseCount)

/-! ## One advance -/

/-- `advance_marking` with nothing in between. -/
def advanceMarking (g : Inner) (cache : MarkingCache) : MarkingCache × Marking × MarkingDelta :=
  let rebuilt := projectOnto g.markingBase.1 g.markingBase.2.1
  let miss := (some (g.markingBase.2.2, rebuilt), rebuilt, MarkingDelta.rebuilt)
  match cache with
  | none => miss
  | some (cachedIdx, cachedMarking) =>
    if cachedIdx = g.len then (cache, cachedMarking, .unchanged)
    else
      match g.eventsFromChecked cachedIdx with
      | none => miss
      | some newEvents =>
        let folded := projectOnto cachedMarking newEvents
        (some (cachedIdx + newEvents.length, folded), folded, .applied newEvents)

theorem advanceMarking_eq_steps (g : Inner) (cache : MarkingCache) :
    ∃ n, ((fun r : Option (MarkingCache × AdvanceState) => r.bind fun c => advanceStep g c.1 c.2)^[n]
        (some (cache, .start))) = some ((advanceMarking g cache).1,
        .returned (advanceMarking g cache).2.1 (advanceMarking g cache).2.2) := by
  cases cache with
  | none => exact ⟨4, rfl⟩
  | some c =>
    obtain ⟨cachedIdx, cachedMarking⟩ := c
    by_cases hidx : cachedIdx = g.len
    · refine ⟨2, ?_⟩
      simp [advanceStep, advanceMarking, hidx]
    · cases hslice : g.eventsFromChecked cachedIdx with
      | none =>
        refine ⟨5, ?_⟩
        simp [advanceStep, advanceMarking, hidx, hslice]
      | some newEvents =>
        refine ⟨4, ?_⟩
        simp [advanceStep, advanceMarking, hidx, hslice, foldTarget]

/-! ## The engine -/

structure Engine where
  log : Log
  cachedState : MarkingCache
  bindingMemo : BindingMemo
  firing : FiringState

/-- What a pass draws from the environment. -/
structure EvalDraws where
  clock : Nat → DateTime
  draws : Nat → Draws
  finalizerDraws : Nat → Draws

namespace Engine

/-- The marking, with the memo reconciled from the delta that moved it. -/
def advance (topology : Option PetriNet) (e : Engine) : Marking × Engine :=
  let r := advanceMarking e.log.store.inner e.cachedState
  (r.2.1, { e with
    cachedState := r.1
    bindingMemo := reconcileBindingMemo e.bindingMemo topology r.2.2 })

variable (fmt : EventFormat) (env : FiringEnv)

def fire (clock : Nat → DateTime) (draws : Draws) (marking : Marking) (tid : TransitionId)
    (e : Engine) : Except ServiceError PersistedEvent × Engine :=
  let r := (fireTransition env draws marking tid).play (Log.repository fmt clock) e.firing e.log
  (r.result, { e with log := r.store, firing := r.state })

/-- `select_next_transition`, with the memo in the normal phase and without it in the drain. -/
def select (phase : SelectPhase) (marking : Marking) (e : Engine) :
    Except ServiceError (Option TransitionId) × Engine :=
  match env.topology with
  | none => (.error .noTopology, e)
  | some net =>
    match phase with
    | .normal =>
      let r := selectNextTransition env.executor net marking env.schemaRegistry
        (some e.bindingMemo) .normal
      (.ok r.1, { e with bindingMemo := r.2.getD e.bindingMemo })
    | .finalizing =>
      (.ok (selectNextTransition env.executor net marking env.schemaRegistry none .finalizing).1, e)

/-! ## Finalizers -/

def maxFinalizerSteps : Nat := 64

/-- The loop of `drain_finalizers`, with `steps` rounds left and `fired` so far. -/
def drainLoop (d : EvalDraws) : Nat → List PersistedEvent → Engine → List PersistedEvent × Engine
  | 0, fired, e => (fired, e)
  | steps + 1, fired, e =>
    let (marking, e) := e.advance env.topology
    match e.select env .finalizing marking with
    | (.ok (some tid), e) =>
      let idxBefore := e.log.store.inner.len
      match e.fire fmt env d.clock (d.finalizerDraws steps) marking tid with
      | (.ok event, e) => drainLoop d steps (fired ++ [event]) e
      | (.error _, e) => (fired ++ e.log.store.inner.eventsFrom idxBefore, e)
    | (_, e) => (fired, e)

def drainFinalizers (d : EvalDraws) (e : Engine) : List PersistedEvent × Engine :=
  drainLoop fmt env d maxFinalizerSteps [] e

end Engine

/-! ## The loop -/

structure TerminalReachedInfo where
  placeId : String
  exitCode : Option Json

structure FailureInfo where
  transitionId : TransitionId
  reason : String
  retryable : Bool

inductive EvaluateFinalState where
  | quiescent
  | limitReached

structure EvaluateResult where
  stepsExecuted : Nat
  transitionsFired : List (TransitionId × Nat)
  finalState : EvaluateFinalState
  events : List PersistedEvent
  terminalReached : Option TerminalReachedInfo
  failureReached : Option FailureInfo

/-- The result of a token in a terminal place: its exit code, or its whole data. -/
def exitCode : TokenColor → Option Json
  | .data data => some ((data.get? "exit_code").getD data)
  | .unit | .integer _ => none

/-- `check_terminal_state`: the first terminal place with a token. -/
def checkTerminalState (topology : Option PetriNet) (marking : Marking) :
    Option TerminalReachedInfo :=
  topology.bind fun net => net.terminalPlaces.findSome? fun p =>
    (marking.tokensAt p).head?.map fun token => ⟨p.name, exitCode token.color⟩

namespace Engine

variable (fmt : EventFormat) (env : FiringEnv)

/-- The end of a pass after a failure: the finalizers are drained. -/
def failPass (d : EvalDraws) (acc : EvaluateResult) (failure : FailureInfo) (e : Engine) :
    Except ServiceError EvaluateResult × Engine :=
  let (finalizerEvents, e) := e.drainFinalizers fmt env d
  (.ok { acc with
    finalState := .quiescent
    events := acc.events ++ finalizerEvents
    failureReached := some failure }, e)

def isRetryableFailure : ServiceError → Bool
  | .effectFailed _ _ _ retryable => retryable
  | _ => false

/-- The match on a failed firing; `idxBefore` is the extent of the log before it. -/
def settleFailure (d : EvalDraws) (acc : EvaluateResult) (tid : TransitionId) (idxBefore : Nat)
    (err : ServiceError) (e : Engine) : Except ServiceError EvaluateResult × Engine :=
  if err.isPermanent then
    failPass fmt env d { acc with events := acc.events ++ e.log.store.inner.eventsFrom idxBefore }
      ⟨tid, "Transition " ++ tid.name ++ ": " ++ err.display, isRetryableFailure err⟩ e
  else
    match err with
    | .preDispatchDeferred .. => (.ok { acc with finalState := .quiescent }, e)
    | .preDispatchRejected rejected hookName reason =>
      failPass fmt env d acc
        ⟨rejected, "Pre-dispatch hook '" ++ hookName ++ "' rejected transition " ++
          rejected.name ++ ": " ++ reason, false⟩ e
    | err => (.error err, e)

/-- The loop of `evaluate_until_quiescent`, with `steps` firings left. -/
def evaluateLoop (d : EvalDraws) : Nat → EvaluateResult → Engine →
    Except ServiceError EvaluateResult × Engine
  | 0, acc, e => (.ok { acc with finalState := .limitReached }, e)
  | steps + 1, acc, e =>
    let (marking, e) := e.advance env.topology
    match e.select env .normal marking with
    | (.error err, e) => (.error err, e)
    | (.ok none, e) =>
      (.ok { acc with
        finalState := .quiescent
        terminalReached := checkTerminalState env.topology marking }, e)
    | (.ok (some tid), e) =>
      let idxBefore := e.log.store.inner.len
      match e.fire fmt env d.clock (d.draws acc.stepsExecuted) marking tid with
      | (.ok event, e) =>
        evaluateLoop d steps
          { acc with
            stepsExecuted := acc.stepsExecuted + 1
            transitionsFired := acc.transitionsFired ++ [(tid, event.sequence)]
            events := acc.events ++ [event] } e
      | (.error err, e) => settleFailure fmt env d acc tid idxBefore err e

def evaluateUntilQuiescent (d : EvalDraws) (maxSteps : Nat) (e : Engine) :
    Except ServiceError EvaluateResult × Engine :=
  evaluateLoop fmt env d maxSteps ⟨0, [], .quiescent, [], none, none⟩ e

end Engine

end Mekhan

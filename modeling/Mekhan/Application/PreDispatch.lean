import Mekhan.Application.Executor
import Mekhan.Domain.Events

/-!
# Pre-dispatch hooks

`application/src/pre_dispatch.rs`: the chain of hooks an effect transition passes before its handler
is called, and the budget of deferrals. A hook is a parameter: what one invocation of it gives.
-/

namespace Mekhan

open Infra

/-! ## Durations -/

structure Duration where
  nanos : Nat

namespace Duration

/-- `as_millis() as u64`. -/
def asMillis (d : Duration) : Nat := d.nanos / 1000000 % 2 ^ 64

/-- `whole` and `frac` of `unit` parts, without the trailing zeros. -/
def decimal (whole frac digits : Nat) (suffix : String) : String :=
  let text := (Nat.toDigits 10 frac)
  let padded := List.replicate (digits - text.length) '0' ++ text
  let trimmed := (padded.reverse.dropWhile (· = '0')).reverse
  if trimmed = [] then toString whole ++ suffix
  else toString whole ++ "." ++ String.ofList trimmed ++ suffix

/-- The `Debug` text. -/
def debug (d : Duration) : String :=
  if 1000000000 ≤ d.nanos then decimal (d.nanos / 1000000000) (d.nanos % 1000000000) 9 "s"
  else if 1000000 ≤ d.nanos then decimal (d.nanos / 1000000) (d.nanos % 1000000) 6 "ms"
  else if 1000 ≤ d.nanos then decimal (d.nanos / 1000) (d.nanos % 1000) 3 "µs"
  else decimal d.nanos 0 0 "ns"

example : (Duration.mk 500000000).debug = "500ms" ∧ (Duration.mk 1500000000).debug = "1.5s" := by
  decide

end Duration

/-! ## Hooks -/

structure PreDispatchMetadata where
  scenarioId : Option String
  tenantId : Option String
  correlationId : Option String
  processStep : Option String
  hookChainIndex : Nat

/-- The view a hook gets of the dispatch attempt. -/
structure PreDispatchContext where
  netId : String
  transitionId : TransitionId
  transitionName : String
  effectHandlerId : Option String
  inputs : HashMap String Json
  readInputs : HashMap String Json
  effectConfig : Option Json
  netParameters : Option Json
  metadata : PreDispatchMetadata

inductive PreDispatchOutcome where
  | continue (enrichedEffectConfig : Option Json)
  | reject (reason : String)
  | defer (retryAfter : Duration)

inductive PreDispatchError where
  | timeout (hook : String) (after : Duration)
  | malformedResponse (hook message : String)
  | transport (hook message : String)
  | hookPanicked (hook : String)
  | executionFailed (hook message : String)

def PreDispatchError.display : PreDispatchError → String
  | .timeout hook after => "Hook '" ++ hook ++ "' timed out after " ++ after.debug
  | .malformedResponse hook message =>
    "Hook '" ++ hook ++ "' returned malformed response: " ++ message
  | .transport hook message => "Hook '" ++ hook ++ "' transport error: " ++ message
  | .hookPanicked hook => "Hook '" ++ hook ++ "' panicked"
  | .executionFailed hook message => "Hook '" ++ hook ++ "' execution failed: " ++ message

/-- What comes of one invocation under its time limit. -/
inductive HookInvocation where
  | timedOut
  | failed (error : PreDispatchError)
  | returned (outcome : PreDispatchOutcome)

structure PreDispatchChainEntry where
  name : String
  invoke : PreDispatchContext → HookInvocation
  failOpen : Bool
  timeout : Duration
  matchEffectHandlers : List String

/-- Whether the entry's handler filter lets a transition with this handler through to the hook. -/
def PreDispatchChainEntry.applies (entry : PreDispatchChainEntry) (handlerId : Option String) :
    Bool :=
  entry.matchEffectHandlers = [] ||
    match handlerId with
    | some id => entry.matchEffectHandlers.contains id
    | none => false

/-! ## The chain -/

inductive ChainEvalOutcome where
  | continue (enrichedEffectConfig : Option Json)
  | reject (hookName reason : String)
  | defer (hookName : String) (retryAfter : Duration)

def ChainEvalOutcome.kind : ChainEvalOutcome → PreDispatchOutcomeKind
  | .continue _ => .continue
  | .reject .. => .reject
  | .defer .. => .defer

inductive HookVerdict where
  /-- To the next hook, with the enrichment this one made. -/
  | next (enrichment : Option Json)
  | stop (outcome : ChainEvalOutcome)

/-- A hook that did not answer: passed over when it fails open, a rejection otherwise. -/
def unanswered (entry : PreDispatchChainEntry) (message : String) :
    HookVerdict × PreDispatchHookOutcome :=
  if entry.failOpen then (.next none, ⟨entry.name, .continue, none, none, true⟩)
  else
    let reason := entry.name ++ ": hook-error: " ++ message
    (.stop (.reject entry.name reason), ⟨entry.name, .reject, some reason, none, false⟩)

/-- The match on one invocation, with the entry of the trace. -/
def hookVerdict (entry : PreDispatchChainEntry) :
    HookInvocation → HookVerdict × PreDispatchHookOutcome
  | .timedOut => unanswered entry ("timeout after " ++ entry.timeout.debug)
  | .failed error => unanswered entry error.display
  | .returned (.continue enriched) =>
    (.next enriched, ⟨entry.name, .continue, none, none, false⟩)
  | .returned (.reject reason) =>
    (.stop (.reject entry.name reason), ⟨entry.name, .reject, some reason, none, false⟩)
  | .returned (.defer retryAfter) =>
    (.stop (.defer entry.name retryAfter),
      ⟨entry.name, .defer, none, some retryAfter.asMillis, false⟩)

/-- The loop of `evaluate_chain` from the hook number `idx` on. -/
def evaluateFrom (inputs : PreDispatchContext) : Nat → Option Json →
    List PreDispatchHookOutcome → List PreDispatchChainEntry →
    ChainEvalOutcome × List PreDispatchHookOutcome
  | _, enrichment, trace, [] => (.continue enrichment, trace)
  | idx, enrichment, trace, entry :: rest =>
    if entry.applies inputs.effectHandlerId then
      let ctx := { inputs with metadata := { inputs.metadata with hookChainIndex := idx } }
      match hookVerdict entry (entry.invoke ctx) with
      | (.next enriched, outcome) =>
        evaluateFrom inputs (idx + 1) (enriched.or enrichment) (trace ++ [outcome]) rest
      | (.stop terminal, outcome) => (terminal, trace ++ [outcome])
    else evaluateFrom inputs (idx + 1) enrichment trace rest

def evaluateChain (chain : List PreDispatchChainEntry) (inputs : PreDispatchContext) :
    ChainEvalOutcome × List PreDispatchHookOutcome :=
  evaluateFrom inputs 0 none [] chain

/-! ## Defer budgets -/

/-- `DeferBudgets` without its limit: the deferrals of each transition of a net. -/
structure DeferBudgets where
  counts : MapOf (String × TransitionId) Nat

namespace DeferBudgets

def new : DeferBudgets := ⟨∅⟩

def current (b : DeferBudgets) (netId : String) (tid : TransitionId) : Nat :=
  (b.counts.lookup (netId, tid)).getD 0

/-- `bump`: the new count and the counts after it. -/
def bump (b : DeferBudgets) (netId : String) (tid : TransitionId) : Nat × DeferBudgets :=
  let count := b.current netId tid + 1
  (count, ⟨b.counts.insert (netId, tid) count⟩)

def reset (b : DeferBudgets) (netId : String) (tid : TransitionId) : DeferBudgets :=
  ⟨b.counts.erase (netId, tid)⟩

end DeferBudgets

/-- `PreDispatchRuntime`; the counts of its budgets change from firing to firing and are part of the
state of the service. -/
structure PreDispatchRuntime where
  netId : String
  chain : List PreDispatchChainEntry
  maxDefers : Nat

end Mekhan

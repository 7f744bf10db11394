import Mekhan.Application.EvaluationLoop
import Mekhan.Application.TokenManager

/-!
# The service

`PetriNetService` of `application/src/service.rs`, one call at a time. `ServiceConfig` is what the
owner of a service wires into it and no operation of a run changes; the workflow and workspace ids
and the waker of the evaluation loop reach nothing that is modelled.
-/

namespace Mekhan

open Infra

structure ExecutionConfig where
  validateOutputSchemas : Bool
  validateInjectionSchemas : Bool

def ExecutionConfig.default : ExecutionConfig := ⟨true, true⟩

structure ServiceConfig where
  executor : TransitionExecutor
  effectHandlers : String → Option EffectHandler
  executionMode : ExecutionMode
  executionConfig : ExecutionConfig
  secretStore : Option SecretStore
  preDispatch : Option PreDispatchRuntime
  jsonMap : MapImpl

/-- Wiring without handlers, hooks, secrets and scripts that return anything. -/
def ServiceConfig.plain : ServiceConfig where
  executor :=
    { evaluateGuard := fun _ _ => .ok true
      evaluatePriority := fun _ _ => none
      executeScript := fun _ _ => .ok ∅ }
  effectHandlers _ := none
  executionMode := .live
  executionConfig := .default
  secretStore := none
  preDispatch := none
  jsonMap := .btree

structure Service where
  config : ServiceConfig
  engine : Engine
  topology : Option PetriNet
  initialTokens : List (PlaceId × TokenColor)
  schemaRegistry : Option SchemaRegistry
  netParameters : Option Json
  dispatchOptions : DispatchOptions
  dedupIndex : DedupIndex

namespace Service

/-- `PetriNetService::new` on an empty store, wired with a configuration. -/
def new (config : ServiceConfig) (tailCapBytes dedupCap : Nat) : Service where
  config := config
  engine :=
    { log := ⟨.withCaps tailCapBytes dedupCap, []⟩
      cachedState := none
      bindingMemo := .new
      firing := ⟨.new, 0⟩ }
  topology := none
  initialTokens := []
  schemaRegistry := none
  netParameters := none
  dispatchOptions := .default
  dedupIndex := .new

variable (fmt : EventFormat)

def append (clock : Nat → DateTime) (event : DomainEvent) (s : Service) : PersistedEvent × Service :=
  let r := s.engine.log.append fmt clock event
  (r.1, { s with engine := { s.engine with log := r.2 } })

/-! ## Loading and resetting -/

/-- What `clear` and `reset` have in common: the log, the marking cache and the replay cursor. -/
def forget (s : Service) : Service :=
  { s with
    engine :=
      { s.engine with
        log := s.engine.log.reset
        cachedState := none
        firing := { s.engine.firing with replayCursor := 0 } } }

def clear (s : Service) : Service := { s.forget with schemaRegistry := none }

def initializeNet (clock : Nat → DateTime) (net : PetriNet) (s : Service) : Service :=
  ({ s with topology := some net }.append fmt clock (.netInitialized net)).2

/-- The initial tokens, created one by one from the number `i` on. -/
def createInitialTokens (clock : Nat → DateTime) (mint : Nat → TokenId × DateTime) :
    Nat → List (PlaceId × TokenColor) → Service → Service
  | _, [], s => s
  | i, (placeId, color) :: rest, s =>
    createInitialTokens clock mint (i + 1) rest
      (s.append fmt clock (.tokenCreated (.new (mint i).1 (mint i).2 color) placeId none none none
        none)).2

def reset (clock : Nat → DateTime) (mint : Nat → TokenId × DateTime) (s : Service) : Service :=
  let s := s.forget
  let s := match s.topology with
    | some net => (s.append fmt clock (.netInitialized net)).2
    | none => s
  createInitialTokens fmt clock mint 0 s.initialTokens s

/-! ## Tokens and evaluation -/

/-- The registry, when injected tokens are validated. -/
def injectionRegistry (s : Service) : Option SchemaRegistry :=
  if s.config.executionConfig.validateInjectionSchemas then s.schemaRegistry else none

/-- The ring of the idempotency index, seeded now if it has not been. -/
def ring (s : Service) : BoundedDedup := s.dedupIndex.ensure s.engine.log.store.inner

/-- The part of `create_token_with_meta` after a missed lookup. -/
def createUnseen (r : TokenRequest) (fresh : Fresh) (s : Service) :
    Except ServiceError PersistedEvent × Service :=
  match tokenCreatedEvent s.topology s.injectionRegistry r fresh with
  | .error err => (.error err, s)
  | .ok event =>
    let (persisted, s) := s.append fmt (fun _ => fresh.appendedAt) event
    match r.dedupKey? with
    | none => (.ok persisted, s)
    | some key =>
      (.ok persisted,
        { s with dedupIndex := s.dedupIndex.insert s.engine.log.store.inner key persisted })

def createTokenWithMeta (r : TokenRequest) (fresh : Fresh) (s : Service) :
    Except ServiceError PersistedEvent × Service :=
  match r.dedupKey? with
  | none => s.createUnseen fmt r fresh
  | some key =>
    let ring := s.ring
    let s := { s with dedupIndex := ⟨some ring⟩ }
    match ring.get key with
    | some existing => (.ok existing, s)
    | none => s.createUnseen fmt r fresh

def firingEnv (s : Service) : FiringEnv where
  topology := s.topology
  executor := s.config.executor
  effectHandlers := s.config.effectHandlers
  executionMode := s.config.executionMode
  schemaRegistry := if s.config.executionConfig.validateOutputSchemas then s.schemaRegistry else none
  secretStore := s.config.secretStore
  netParameters := s.netParameters
  preDispatch := s.config.preDispatch
  dispatchOptions := s.dispatchOptions
  jsonMap := s.config.jsonMap

/-- Runs a part of the service that changes its engine. -/
def onEngine {α : Type} (f : Engine → α × Engine) (s : Service) : α × Service :=
  ((f s.engine).1, { s with engine := (f s.engine).2 })

def getMarking (s : Service) : Marking × Service := s.onEngine (Engine.advance s.topology)

def fireTransition (clock : Nat → DateTime) (draws : Draws) (tid : TransitionId) (s : Service) :
    Except ServiceError PersistedEvent × Service :=
  s.onEngine fun e =>
    let (marking, e) := e.advance s.topology
    e.fire fmt s.firingEnv clock draws marking tid

def evaluateUntilQuiescent (d : EvalDraws) (maxSteps : Nat) (s : Service) :
    Except ServiceError EvaluateResult × Service :=
  s.onEngine (Engine.evaluateUntilQuiescent fmt s.firingEnv d maxSteps)

def drainFinalizers (d : EvalDraws) (s : Service) : List PersistedEvent × Service :=
  s.onEngine (Engine.drainFinalizers fmt s.firingEnv d)

/-! ## Sequences of operations -/

/-- The operations of a run, with what each draws from the environment. -/
inductive Op where
  | createTokenWithMeta (r : TokenRequest) (fresh : Fresh)
  | evaluateUntilQuiescent (d : EvalDraws) (maxSteps : Nat)
  | fireTransition (clock : Nat → DateTime) (draws : Draws) (tid : TransitionId)
  | drainFinalizers (d : EvalDraws)
  | getMarking

inductive OpResult where
  | event (r : Except ServiceError PersistedEvent)
  | evaluated (r : Except ServiceError EvaluateResult)
  | drained (events : List PersistedEvent)
  | marking (m : Marking)

def perform (s : Service) : Op → OpResult × Service
  | .createTokenWithMeta r fresh => (s.createTokenWithMeta fmt r fresh).map .event id
  | .evaluateUntilQuiescent d maxSteps => (s.evaluateUntilQuiescent fmt d maxSteps).map .evaluated id
  | .fireTransition clock draws tid => (s.fireTransition fmt clock draws tid).map .event id
  | .drainFinalizers d => (s.drainFinalizers fmt d).map .drained id
  | .getMarking => s.getMarking.map .marking id

/-- Performs the operations in order: their results and the service after them. -/
def performAll (s : Service) : List Op → List OpResult × Service
  | [] => ([], s)
  | op :: ops =>
    let r := s.perform fmt op
    let rest := performAll r.2 ops
    (r.1 :: rest.1, rest.2)

end Service

end Mekhan

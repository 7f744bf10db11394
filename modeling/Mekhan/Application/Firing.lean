import Mekhan.Application.PreDispatch
import Mekhan.Application.Routing
import Mekhan.Application.Secrets
import Mekhan.Infra.Journal

/-!
# Firing a transition

`application/src/firing.rs`. A firing is a program over the event store: it appends, reads the log
back in replay mode, and keeps the defer budgets and the replay cursor as its own state.

What lies outside the engine is a parameter: the interpreter, the schema validators, the secret
store, the hooks and the effect handlers. A handler is the function of its input that `execute` is in
this call; what `replay` does inside a handler does not reach the engine and is left out.
-/

namespace Mekhan

open Infra

/-! ## Effects -/

inductive ExecutionMode where
  | live
  | replay

structure EffectInput where
  transitionId : TransitionId
  inputs : HashMap String Json
  config : Option Json
  readInputs : HashMap String Json
  processStep : Option String

structure EffectOutput where
  tokens : HashMap String Json
  result : Json

abbrev EffectHandler := EffectInput → Except EffectError EffectOutput

def collectReadInputs (b : TokenBinding) : HashMap String Json :=
  HashMap.ofPairs (b.readPortNames.filterMap fun name =>
    (b.portInputs.lookup name).map fun v => (name, v))

def selectProcessStep (t : Transition) : Option String :=
  t.processStepStarted.or t.processStepCompleted

/-! ## The program -/

/-- What a firing is given beside the marking and the transition. -/
structure FiringEnv where
  topology : Option PetriNet
  executor : TransitionExecutor
  effectHandlers : String → Option EffectHandler
  executionMode : ExecutionMode
  schemaRegistry : Option SchemaRegistry
  secretStore : Option SecretStore
  netParameters : Option Json
  preDispatch : Option PreDispatchRuntime
  dispatchOptions : DispatchOptions
  jsonMap : MapImpl

/-- What a firing draws from the environment. -/
structure Draws where
  /-- `Token::new` for the value of a port with this number. -/
  mint : String → Nat → TokenId × DateTime
  /-- `Token::new_unit` for the output arc with this number. -/
  mintUnit : Nat → TokenId × DateTime
  signalKey : Nat → Uuid
  now : Nat → DateTime

/-- A live service without handlers, hooks, secrets and schemas. -/
def FiringEnv.plain (net : PetriNet) (executor : TransitionExecutor) : FiringEnv where
  topology := some net
  executor := executor
  effectHandlers _ := none
  executionMode := .live
  schemaRegistry := none
  secretStore := none
  netParameters := none
  preDispatch := none
  dispatchOptions := .default
  jsonMap := .btree

/-- Draws for runs on concrete inputs with one output token. -/
def Draws.plain : Draws where
  mint _ _ := (⟨1⟩, ⟨0⟩)
  mintUnit _ := (⟨1⟩, ⟨0⟩)
  signalKey _ := 0
  now _ := ⟨0⟩

/-- What firings change beside the event store. -/
structure FiringState where
  budgets : DeferBudgets
  replayCursor : Nat

abbrev Firing := Journal FiringState DomainEvent PersistedEvent ServiceError

namespace Firing

open Journal

def modifyBudgets (f : DeferBudgets → DeferBudgets) : Firing Unit := do
  let s ← getState
  setState { s with budgets := f s.budgets }

/-- The event of one token that leaves the net. -/
def bridgedOutEvent (tid : TransitionId) (signalKey : Uuid) (producedByEvent : Option Nat)
    (out : BridgeOutToken) : DomainEvent :=
  .tokenBridgedOut out.token out.placeId out.placeName out.target.targetNetId
    out.target.targetPlaceName tid (Uuid.toText signalKey) producedByEvent out.replyToPlaceName
    out.target.replyChannels

/-- `emit_bridge_out_events`, from the token number `i` on. -/
def emitBridgeOutEvents (tid : TransitionId) (signalKey : Nat → Uuid)
    (producedByEvent : Option Nat) : Nat → List BridgeOutToken → Firing Unit
  | _, [] => pure ()
  | i, out :: rest => do
    let _ ← write (bridgedOutEvent tid (signalKey i) producedByEvent out)
    emitBridgeOutEvents tid signalKey producedByEvent (i + 1) rest

/-- Appends the event of a firing, then those of the tokens it sends over a bridge. -/
def recordFiring (tid : TransitionId) (draws : Draws) (record : DomainEvent)
    (bridgeOut : List BridgeOutToken) : Firing PersistedEvent := do
  let event ← write record
  emitBridgeOutEvents tid draws.signalKey (some event.sequence) 0 bridgeOut
  pure event

def removeBoundTokens (reason : String) : List (PlaceId × TokenId) → Firing Unit
  | [] => pure ()
  | (placeId, tokenId) :: rest => do
    let _ ← write (.tokenRemoved tokenId placeId (some reason) none)
    removeBoundTokens reason rest

def consumeBoundTokensOnPermanentFailure (consumed : List (PlaceId × TokenId))
    (err : ServiceError) : Firing PersistedEvent :=
  if err.isPermanent then do
    let reason := "permanent transition failure: " ++ err.display
    let _ ← write (.errorOccurred reason)
    removeBoundTokens reason consumed
    .fail err
  else .fail err

variable (env : FiringEnv) (draws : Draws) (net : PetriNet)

/-- The arguments of `route_output_tokens` in a firing with this binding. -/
def routeArgs (t : Transition) (b : TokenBinding) (schemaRegistry : Option SchemaRegistry)
    (effectResult : Option Json) : RouteArgs where
  net := net
  transition := t
  consumedReplyRouting := b.consumedReplyRouting
  schemaRegistry := schemaRegistry
  netParameters := env.netParameters
  effectResult := effectResult
  mint := draws.mint

def executeSkip (t : Transition) (b : TokenBinding) : Firing PersistedEvent :=
  let produced := (net.outputArcs t.id).zipIdx.map fun a =>
    (a.1.placeId, Token.new (draws.mintUnit a.2).1 (draws.mintUnit a.2).2 .unit)
  write (.transitionSkipped t.id (some t.name) b.consumedTokens produced "skip_mask")

/-! ## Pure transitions -/

/-- The script of a transition on the bound inputs, and its outputs routed. -/
def routeScript (t : Transition) (b : TokenBinding) : Except ServiceError Routed :=
  match env.executor.executeScript t.script b.portInputs with
  | .error f => .error f.toServiceError
  | .ok result => routeOutputTokens (routeArgs env draws net t b env.schemaRegistry none) result

/-- The part of `fire_transition` after the binding. -/
def fireScript (t : Transition) (b : TokenBinding) : Firing PersistedEvent :=
  match routeScript env draws net t b with
  | .error e => consumeBoundTokensOnPermanentFailure b.consumedTokens e
  | .ok routed =>
    recordFiring t.id draws
      (.transitionFired t.id (some t.name) b.consumedTokens routed.produced b.readTokens
        t.processStepStarted t.processStepCompleted)
      routed.bridgeOut

/-! ## Effect transitions, live -/

/-- The configuration with the overrides of the run and its secrets resolved. -/
def resolvedConfig (t : Transition) : Except ServiceError (Option Json) :=
  match env.secretStore,
      applyStageOverride env.jsonMap t.effectConfig env.dispatchOptions t.id.name with
  | some store, some config =>
    match resolveSecrets env.jsonMap store config with
    | .ok resolved => .ok (some resolved)
    | .error e => .error (.secretResolutionFailed t.id e.display)
  | _, config => .ok config

def hookContext (rt : PreDispatchRuntime) (t : Transition) (handlerId : String)
    (b : TokenBinding) (config : Option Json) : PreDispatchContext where
  netId := rt.netId
  transitionId := t.id
  transitionName := t.name
  effectHandlerId := some handlerId
  inputs := b.portInputs
  readInputs := collectReadInputs b
  effectConfig := config
  netParameters := env.netParameters
  metadata :=
    { scenarioId := none
      tenantId := env.netParameters.bind (stringAt "tenant_id")
      correlationId := none
      processStep := selectProcessStep t
      hookChainIndex := 0 }

def rejectDispatch (rt : PreDispatchRuntime) (tid : TransitionId) (hookName reason : String)
    (now : DateTime) : Firing (Option Json) := do
  let _ ← write (.preDispatchRejected tid hookName reason now)
  modifyBudgets (·.reset rt.netId tid)
  .fail (.preDispatchRejected tid hookName reason)

/-- The match on the outcome of the chain: the configuration to dispatch with. -/
def followChain (rt : PreDispatchRuntime) (tid : TransitionId) (config : Option Json) :
    ChainEvalOutcome → Firing (Option Json)
  | .continue enriched => do
    modifyBudgets (·.reset rt.netId tid)
    pure (enriched.or config)
  | .reject hookName reason => rejectDispatch rt tid hookName reason (draws.now 1)
  | .defer hookName retryAfter => do
    let s ← getState
    let (count, budgets) := s.budgets.bump rt.netId tid
    setState { s with budgets := budgets }
    let _ ← write (.preDispatchDeferred tid hookName retryAfter.asMillis count (draws.now 1))
    if rt.maxDefers < count then
      rejectDispatch rt tid hookName "defer-budget-exceeded" (draws.now 2)
    else .fail (.preDispatchDeferred tid hookName retryAfter.asMillis)

def preDispatch (t : Transition) (handlerId : String) (b : TokenBinding)
    (config : Option Json) : Firing (Option Json) :=
  match env.preDispatch with
  | none => pure config
  | some rt =>
    if rt.chain.isEmpty then pure config
    else do
      let chain := evaluateChain rt.chain (hookContext env rt t handlerId b config)
      let _ ← write (.preDispatchEvaluated t.id (some t.name) chain.2 chain.1.kind (draws.now 0))
      followChain draws rt t.id config chain.1

def effectInput (t : Transition) (b : TokenBinding) (config : Option Json) : EffectInput where
  transitionId := t.id
  inputs := b.portInputs
  config := config
  readInputs := collectReadInputs b
  processStep := selectProcessStep t

def errorData (t : Transition) (handlerId : String) (b : TokenBinding) (e : EffectError) : Json :=
  .obj (collect env.jsonMap
    [("error", .str e.display), ("handler_id", .str handlerId), ("transition_id", .str t.id.name),
      ("inputs", .obj (collect env.jsonMap b.portInputs.toPairs)), ("retryable", .bool e.isRetryable)])

/-- The error of a handler routed to the error port; schemas are not checked. -/
def routeError (t : Transition) (handlerId : String) (b : TokenBinding) (e : EffectError) :
    Except ServiceError Routed :=
  routeOutputTokens (routeArgs env draws net t b none none)
    (HashMap.ofPairs [("_error", errorData env t handlerId b e)])

def routeOutput (t : Transition) (b : TokenBinding) (output : EffectOutput) :
    Except ServiceError Routed :=
  routeOutputTokens (routeArgs env draws net t b env.schemaRegistry (some output.result))
    output.tokens

/-- An `EffectFailed` of this firing; it consumes the bound tokens. -/
def effectFailedEvent (t : Transition) (handlerId : String) (b : TokenBinding)
    (produced : List (PlaceId × Token)) (message : String) (retryable : Bool) : DomainEvent :=
  .effectFailed t.id (some t.name) b.consumedTokens produced handlerId message true
    (some b.portInputs) retryable

/-- The match on what the handler returned. -/
def settleEffect (t : Transition) (handlerId : String) (b : TokenBinding) :
    Except EffectError EffectOutput → Firing PersistedEvent
  | .ok output =>
    match routeOutput env draws net t b output with
    | .ok routed =>
      recordFiring t.id draws
        (.effectCompleted t.id (some t.name) b.consumedTokens routed.produced handlerId
          output.result b.readTokens t.processStepStarted t.processStepCompleted)
        routed.bridgeOut
    | .error e => do
      -- The side effect has happened, so the inputs are consumed with it.
      let _ ← write (effectFailedEvent t handlerId b [] e.display false)
      .fail e
  | .error e =>
    if (t.outputPort "_error").isSome then
      match routeError env draws net t handlerId b e with
      | .ok routed =>
        recordFiring t.id draws
          (effectFailedEvent t handlerId b routed.produced e.display e.isRetryable)
          routed.bridgeOut
      | .error routingError => .fail routingError
    else do
      let _ ← write (effectFailedEvent t handlerId b [] e.display e.isRetryable)
      .fail (.effectFailed t.id handlerId e.display e.isRetryable)

/-- The live branch of `fire_effect_transition`. -/
def fireLive (t : Transition) (handlerId : String) (b : TokenBinding) : Firing PersistedEvent := do
  let handler ← ofOption (.internal ("Effect handler not found: " ++ handlerId))
    (env.effectHandlers handlerId)
  let resolved ← ofExcept (resolvedConfig env t)
  let config ← preDispatch env draws t handlerId b resolved
  settleEffect env draws net t handlerId b (handler (effectInput t b config))

/-! ## Effect transitions, replayed -/

def isEffectEvent : DomainEvent → Bool
  | .effectCompleted .. | .effectFailed .. => true
  | _ => false

/-- The match on the stored event at the cursor; `total` is the number of stored effect events. -/
def replayStored (t : Transition) (handlerId : String) (s : FiringState) (total : Nat)
    (stored : Option DomainEvent) : Firing PersistedEvent :=
  let cursor := s.replayCursor
  let mismatch : Firing PersistedEvent := .fail (.internal
    ("Replay mismatch at cursor " ++ toString cursor ++ ": expected (" ++ t.id.name ++ ", " ++
      handlerId ++ ")"))
  match stored with
  | none => .fail (.internal ("Replay: no effect event at cursor " ++ toString cursor ++
      " (total: " ++ toString total ++ ")"))
  | some (.effectCompleted tid _ consumed produced hid result read _ _) =>
    if tid = t.id ∧ hid = handlerId then do
      setState { s with replayCursor := cursor + 1 }
      write (.effectCompleted t.id (some t.name) consumed produced handlerId result read
        t.processStepStarted t.processStepCompleted)
    else mismatch
  | some (.effectFailed tid _ consumed produced hid message tokensConsumed inputData retryable) =>
    if tid = t.id ∧ hid = handlerId then do
      setState { s with replayCursor := cursor + 1 }
      let event ← write (.effectFailed t.id (some t.name) consumed produced handlerId message
        tokensConsumed inputData retryable)
      if tokensConsumed then pure event
      else .fail (.effectFailed t.id handlerId message retryable)
    else mismatch
  | some _ => mismatch

/-- The replay branch of `fire_effect_transition`. -/
def fireReplay (t : Transition) (handlerId : String) : Firing PersistedEvent := do
  let allEvents ← readAll
  let s ← getState
  let effectEvents := allEvents.filter (isEffectEvent ·.event)
  replayStored t handlerId s effectEvents.length
    ((effectEvents[s.replayCursor]?).map (·.event))

/-! ## Dispatch -/

def skips (tid : TransitionId) : Bool := env.dispatchOptions.skipMask.contains tid.name

/-- What a transition does with its binding. -/
def fireBound (t : Transition) (b : TokenBinding) : Firing PersistedEvent :=
  if skips env t.id then executeSkip draws net t b
  else
    match t.effectHandlerId with
    | none => fireScript env draws net t b
    | some handlerId =>
      match env.executionMode with
      | .live => fireLive env draws net t handlerId b
      | .replay => fireReplay t handlerId

end Firing

open Firing in
/-- `fire_transition`. Each of its branches begins with the search for a binding. -/
def fireTransition (env : FiringEnv) (draws : Draws) (marking : Marking) (tid : TransitionId) :
    Firing PersistedEvent := do
  let net ← Journal.ofOption .noTopology env.topology
  let t ← Journal.ofOption (.transitionNotFound tid) (net.getTransition tid)
  let b ← Journal.ofOption (.guardNotSatisfied tid)
    (findValidBinding env.executor t env.schemaRegistry (net.inputArcs tid) marking)
  fireBound env draws net t b

end Mekhan

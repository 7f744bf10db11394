import Mekhan.Domain.Marking

/-!
# Domain events and their projection

`domain/src/events.rs` and `domain/src/projection.rs`: the facts of the event log, the hash-chained
record they are stored in, and the marking they project to.

The bytes of an event (its JSON text and the SHA-256 of it) enter through `EventFormat`; a marking,
a cursor or a chain link depends on nothing else of them.
-/

namespace Mekhan

open Infra

inductive PreDispatchOutcomeKind where
  | continue
  | reject
  | defer
  deriving DecidableEq

structure PreDispatchHookOutcome where
  hookName : String
  kind : PreDispatchOutcomeKind
  reason : Option String
  retryAfterMs : Option Nat
  failOpenApplied : Bool
  deriving DecidableEq

inductive DomainEvent where
  | netInitialized (net : PetriNet)
  | tokenCreated (token : Token) (placeId : PlaceId) (placeName : Option String)
      (workflowId : Option Uuid) (signalKey : Option String) (dedupId : Option String)
  | transitionFired (transitionId : TransitionId) (transitionName : Option String)
      (consumedTokens : List (PlaceId × TokenId)) (producedTokens : List (PlaceId × Token))
      (readTokens : List (PlaceId × Token)) (processStepStarted : Option String)
      (processStepCompleted : Option String)
  | transitionSkipped (transitionId : TransitionId) (transitionName : Option String)
      (consumedTokens : List (PlaceId × TokenId)) (producedTokens : List (PlaceId × Token))
      (skipReason : String)
  | tokenBridgedOut (token : Token) (sourcePlaceId : PlaceId) (sourcePlaceName : String)
      (targetNetId : String) (targetPlaceName : String) (transitionId : TransitionId)
      (signalKey : String) (producedByEvent : Option Nat) (replyToPlaceName : Option String)
      (replyChannels : Option (HashMap String String))
  | tokenConsumed (tokenId : TokenId) (placeId : PlaceId)
  | tokenRemoved (tokenId : TokenId) (placeId : PlaceId) (reason : Option String)
      (correlationId : Option String)
  | tokenUpdated (tokenId : TokenId) (placeId : PlaceId) (newColor : TokenColor)
      (correlationId : Option String)
  | effectCompleted (transitionId : TransitionId) (transitionName : Option String)
      (consumedTokens : List (PlaceId × TokenId)) (producedTokens : List (PlaceId × Token))
      (effectHandlerId : String) (effectResult : Json) (readTokens : List (PlaceId × Token))
      (processStepStarted : Option String) (processStepCompleted : Option String)
  | effectFailed (transitionId : TransitionId) (transitionName : Option String)
      (consumedTokens : List (PlaceId × TokenId)) (producedTokens : List (PlaceId × Token))
      (effectHandlerId : String) (errorMessage : String) (tokensConsumed : Bool)
      (inputData : Option (HashMap String Json)) (retryable : Bool)
  | errorOccurred (message : String)
  | transitionScriptUpdated (transitionId : TransitionId) (script : String)
      (guard : Option String)
  | netCreated (netId : String) (templateId : Option String) (parameters : Option Json)
      (createdBy : Option String) (label : Option String)
  | netCompleted (netId : String) (terminalPlaceId : String) (exitCode : Option Json)
  | netCancelled (netId : String) (reason : Option String) (cancelledBy : Option String)
  | netFailed (netId : String) (transitionId : TransitionId) (reason : String)
      (retryable : Bool)
  | preDispatchEvaluated (transitionId : TransitionId) (transitionName : Option String)
      (hookChain : List PreDispatchHookOutcome) (finalOutcome : PreDispatchOutcomeKind)
      (timestamp : DateTime)
  | preDispatchRejected (transitionId : TransitionId) (hookName : String) (reason : String)
      (timestamp : DateTime)
  | preDispatchDeferred (transitionId : TransitionId) (hookName : String) (retryAfterMs : Nat)
      (deferCount : Nat) (timestamp : DateTime)
  deriving DecidableEq

/-- A domain event with its place in the hash chain. -/
structure PersistedEvent where
  sequence : Nat
  timestamp : DateTime
  event : DomainEvent
  hash : String
  previousHash : Option String
  deriving DecidableEq

/-- What the code reads off the bytes of an event: the hash of its content (the hex SHA-256 of the
JSON text of sequence, timestamp, event and previous hash) and the length of its JSON text. -/
structure EventFormat where
  contentHash : Nat → DateTime → DomainEvent → Option String → String
  serLen : PersistedEvent → Nat

/-- A format for runs on concrete inputs: one byte an event, and a hash that shows only the
sequence. -/
def EventFormat.plain : EventFormat where
  contentHash sequence _ _ _ := String.ofList (List.replicate (sequence + 1) '#')
  serLen _ := 1

namespace PersistedEvent

variable (fmt : EventFormat)

/-- `PersistedEvent::new`, at the time the clock shows. -/
def new (now : DateTime) (sequence : Nat) (event : DomainEvent) (previousHash : Option String) :
    PersistedEvent where
  sequence := sequence
  timestamp := now
  event := event
  hash := fmt.contentHash sequence now event previousHash
  previousHash := previousHash

def verifyHash (e : PersistedEvent) : Bool :=
  e.hash = fmt.contentHash e.sequence e.timestamp e.event e.previousHash

@[simp] theorem verifyHash_new (now : DateTime) (sequence : Nat) (event : DomainEvent)
    (previousHash : Option String) : (new fmt now sequence event previousHash).verifyHash fmt := by
  simp [verifyHash, new]

end PersistedEvent

/-! ## Chains -/

section

variable (fmt : EventFormat)

/-- One round of `verify_event_chain_inner`: the hash of the event at position `i`, its link to the
one before it and its position. -/
def checkLink (requireGenesisFirst : Bool) (i : Nat) (prev : Option PersistedEvent)
    (event : PersistedEvent) : Bool :=
  event.verifyHash fmt &&
  (match prev with
  | none =>
    if requireGenesisFirst then event.previousHash.isNone && event.sequence = 0
    else if event.sequence = 0 then event.previousHash.isNone
    else event.previousHash.isSome
  | some p => event.previousHash = some p.hash && event.sequence = p.sequence + 1) &&
  (!requireGenesisFirst || event.sequence = i)

/-- The loop of `verify_event_chain_inner` from position `i` on. -/
def verifyFrom (requireGenesisFirst : Bool) : Nat → Option PersistedEvent → List PersistedEvent → Bool
  | _, _, [] => true
  | i, prev, e :: es =>
    checkLink fmt requireGenesisFirst i prev e && verifyFrom requireGenesisFirst (i + 1) (some e) es

def verifyEventChainInner (events : List PersistedEvent) (requireGenesisFirst : Bool) : Bool :=
  verifyFrom fmt requireGenesisFirst 0 none events

def verifyEventChain (events : List PersistedEvent) : Bool := verifyEventChainInner fmt events true

/-- A tail of the log, after its head was evicted. -/
def verifyEventChainFrom (events : List PersistedEvent) : Bool :=
  verifyEventChainInner fmt events false

end

/-! ## Projection -/

def applyEventToMarking (m : Marking) : DomainEvent → Marking
  | .tokenCreated token placeId .. => m.addToken placeId token
  | .transitionFired _ _ consumed produced .. => (m.removeTokens consumed).addTokens produced
  | .effectCompleted _ _ consumed produced .. => (m.removeTokens consumed).addTokens produced
  | .transitionSkipped _ _ consumed produced _ => (m.removeTokens consumed).addTokens produced
  | .tokenConsumed tokenId placeId => m.removeToken placeId tokenId
  | .tokenRemoved tokenId placeId .. => m.removeToken placeId tokenId
  | .tokenUpdated tokenId placeId newColor _ => m.updateToken placeId tokenId newColor
  | .effectFailed _ _ consumed produced _ _ tokensConsumed .. =>
    if tokensConsumed then (m.removeTokens consumed).addTokens produced else m
  | .netInitialized .. | .errorOccurred .. | .transitionScriptUpdated .. | .tokenBridgedOut ..
  | .netCreated .. | .netCompleted .. | .netCancelled .. | .netFailed ..
  | .preDispatchEvaluated .. | .preDispatchRejected .. | .preDispatchDeferred .. => m

/-- The fold of bare events onto a marking. -/
def projectEvents (base : Marking) (events : List DomainEvent) : Marking :=
  events.foldl applyEventToMarking base

theorem projectEvents_append (base : Marking) (xs ys : List DomainEvent) :
    projectEvents base (xs ++ ys) = projectEvents (projectEvents base xs) ys :=
  List.foldl_append ..

/-- `project_onto`: the fold of the events onto a base marking. -/
def projectOnto (base : Marking) (events : List PersistedEvent) : Marking :=
  events.foldl (fun m e => applyEventToMarking m e.event) base

/-- `project_marking`: the full replay. -/
def projectMarking (events : List PersistedEvent) : Marking := projectOnto .new events

@[simp] theorem projectOnto_nil (base : Marking) : projectOnto base [] = base := rfl

@[simp] theorem projectOnto_cons (base : Marking) (e : PersistedEvent) (events : List PersistedEvent) :
    projectOnto base (e :: events) = projectOnto (applyEventToMarking base e.event) events := rfl

theorem projectOnto_append (base : Marking) (xs ys : List PersistedEvent) :
    projectOnto base (xs ++ ys) = projectOnto (projectOnto base xs) ys :=
  List.foldl_append ..

theorem projectOnto_projectMarking (xs ys : List PersistedEvent) :
    projectOnto (projectMarking xs) ys = projectMarking (xs ++ ys) :=
  (projectOnto_append ..).symm

end Mekhan

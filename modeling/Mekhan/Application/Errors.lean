import Mekhan.Domain.Token

/-!
# Service errors

`application/src/errors.rs` and the error types it draws on.
-/

namespace Mekhan

/-- The hyphenated lower-case hex form of a UUID. -/
def Uuid.toText (u : Uuid) : String :=
  let digits := Nat.toDigits 16 u.toNat
  let hex := List.replicate (32 - digits.length) '0' ++ digits
  let group (start len : Nat) : String := String.ofList ((hex.drop start).take len)
  "-".intercalate [group 0 8, group 8 4, group 12 4, group 16 4, group 20 12]

inductive EventStoreError where
  | persistFailed (message : String)
  | timeout

def EventStoreError.display : EventStoreError → String
  | .persistFailed message => "Failed to persist event: " ++ message
  | .timeout => "Timeout waiting for event persistence"

inductive SchemaValidationError where
  | unknownSchemaRef (schemaRef : String)
  | validationFailed (schemaRef : String) (message : String)
  | compilationFailed (schemaRef : String) (message : String)

def SchemaValidationError.display : SchemaValidationError → String
  | .unknownSchemaRef schemaRef => "Unknown schema reference: " ++ schemaRef
  | .validationFailed schemaRef message =>
    "Schema validation failed for '" ++ schemaRef ++ "': " ++ message
  | .compilationFailed schemaRef message =>
    "Schema compilation failed for '" ++ schemaRef ++ "': " ++ message

inductive EffectError where
  | executionFailed (message : String)
  | fatal (message : String)
  | handlerNotFound (handlerId : String)
  | replayMissing (transitionId : String)

namespace EffectError

def display : EffectError → String
  | .executionFailed message => "Effect execution failed: " ++ message
  | .fatal message => "Effect fatal error: " ++ message
  | .handlerNotFound handlerId => "Effect handler not found: " ++ handlerId
  | .replayMissing transitionId => "Replay event missing for effect transition " ++ transitionId

def isRetryable : EffectError → Bool
  | .executionFailed _ => true
  | _ => false

end EffectError

inductive ServiceError where
  | transitionNotFound (id : TransitionId)
  | placeNotFound (id : PlaceId)
  | tokenNotFound (id : TokenId) (placeId : PlaceId)
  | invalidOperation (message : String)
  | transitionNotEnabled (id : TransitionId) (reason : String)
  | insufficientTokens (placeId : PlaceId) (required available : Nat)
  | guardNotSatisfied (id : TransitionId)
  | scriptError (scriptType message : String)
  | unknownOutputPort (portName : String)
  | noArcForPort (portName : String)
  | batchOutputNotArray (portName : String)
  | noTopology
  | effectFailed (transitionId : TransitionId) (handlerId message : String) (retryable : Bool)
  | schemaValidationFailed (portName : String) (transitionId : TransitionId) (error : String)
  | bridgeReplyMissing (placeName : String) (channel : Option String)
  | effectContractError (message : String)
  | secretResolutionFailed (transitionId : TransitionId) (message : String)
  | internal (message : String)
  | eventStore (error : EventStoreError)
  | preDispatchRejected (transitionId : TransitionId) (hookName reason : String)
  | preDispatchDeferred (transitionId : TransitionId) (hookName : String) (retryAfterMs : Nat)

namespace ServiceError

/-- The `Display` text. -/
def display : ServiceError → String
  | .transitionNotFound id => "Transition not found: " ++ id.name
  | .placeNotFound id => "Place not found: " ++ id.name
  | .tokenNotFound id placeId =>
    "Token not found: " ++ Uuid.toText id.uuid ++ " in place " ++ placeId.name
  | .invalidOperation message => "Invalid operation: " ++ message
  | .transitionNotEnabled id reason => "Transition " ++ id.name ++ " is not enabled: " ++ reason
  | .insufficientTokens placeId required available =>
    "Insufficient tokens at place " ++ placeId.name ++ ": required " ++ toString required ++
      ", available " ++ toString available
  | .guardNotSatisfied id => "Guard condition not satisfied for transition " ++ id.name
  | .scriptError scriptType message => "Script error in " ++ scriptType ++ ": " ++ message
  | .unknownOutputPort portName =>
    "Unknown output port '" ++ portName ++ "' returned by script"
  | .noArcForPort portName => "No arc connected to output port '" ++ portName ++ "'"
  | .batchOutputNotArray portName =>
    "batch output port '" ++ portName ++ "' produced a non-array value"
  | .noTopology => "No topology loaded"
  | .effectFailed transitionId handlerId message _ =>
    "Effect handler '" ++ handlerId ++ "' failed for transition " ++ transitionId.name ++ ": " ++
      message
  | .schemaValidationFailed portName transitionId error =>
    "Schema validation failed on port '" ++ portName ++ "' of transition " ++ transitionId.name ++
      ": " ++ error
  | .bridgeReplyMissing placeName channel =>
    "Bridge reply routing failed at place '" ++ placeName ++ "': no matching reply address" ++
      (match channel with
      | some c => " for channel '" ++ c ++ "'"
      | none => "")
  | .effectContractError message => "Effect handler contract mismatch: " ++ message
  | .secretResolutionFailed transitionId message =>
    "Secret resolution failed for transition " ++ transitionId.name ++ ": " ++ message
  | .internal message => "Internal error: " ++ message
  | .eventStore error => "Event store error: " ++ error.display
  | .preDispatchRejected transitionId hookName reason =>
    "Pre-dispatch rejected transition " ++ transitionId.name ++ " by hook '" ++ hookName ++ "': " ++
      reason
  | .preDispatchDeferred transitionId hookName retryAfterMs =>
    "Pre-dispatch deferred transition " ++ transitionId.name ++ " by hook '" ++ hookName ++
      "' for " ++ toString retryAfterMs ++ "ms"

/-- Whether re-firing the same transition at the same marking would fail again. -/
def isPermanent : ServiceError → Bool
  | .schemaValidationFailed .. | .unknownOutputPort .. | .noArcForPort .. | .batchOutputNotArray ..
  | .scriptError .. | .effectContractError .. | .transitionNotFound .. | .effectFailed .. => true
  | _ => false

end ServiceError

end Mekhan

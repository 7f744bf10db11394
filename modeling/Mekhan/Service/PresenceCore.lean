import Mekhan.Infra.BoundedFifo
import Mekhan.Service.PoolNet

/-!
# The presence substrate

`service/src/presence/core.rs`: what the presence controllers inject into a pool net, as data, and
its way there. An injection is published, is in flight, and is delivered by the engine's listeners
through `create_token_with_meta`, which drops a token whose place and dedup id it has seen. A signal
carries no dedup id.
-/

namespace Mekhan

open Infra

/-! ## Injections -/

/-- The caller-built parts of a bridge injection: an acquire or a claim. -/
structure PoolInjection where
  sourceNetId : String
  sourcePlaceName : String
  tokenColor : RhaiMap
  signalKey : String
  dedupId : String
  deriving DecidableEq

/-- The caller-built parts of a signal injection: an expire. -/
structure PoolSignal where
  source : String
  signalKey : String
  payload : RhaiMap
  deriving DecidableEq

/-- A published injection, by the inbox or signal it goes to. -/
inductive PoolMessage where
  /-- `inject_acquire`. -/
  | acquire (inj : PoolInjection)
  /-- `inject_claim`. -/
  | claim (inj : PoolInjection)
  /-- `inject_expires`. -/
  | expire (sig : PoolSignal)
  deriving DecidableEq

namespace PoolMessage

def place : PoolMessage → PoolPlace
  | .acquire _ => .presenceAcquire
  | .claim _ => .presenceClaim
  | .expire _ => .presenceExpired

def color : PoolMessage → RhaiMap
  | .acquire inj => inj.tokenColor
  | .claim inj => inj.tokenColor
  | .expire sig => sig.payload

/-- The dedup id of the envelope; that of a signal has none. -/
def dedupId : PoolMessage → Option String
  | .acquire inj => some inj.dedupId
  | .claim inj => some inj.dedupId
  | .expire _ => none

/-- The token the message carries, at the place it goes to. -/
def token (message : PoolMessage) : PoolPlace × RhaiMap := (message.place, message.color)

end PoolMessage

/-- `claim_injection`. The dedup id names the offer and not the member. -/
def claimInjection (grantId runnerId : String) : PoolInjection where
  sourceNetId := "mekhan-presence-controller"
  sourcePlaceName := "presence_claim"
  tokenColor := [("grant_id", .str grantId), ("runner_id", .str runnerId)]
  signalKey := "presence-claim-" ++ grantId ++ "-" ++ runnerId
  dedupId := "presence-claim:" ++ grantId

/-- `grow_slots`: the range of new slots, on a true grow into a real pool. -/
def growSlots (poolLess : Bool) (applied wire : Nat) : Option (Nat × Nat) :=
  if poolLess = true ∨ wire ≤ applied then none else some (applied, wire)

/-! ## Delivery -/

/-- A pool net with the messages on their way to it and the engine's index of dedup ids. -/
structure PoolBus where
  marking : PoolMarking
  inFlight : List PoolMessage
  seen : BoundedFifo (PoolPlace × String) Unit

namespace PoolBus

/-- The empty presence pool, with an index of the given size. -/
def init (cap : Nat) : PoolBus := ⟨0, [], .withCap cap⟩

/-- `create_token_with_meta`. -/
def createToken (b : PoolBus) (message : PoolMessage) : PoolBus :=
  match message.dedupId.filter (· ≠ "") with
  | none => { b with marking := message.token ::ₘ b.marking }
  | some id =>
    match b.seen.get (message.place, id) with
    | some _ => b
    | none =>
      { b with
        marking := message.token ::ₘ b.marking
        seen := b.seen.insert (message.place, id) () }

/-- A message in flight is delivered; the order of delivery is open. -/
def deliver (b : PoolBus) (message : PoolMessage) : Option PoolBus :=
  if message ∈ b.inFlight then
    some ({ b with inFlight := b.inFlight.erase message }.createToken message)
  else none

theorem createToken_cases (b : PoolBus) (message : PoolMessage) :
    (b.createToken message).inFlight = b.inFlight ∧
      ((b.createToken message).marking = message.token ::ₘ b.marking ∨
        (b.createToken message).marking = b.marking ∧
          ∃ id, message.dedupId = some id ∧ b.seen.get (message.place, id) ≠ none) := by
  unfold createToken
  split
  · exact ⟨rfl, Or.inl rfl⟩
  · next id hid =>
    split
    · next u hseen =>
      obtain ⟨hid', -⟩ := Option.filter_eq_some_iff.mp hid
      exact ⟨rfl, Or.inr ⟨rfl, id, hid', by simp [hseen]⟩⟩
    · exact ⟨rfl, Or.inl rfl⟩

/-- What a delivery does: the message is in flight no more, and unless the filter drops it, its
token is in the net. -/
theorem deliver_cases {b b' : PoolBus} {message : PoolMessage} (h : b.deliver message = some b') :
    message ∈ b.inFlight ∧ b'.inFlight = b.inFlight.erase message ∧
      (b'.marking = message.token ::ₘ b.marking ∨ b'.marking = b.marking ∧
          ∃ id, message.dedupId = some id ∧ b.seen.get (message.place, id) ≠ none) := by
  unfold deliver at h
  split at h
  · next hmem =>
    cases h
    obtain ⟨hflight, hmark⟩ :=
      createToken_cases { b with inFlight := b.inFlight.erase message } message
    exact ⟨hmem, hflight, hmark⟩
  · cases h

end PoolBus

end Mekhan

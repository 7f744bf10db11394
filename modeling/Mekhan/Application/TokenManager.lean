import Mekhan.Application.Executor
import Mekhan.Infrastructure.MemoryEventStore

/-!
# Creating tokens

`create_token_with_meta` of `application/src/token_manager.rs` up to its append, and the idempotency
index of `application/src/idempotency_index.rs`. What the code draws from the environment in one call
(fresh ids, the clock) is `Fresh`.
-/

namespace Mekhan

open Infra

/-- The arguments of one `create_token_with_meta` call. -/
structure TokenRequest where
  placeId : PlaceId
  color : TokenColor
  replyRouting : Option ReplyRouting
  signalKey : Option String
  dedupId : Option String

/-- What one call draws from the environment. -/
structure Fresh where
  tokenId : TokenId
  createdAt : DateTime
  /-- The id standing in for the missing transition of a rejected injection. -/
  transitionId : TransitionId
  appendedAt : DateTime

/-- Why a token is refused at a place: its data does not match the place's schema. -/
def injectionRejection (schemaRegistry : Option SchemaRegistry) (place : Place)
    (color : TokenColor) : Option String :=
  match schemaRegistry, place.tokenSchema, color with
  | some registry, some schemaRef, .data data =>
    match registry.validate schemaRef data with
    | .error e => some ("Token injection at place '" ++ place.name ++ "': " ++ e.display)
    | .ok () => none
  | _, _, _ => none

def TokenRequest.token (r : TokenRequest) (fresh : Fresh) : Token :=
  { Token.new fresh.tokenId fresh.createdAt r.color with replyRouting := r.replyRouting }

/-- The checks of `create_token_with_meta` and the event it appends. -/
def tokenCreatedEvent (topology : Option PetriNet) (schemaRegistry : Option SchemaRegistry)
    (r : TokenRequest) (fresh : Fresh) : Except ServiceError DomainEvent :=
  match topology with
  | none => .error .noTopology
  | some net =>
    match net.getPlace r.placeId with
    | none => .error (.placeNotFound r.placeId)
    | some place =>
      match injectionRejection schemaRegistry place r.color with
      | some error => .error (.schemaValidationFailed place.name fresh.transitionId error)
      | none => .ok (.tokenCreated (r.token fresh) r.placeId none none r.signalKey r.dedupId)

variable {topology : Option PetriNet} {schemaRegistry : Option SchemaRegistry} {r : TokenRequest}
  {fresh : Fresh} {ev : DomainEvent}

theorem tokenCreatedEvent_ok (h : tokenCreatedEvent topology schemaRegistry r fresh = .ok ev) :
    ev = .tokenCreated (r.token fresh) r.placeId none none r.signalKey r.dedupId := by
  unfold tokenCreatedEvent at h
  split at h
  · cases h
  · split at h
    · cases h
    · split at h
      · cases h
      · exact (Except.ok.inj h).symm

/-- The key a request is deduplicated under: a non-empty dedup id. -/
def TokenRequest.dedupKey? (r : TokenRequest) : Option DedupKey :=
  match r.dedupId with
  | some id => if id = "" then none else some (r.placeId, id)
  | none => none

theorem dedupKey?_tokenCreatedEvent (h : tokenCreatedEvent topology schemaRegistry r fresh = .ok ev) :
    ev.dedupKey? = r.dedupKey? := by
  rw [tokenCreatedEvent_ok h]
  unfold DomainEvent.dedupKey? TokenRequest.dedupKey?
  cases r.dedupId <;> rfl

/-! ## The idempotency index -/

/-- `DedupIndex`: a ring, once it has been seeded. -/
structure DedupIndex where
  cell : Option BoundedDedup

namespace DedupIndex

def new : DedupIndex := ⟨none⟩

/-- `get_or_init`: seeds the ring from the store on the first touch. -/
def ensure (index : DedupIndex) (g : Inner) : BoundedDedup :=
  match index.cell with
  | some ring => ring
  | none => g.dedupSeedFull

def insert (index : DedupIndex) (g : Inner) (key : DedupKey) (e : PersistedEvent) : DedupIndex :=
  ⟨some ((index.ensure g).insert key e)⟩

end DedupIndex

end Mekhan

import Mekhan.Application.Ports
import Mekhan.Domain.Serde

/-!
# The JSON form of a snapshot

The `Serialize` and `Deserialize` of `NetSnapshot` (`application/src/net_snapshot.rs`) and of the
`Marking` in it. The marking is a hash map of its places: it is written in the iteration order `it`
and read back into a map.
-/

namespace Mekhan

open Infra Infra.Serde Infra.Serde.Codec Infra.Serde.Fields

namespace Serde

variable (impl : MapImpl) (texts : Texts)

def markingTokens : Codec impl (HashMap PlaceId (List Token)) :=
  (stringMap (list (token impl texts))).map
    (HashMap.rekey placeName)

/-- `Marking`, with the iteration order of its map. -/
def marking : Codec impl (HashMap PlaceId (List Token)) :=
  object (required "tokens" (markingTokens impl texts))

def dedupEntry : Codec impl DedupEntry :=
  object <| ((required "place_id" string).append <| (required "dedup_id" string).append <|
      required "event" (persistedEvent impl texts)).map
    ⟨fun (p, d, e) => ⟨p, d, e⟩, fun e => (e.placeId, e.dedupId, e.event),
      fun _ => rfl, fun _ => rfl⟩

/-- The fields of a snapshot, its marking with an iteration order. -/
abbrev SnapshotFields := HashMap PlaceId (List Token) × List DedupEntry × Option String × Nat × Nat ×
  Nat × Option PetriNet × Nat

def snapshotFields : Codec impl SnapshotFields :=
  object ((required "marking" (marking impl texts)).append <|
    (required "dedup" (list (dedupEntry impl texts))).append <|
    (nullable "last_hash" string).append <| (required "event_count" nat).append <|
    (required "next_sequence" nat).append <| (required "last_stream_seq" nat).append <|
    (nullable "topology" (petriNet impl texts)).append <| defaulted "version" nat 0)

end Serde

/-- What the snapshot is written as, its marking iterated in the order `it`. -/
def NetSnapshot.write (impl : MapImpl) (texts : Texts) (s : NetSnapshot)
    (it : Iteration s.marking.tokens) : Json :=
  (Serde.snapshotFields impl texts).enc
    (it.map, s.dedup, s.lastHash, s.eventCount, s.nextSequence, s.lastStreamSeq, s.topology, s.version)

def NetSnapshot.Reads (impl : MapImpl) (texts : Texts) (j : Json) (s : NetSnapshot) : Prop :=
  ∃ tokens : HashMap PlaceId (List Token), s.marking.tokens = tokens.toFinmap ∧
    (Serde.snapshotFields impl texts).Reads j
      (tokens, s.dedup, s.lastHash, s.eventCount, s.nextSequence, s.lastStreamSeq, s.topology,
        s.version)

end Mekhan

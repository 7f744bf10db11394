import Mekhan.Domain.Events
import Mekhan.Infra.BoundedFifo

/-!
# Dedup ring and snapshots

The `BoundedDedup` ring of `application/src/ports.rs` and the hibernation snapshot of
`application/src/net_snapshot.rs`. The ring is the bounded FIFO map of `Infra/BoundedFifo.lean` at
the keys `(place, dedup id)`; iterating it goes through its hash map, in whatever order that map has.
-/

namespace Mekhan

open Infra

/-! ## The ring -/

abbrev DedupKey := PlaceId × String

/-- `(place_id, dedup_id)` to the originating `TokenCreated` event. -/
abbrev BoundedDedup := BoundedFifo DedupKey PersistedEvent

/-- The key under which an event is indexed: a `TokenCreated` with a non-empty dedup id. -/
def DomainEvent.dedupKey? : DomainEvent → Option DedupKey
  | .tokenCreated _ placeId _ _ _ (some id) => if id = "" then none else some (placeId, id)
  | _ => none

def absorbDedup (seed : BoundedDedup) (e : PersistedEvent) : BoundedDedup :=
  match e.event.dedupKey? with
  | some key => seed.insert key e
  | none => seed

theorem get_foldl_absorbDedup {key : DedupKey} : ∀ {hist : List PersistedEvent}
    {seed : BoundedDedup}, seed.get key = none → (∀ e ∈ hist, e.event.dedupKey? ≠ some key) →
      (hist.foldl absorbDedup seed).get key = none
  | [], _, hseed, _ => hseed
  | e :: hist, seed, hseed, hall => by
    rw [List.foldl_cons]
    refine get_foldl_absorbDedup ?_ fun f hf => hall f (List.mem_cons_of_mem _ hf)
    have he := hall e List.mem_cons_self
    unfold absorbDedup
    split
    · next k hk => exact BoundedFifo.get_insert_none e (fun hkey => he (hkey ▸ hk)) hseed
    · exact hseed

/-- What a ring filled from a history finds under a key is an event of that history with that key,
or was there before. -/
theorem get_foldl_absorbDedup_some {key : DedupKey} {found : PersistedEvent} :
    ∀ {hist : List PersistedEvent} {seed : BoundedDedup}, (hist.foldl absorbDedup seed).get key = some found →
        (found ∈ hist ∧ found.event.dedupKey? = some key) ∨ seed.get key = some found
  | [], _, h => Or.inr h
  | e :: hist, seed, h => by
    rw [List.foldl_cons] at h
    rcases get_foldl_absorbDedup_some h with ⟨hmem, hkey⟩ | hseed
    · exact Or.inl ⟨List.mem_cons_of_mem _ hmem, hkey⟩
    · unfold absorbDedup at hseed
      split at hseed
      · next k hk =>
        rcases BoundedFifo.get_insert_some hseed with ⟨rfl, rfl⟩ | hold
        · exact Or.inl ⟨List.mem_cons_self .., hk⟩
        · exact Or.inr hold
      · exact Or.inr hseed

/-! ## Snapshots -/

/-- One entry of the ring, with the place id rendered to its string. -/
structure DedupEntry where
  placeId : String
  dedupId : String
  event : PersistedEvent

/-- What is persisted of a net at hibernation. -/
structure NetSnapshot where
  marking : Marking
  dedup : List DedupEntry
  lastHash : Option String
  eventCount : Nat
  nextSequence : Nat
  lastStreamSeq : Nat
  topology : Option PetriNet
  version : Nat

def snapshotVersion : Nat := 2

/-- What the store captures, before it is assembled into a snapshot. -/
structure SnapshotInputs where
  marking : Marking
  dedup : BoundedDedup
  lastHash : Option String
  eventCount : Nat
  nextSequence : Nat
  lastStreamSeq : Nat
  topology : Option PetriNet

namespace NetSnapshot

/-- The key and event a serialized entry stands for. -/
def DedupEntry.toPair (e : DedupEntry) : DedupKey × PersistedEvent := ((⟨e.placeId⟩, e.dedupId), e.event)

/-- Inserts serialized entries into an empty ring, in their order. -/
def restoreDedup (entries : List DedupEntry) (cap : Nat) : BoundedDedup :=
  (BoundedFifo.withCap cap).insertAll (entries.map DedupEntry.toPair)

def dedupSeed (s : NetSnapshot) (cap : Nat) : BoundedDedup := restoreDedup s.dedup cap

/-- Serializes the ring. `seed.iter()` walks the hash map, so the entries come in the order `it` of
that map, not in the ring's own. -/
def dedupEntries (seed : BoundedDedup) (it : Iteration seed.map) : List DedupEntry :=
  it.map.toPairs.map fun e => ⟨e.1.1.name, e.1.2, e.2⟩

end NetSnapshot

def SnapshotInputs.intoSnapshot (i : SnapshotInputs) (it : Iteration i.dedup.map) :
    NetSnapshot where
  marking := i.marking
  dedup := NetSnapshot.dedupEntries i.dedup it
  lastHash := i.lastHash
  eventCount := i.eventCount
  nextSequence := i.nextSequence
  lastStreamSeq := i.lastStreamSeq
  topology := i.topology
  version := snapshotVersion

end Mekhan

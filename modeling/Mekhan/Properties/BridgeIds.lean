import Mekhan.Infra.Runs
import Mekhan.Nats.EventStore

/-!
# Bridge dedup ids over the life of a net

A bridged token is published under `bridge:net:sequence`, with the sequence of its source event. The
receiving net drops a token whose place and dedup id it has seen. The sequence counter is moved by
`append`, and set by `reset`, by the creation of a store and by `seed_write_state`.

The system is one net: its stream, the write state of its current store, the cache by its event
state, and a snapshot. The engine's store factory creates the store before the cache is hydrated, so
a store that is re-created without a snapshot starts at sequence `0` beside a full cache; after a
snapshot wake the write state is seeded from the cache.
-/

namespace Mekhan

open Infra

def EventState.empty : EventState := ⟨.new, 0, none, 0, 0⟩

def DomainEvent.isBridgedOut : DomainEvent → Bool
  | .tokenBridgedOut .. => true
  | _ => false

/-- An event with its position on the stream. -/
abbrev Placed := Nat × PersistedEvent

structure BridgeSender where
  writeState : WriteState
  /-- The net's events, each with its stream sequence. -/
  stream : List (PersistedEvent × Nat)
  cache : EventState
  /-- How many events of the stream the cache has loaded. -/
  applied : Nat
  /-- The snapshot of the last hibernation, and the position the stream is resumed at. -/
  snapshot : Option (EventState × Nat)
  /-- The `TokenBridgedOut` events whose `append` has its acknowledgement and has not come to the
  bridge publish. -/
  waiting : List Placed
  /-- The events whose token was published, and what was published for them. -/
  bridged : List Placed
  published : List BridgeMessage

inductive SenderAction where
  | append (now : DateTime) (event : DomainEvent) (outcome : PublishOutcome) (streamSeq : Nat)
  /-- The wait of an `append` ends and its token is published. -/
  | bridge (x : Placed) (now : DateTime)
  /-- The wait fails, or the bridge publish does. -/
  | giveUp (x : Placed)
  | consume
  | reset
  /-- The store is re-created and the whole stream is replayed. -/
  | reload
  | hibernate
  /-- The store is re-created and seeded from the snapshot, and the rest of the stream is replayed. -/
  | wake

namespace BridgeSender

def fresh : BridgeSender where
  writeState := ⟨0, none⟩
  stream := []
  cache := .empty
  applied := 0
  snapshot := none
  waiting := []
  bridged := []
  published := []

def recoverLastHash (s : BridgeSender) : Option String :=
  if 0 < s.writeState.nextSequence ∧ s.writeState.lastHash = none then s.cache.chainTipHash
  else s.writeState.lastHash

variable (fmt : EventFormat) (netId : Option String)

def append (s : BridgeSender) (now : DateTime) (event : DomainEvent) (outcome : PublishOutcome)
    (streamSeq : Nat) : BridgeSender :=
  let persisted := PersistedEvent.new fmt now s.writeState.nextSequence event s.recoverLastHash
  match outcome with
  | .acked => { s with
      writeState := ⟨s.writeState.nextSequence + 1, some persisted.hash⟩
      stream := s.stream ++ [(persisted, streamSeq)]
      waiting :=
        if event.isBridgedOut then s.waiting ++ [(s.stream.length, persisted)] else s.waiting }
  | .ackLost => { s with
      writeState := ⟨s.writeState.nextSequence, s.recoverLastHash⟩
      stream := s.stream ++ [(persisted, streamSeq)] }
  | .duplicate | .failed => { s with
      writeState := ⟨s.writeState.nextSequence, s.recoverLastHash⟩ }

def step (s : BridgeSender) : SenderAction → Option BridgeSender
  | .append now event outcome streamSeq => some (s.append fmt now event outcome streamSeq)
  | .bridge x now =>
    if x ∈ s.waiting then
      match publishBridgeOut netId now x.2 with
      | some message =>
        some { s with
          waiting := s.waiting.erase x
          bridged := s.bridged ++ [x]
          published := s.published ++ [message] }
      | none => none
    else none
  | .giveUp x => some { s with waiting := s.waiting.erase x }
  | .consume =>
    match s.stream[s.applied]? with
    | some e => some { s with cache := s.cache.load e, applied := s.applied + 1 }
    | none => none
  | .reset => some { s with cache := .empty, writeState := ⟨0, none⟩ }
  | .reload =>
    -- The watch channel of a new store shows 0, and hydration does not touch the write state.
    some { s with
      writeState := ⟨0, none⟩
      cache := s.stream.foldl EventState.load .empty
      applied := s.stream.length }
  | .hibernate => some { s with snapshot := some (s.cache, s.applied) }
  | .wake =>
    match s.snapshot with
    | some (seed, position) =>
      let cache := (s.stream.drop position).foldl EventState.load seed
      some { s with
        cache := cache
        applied := s.stream.length
        writeState := ⟨cache.nextSequence, cache.chainTipHash⟩ }
    | none => none

/-- A receiver that has seen the messages before it takes this one for a repetition. -/
def Repeats (earlier later : BridgeMessage) : Prop :=
  earlier.targetNetId = later.targetNetId ∧ earlier.targetPlaceName = later.targetPlaceName ∧
    earlier.transfer.dedupId = later.transfer.dedupId

/-- No two published tokens carry one dedup id, so no receiver drops one for another. -/
def DistinctIds (s : BridgeSender) : Prop :=
  (s.published.map (·.transfer.dedupId)).Nodup ∧
    s.published.Pairwise fun earlier later => ¬ Repeats earlier later

/-- The events whose token is published or still to be published. -/
def outstanding (s : BridgeSender) : List Placed := s.waiting ++ s.bridged

/-- The sequence counter is set back only while no bridged token is out or on its way. -/
def Unbridged (s : BridgeSender) : SenderAction → Prop
  | .reset | .reload => s.outstanding = []
  | _ => True

/-! ## The invariant -/

/-- A cursor at a position of the stream is past the sequence of every outstanding event before that
position. -/
def Covers (s : BridgeSender) (nextSequence position : Nat) : Prop :=
  ∀ x ∈ s.outstanding, x.1 < position → x.2.sequence < nextSequence

structure Inv (s : BridgeSender) : Prop where
  placed : ∀ x ∈ s.outstanding, ∃ streamSeq, s.stream[x.1]? = some (x.2, streamSeq)
  below : ∀ x ∈ s.outstanding, x.2.sequence < s.writeState.nextSequence
  distinct : (s.outstanding.map (·.2.sequence)).Nodup
  applied : s.applied ≤ s.stream.length
  cache : s.Covers s.cache.nextSequence s.applied
  snapshot : ∀ seed position, s.snapshot = some (seed, position) →
    position ≤ s.stream.length ∧ s.Covers seed.nextSequence position
  ids : s.published.map (·.transfer.dedupId) =
    s.bridged.map fun x => some (bridgeDedupId netId x.2.sequence)

variable {fmt netId} {s s' : BridgeSender}

theorem Inv.distinctIds (h : s.Inv netId) : s.DistinctIds := by
  have hseqs : (s.bridged.map (·.2.sequence)).Nodup := by
    have hall := h.distinct
    rw [outstanding, List.map_append] at hall
    exact (List.nodup_append.mp hall).2.1
  have hids : (s.published.map (·.transfer.dedupId)).Nodup := by
    rw [h.ids, show (fun x : Placed => some (bridgeDedupId netId x.2.sequence)) =
      (fun n => some (bridgeDedupId netId n)) ∘ (·.2.sequence) from rfl, ← List.map_map]
    refine hseqs.map fun m n hmn => ?_
    exact bridgeDedupId_injective netId (Option.some.inj hmn)
  refine ⟨hids, (List.pairwise_map.mp hids).imp ?_⟩
  exact fun hne hrep => hne hrep.2.2

theorem inv_fresh : fresh.Inv netId where
  placed x hx := absurd hx (by simp [outstanding, fresh])
  below x hx := absurd hx (by simp [outstanding, fresh])
  distinct := List.nodup_nil
  applied := Nat.le_refl _
  cache x hx := absurd hx (by simp [outstanding, fresh])
  snapshot _ _ h := absurd h (by simp [fresh])
  ids := rfl

theorem nextSequence_foldl_load : ∀ (events : List (PersistedEvent × Nat)) (st : EventState),
    st.nextSequence ≤ (events.foldl EventState.load st).nextSequence ∧
      ∀ e ∈ events, e.1.sequence < (events.foldl EventState.load st).nextSequence
  | [], _ => ⟨Nat.le_refl _, by simp⟩
  | e :: events, st => by
    obtain ⟨hle, hall⟩ := nextSequence_foldl_load events (st.load e)
    have hload : (st.load e).nextSequence = max st.nextSequence (e.1.sequence + 1) := rfl
    rw [List.foldl_cons]
    refine ⟨by omega, fun f hf => ?_⟩
    rcases List.mem_cons.mp hf with rfl | hf
    · omega
    · exact hall f hf

theorem inv_of_outstanding_nil (h : s.outstanding = []) (happlied : s.applied ≤ s.stream.length)
    (hsnapshot : ∀ seed position, s.snapshot = some (seed, position) → position ≤ s.stream.length)
    (hids : s.published.map (·.transfer.dedupId) =
      s.bridged.map fun x => some (bridgeDedupId netId x.2.sequence)) : s.Inv netId where
  placed x hx := absurd hx (by simp [h])
  below x hx := absurd hx (by simp [h])
  distinct := by simp [h]
  applied := happlied
  cache x hx := absurd hx (by simp [h])
  snapshot seed position hs := ⟨hsnapshot seed position hs, fun x hx => absurd hx (by simp [h])⟩
  ids := hids

/-! ## One step -/

theorem Inv.write (h : s.Inv netId) (w : WriteState)
    (hle : s.writeState.nextSequence ≤ w.nextSequence) : { s with writeState := w }.Inv netId where
  placed := h.placed
  below x hx := (h.below x hx).trans_le hle
  distinct := h.distinct
  applied := h.applied
  cache := h.cache
  snapshot := h.snapshot
  ids := h.ids

theorem Inv.push (h : s.Inv netId) (e : PersistedEvent × Nat) :
    { s with stream := s.stream ++ [e] }.Inv netId where
  placed x hx := by
    obtain ⟨streamSeq, hget⟩ := h.placed x hx
    obtain ⟨hlt, -⟩ := List.getElem?_eq_some_iff.mp hget
    exact ⟨streamSeq, (List.getElem?_append_left hlt).trans hget⟩
  below := h.below
  distinct := h.distinct
  applied := by
    show s.applied ≤ (s.stream ++ [e]).length
    rw [List.length_append]
    exact Nat.le_add_right_of_le h.applied
  cache := h.cache
  snapshot seed position hs := by
    obtain ⟨hle, hcovers⟩ := h.snapshot seed position hs
    refine ⟨?_, hcovers⟩
    show position ≤ (s.stream ++ [e]).length
    rw [List.length_append]
    exact Nat.le_add_right_of_le hle
  ids := h.ids

/-- An acknowledged event joins the outstanding ones: it is the last of the stream, above every
sequence there and behind every cursor. -/
theorem Inv.await (h : s.Inv netId) (streamSeq : Nat) (persisted : PersistedEvent)
    (hseq : persisted.sequence = s.writeState.nextSequence) : { s with
      writeState := ⟨s.writeState.nextSequence + 1, some persisted.hash⟩
      stream := s.stream ++ [(persisted, streamSeq)]
      waiting := s.waiting ++ [(s.stream.length, persisted)] }.Inv netId := by
  have hgrown := (h.push (persisted, streamSeq)).write
    ⟨s.writeState.nextSequence + 1, some persisted.hash⟩ (Nat.le_succ _)
  have hmem : ∀ x, x ∈ (s.waiting ++ [(s.stream.length, persisted)]) ++ s.bridged →
      x = (s.stream.length, persisted) ∨ x ∈ s.outstanding := by
    intro x hx
    simp only [List.mem_append, List.mem_singleton] at hx
    rcases hx with (hw | rfl) | hb
    · exact Or.inr (List.mem_append_left _ hw)
    · exact Or.inl rfl
    · exact Or.inr (List.mem_append_right _ hb)
  constructor
  case placed =>
    intro x hx
    rcases hmem x hx with rfl | hold
    · exact ⟨streamSeq, List.getElem?_concat_length ..⟩
    · exact hgrown.placed x hold
  case below =>
    intro x hx
    rcases hmem x hx with rfl | hold
    · exact hseq ▸ Nat.lt_succ_self _
    · exact hgrown.below x hold
  case distinct =>
    have hperm : ((s.waiting ++ [(s.stream.length, persisted)]) ++ s.bridged).Perm
        ((s.stream.length, persisted) :: s.outstanding) := by
      rw [List.append_assoc, List.singleton_append]
      exact List.perm_middle
    refine (hperm.map _).nodup_iff.mpr (List.nodup_cons.mpr ⟨fun hin => ?_, h.distinct⟩)
    obtain ⟨x, hx, hxseq⟩ := List.mem_map.mp hin
    exact (h.below x hx).ne (hxseq.trans hseq)
  case applied => exact hgrown.applied
  case cache =>
    intro x hx hlt
    rcases hmem x hx with rfl | hold
    · exact absurd hlt (Nat.not_lt.mpr h.applied)
    · exact h.cache x hold hlt
  case snapshot =>
    intro seed position hs
    refine ⟨(hgrown.snapshot seed position hs).1, fun x hx hlt => ?_⟩
    rcases hmem x hx with rfl | hold
    · exact absurd hlt (Nat.not_lt.mpr (h.snapshot seed position hs).1)
    · exact (h.snapshot seed position hs).2 x hold hlt
  case ids => exact h.ids

theorem inv_append (h : s.Inv netId) (now : DateTime) (event : DomainEvent)
    (outcome : PublishOutcome) (streamSeq : Nat) : (s.append fmt now event outcome streamSeq).Inv netId := by
  cases outcome with
  | acked =>
    by_cases hbridged : event.isBridgedOut
    · simp only [append, hbridged, if_true]
      exact h.await streamSeq _ rfl
    · simp only [append, hbridged]
      exact (h.push _).write _ (Nat.le_succ _)
  | ackLost => exact (h.push _).write _ (Nat.le_refl _)
  | duplicate => exact h.write _ (Nat.le_refl _)
  | failed => exact h.write _ (Nat.le_refl _)

theorem Inv.settle (h : s.Inv netId) {waiting bridged : List Placed} {published : List BridgeMessage}
    (hsub : (waiting ++ bridged).Subperm s.outstanding) (hids : published.map (·.transfer.dedupId) =
      bridged.map fun x => some (bridgeDedupId netId x.2.sequence)) :
    { s with waiting := waiting, bridged := bridged, published := published }.Inv netId where
  placed x hx := h.placed x (hsub.subset hx)
  below x hx := h.below x (hsub.subset hx)
  distinct := by
    obtain ⟨l, hperm, hsublist⟩ := hsub
    exact (hperm.map _).nodup_iff.mp ((hsublist.map _).nodup h.distinct)
  applied := h.applied
  cache x hx := h.cache x (hsub.subset hx)
  snapshot seed position hs :=
    ⟨(h.snapshot seed position hs).1, fun x hx => (h.snapshot seed position hs).2 x (hsub.subset hx)⟩
  ids := hids

theorem inv_bridge (h : s.Inv netId) {x : Placed} {now : DateTime} {message : BridgeMessage}
    (hx : x ∈ s.waiting) (hmessage : publishBridgeOut netId now x.2 = some message) : { s with
      waiting := s.waiting.erase x
      bridged := s.bridged ++ [x]
      published := s.published ++ [message] }.Inv netId := by
  refine h.settle ?_ ?_
  · have hperm : (s.waiting.erase x ++ (s.bridged ++ [x])).Perm s.outstanding := by
      rw [← List.append_assoc]
      refine (List.perm_append_singleton ..).trans ?_
      rw [← List.cons_append]
      exact (List.perm_cons_erase hx).symm.append_right _
    exact hperm.subperm
  · rw [List.map_append, List.map_append, h.ids, List.map_singleton, List.map_singleton,
      dedupId_publishBridgeOut hmessage]

theorem inv_consume (h : s.Inv netId) {e : PersistedEvent × Nat} (hget : s.stream[s.applied]? = some e) :
    { s with cache := s.cache.load e, applied := s.applied + 1 }.Inv netId where
  placed := h.placed
  below := h.below
  distinct := h.distinct
  applied := (List.getElem?_eq_some_iff.mp hget).1
  cache x hx hlt := by
    show x.2.sequence < max s.cache.nextSequence (e.1.sequence + 1)
    rcases Nat.lt_succ_iff_lt_or_eq.mp hlt with hlt | heq
    · exact lt_max_of_lt_left (h.cache x hx hlt)
    · obtain ⟨streamSeq, hx'⟩ := h.placed x hx
      rw [heq, hget] at hx'
      rw [Option.some.inj hx']
      exact lt_max_of_lt_right (Nat.lt_succ_self _)
  snapshot := h.snapshot
  ids := h.ids

theorem inv_wake (h : s.Inv netId) {seed : EventState} {position : Nat}
    (hs : s.snapshot = some (seed, position)) {cache : EventState}
    (hcache : cache = (s.stream.drop position).foldl EventState.load seed) : { s with
      cache := cache
      applied := s.stream.length
      writeState := ⟨cache.nextSequence, cache.chainTipHash⟩ }.Inv netId := by
  obtain ⟨hle, hall⟩ := nextSequence_foldl_load (s.stream.drop position) seed
  rw [← hcache] at hle hall
  have hcovers : ∀ x ∈ s.outstanding, x.2.sequence < cache.nextSequence := by
    intro x hx
    by_cases hlt : x.1 < position
    · exact ((h.snapshot seed position hs).2 x hx hlt).trans_le hle
    · obtain ⟨streamSeq, hget⟩ := h.placed x hx
      refine hall (x.2, streamSeq) (List.mem_of_getElem? (i := x.1 - position) ?_)
      rw [List.getElem?_drop, Nat.add_sub_cancel' (Nat.le_of_not_lt hlt)]
      exact hget
  exact ⟨h.placed, hcovers, h.distinct, Nat.le_refl _, fun x hx _ => hcovers x hx, h.snapshot, h.ids⟩

theorem inv_step {a : SenderAction} (h : s.Inv netId) (hun : s.Unbridged a)
    (h' : step fmt netId s a = some s') : s'.Inv netId := by
  cases a with
  | append now event outcome streamSeq =>
    cases h'
    exact inv_append h now event outcome streamSeq
  | bridge x now =>
    simp only [step] at h'
    split at h'
    · next hx =>
      split at h'
      · next message hmessage =>
        cases h'
        exact inv_bridge h hx hmessage
      · cases h'
    · cases h'
  | giveUp x =>
    cases h'
    exact h.settle ((s.waiting.erase_sublist ..).append_right _).subperm h.ids
  | consume =>
    simp only [step] at h'
    split at h'
    · next e hget =>
      cases h'
      exact inv_consume h hget
    · cases h'
  | reset =>
    cases h'
    exact inv_of_outstanding_nil hun h.applied (fun _ _ hs => (h.snapshot _ _ hs).1) h.ids
  | reload =>
    cases h'
    exact inv_of_outstanding_nil hun (Nat.le_refl _) (fun _ _ hs => (h.snapshot _ _ hs).1) h.ids
  | hibernate =>
    cases h'
    refine ⟨h.placed, h.below, h.distinct, h.applied, h.cache, fun seed position hs => ?_, h.ids⟩
    cases hs
    exact ⟨h.applied, h.cache⟩
  | wake =>
    simp only [step] at h'
    split at h'
    · next seed position hs =>
      cases h'
      exact inv_wake h hs rfl
    · cases h'

end BridgeSender

open BridgeSender

/-- **Bridge dedup ids are distinct while the counter is not set back under a bridged token.** -/
theorem bridgeIds_distinct (fmt : EventFormat) (netId : Option String) (run : List SenderAction)
    (s : BridgeSender) (hun : Along (step fmt netId) Unbridged fresh run)
    (h : exec (step fmt netId) fresh run = some s) : s.DistinctIds := by
  have hinv : s.Inv netId :=
    exec_invariant_along (fun _ _ _ hs hu h => inv_step hs hu h) inv_fresh hun h
  exact hinv.distinctIds

/-- A token on its way to `inbox` of the net `remote`. -/
def tokenOut (id : Uuid) : DomainEvent :=
  .tokenBridgedOut (.new ⟨id⟩ ⟨0⟩ .unit) ⟨"outbox"⟩ "outbox" "remote" "inbox" ⟨"send"⟩ "key" none none
    none

def firstOut (id : Uuid) : PersistedEvent := .new .plain ⟨0⟩ 0 (tokenOut id) none

/-- A token goes out, the net hibernates, wakes and sends another one. -/
def outWakeOut : List SenderAction :=
  [.append ⟨0⟩ (tokenOut 1) .acked 1, .consume, .bridge (0, firstOut 1) ⟨0⟩, .hibernate, .wake,
    .append ⟨0⟩ (tokenOut 2) .acked 2, .consume,
    .bridge (1, .new .plain ⟨0⟩ 1 (tokenOut 2) (some "#")) ⟨0⟩]

theorem bridgeIds_distinct_wake :
    ∃ s, exec (step .plain (some "net")) fresh outWakeOut = some s ∧ s.published.length = 2 ∧
      s.DistinctIds := by
  have hun : Along (step .plain (some "net")) Unbridged fresh outWakeOut :=
    along_cons trivial rfl <| along_cons trivial rfl <| along_cons trivial rfl <|
      along_cons trivial rfl <| along_cons trivial rfl <| along_cons trivial rfl <|
      along_cons trivial rfl <| along_cons trivial rfl trivial
  exact ⟨_, rfl, rfl, bridgeIds_distinct .plain (some "net") outWakeOut _ hun rfl⟩

/-- **A reset makes the next bridged token a repetition.** Both tokens are published as
`bridge:net:0`, and the receiver drops the second. -/
theorem bridgeIds_reused : ∃ s, exec (step .plain (some "net")) fresh
        [.append ⟨0⟩ (tokenOut 1) .acked 1, .bridge (0, firstOut 1) ⟨0⟩, .reset,
          .append ⟨0⟩ (tokenOut 2) .acked 2, .bridge (1, firstOut 2) ⟨0⟩] = some s ∧
      s.published.map (·.transfer.dedupId) = [some "bridge:net:0", some "bridge:net:0"] ∧
      ¬ s.DistinctIds := by
  refine ⟨_, rfl, by decide, fun h => ?_⟩
  exact absurd h.1 (by decide)

end Mekhan

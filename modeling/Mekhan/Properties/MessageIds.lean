import Mekhan.Application.TokenManager
import Mekhan.Infra.Runs
import Mekhan.Nats.EventStore

/-!
# The two dedup layers

An injection is filtered twice: by the net's idempotency index, under place and dedup id, and by the
broker, under the message id `tc:net:id`. The message id leaves the place out, writes a missing net
as `_`, and joins net and dedup id by a character both may contain.

The system is one stream with every net that publishes to it. The broker may forget a message id at
any time, and the index of a net may come back with other keys (eviction, a restart).
-/

namespace Mekhan

open Infra

/-- Who asks for which token. -/
structure InjectionKey where
  net : Option String
  place : PlaceId
  dedupId : String
  deriving DecidableEq

namespace InjectionKey

def netText (k : InjectionKey) : String := k.net.getD "_"

def messageId (k : InjectionKey) : String := "tc:" ++ k.netText ++ ":" ++ k.dedupId

end InjectionKey

/-- The key of an event published by a net. -/
def DomainEvent.injectionKey? (net : Option String) (event : DomainEvent) : Option InjectionKey :=
  event.dedupKey?.map fun key => ⟨net, key.1, key.2⟩

theorem dedupMsgId_eq (event : DomainEvent) (net : Option String) :
    dedupMsgId event net = (event.injectionKey? net).map InjectionKey.messageId := by
  cases event with
  | tokenCreated token placeId placeName workflowId signalKey dedupId =>
    cases dedupId with
    | none => rfl
    | some id =>
      simp only [dedupMsgId, DomainEvent.injectionKey?, DomainEvent.dedupKey?]
      by_cases hid : id = ""
      · simp only [if_pos hid, Option.map_none]
      · simp only [if_neg hid, Option.map_some]
        rfl
  | _ => rfl

/-! ## When two keys share a message id -/

theorem append_cons_eq_append_cons_iff {α : Type} {c : α} {xs ys xs' ys' : List α} :
    xs ++ c :: ys = xs' ++ c :: ys' ↔ (xs = xs' ∧ ys = ys') ∨ (∃ z, xs' = xs ++ c :: z ∧ ys = z ++ c :: ys') ∨
        ∃ z, xs = xs' ++ c :: z ∧ ys' = z ++ c :: ys := by
  rw [List.append_eq_append_iff]
  constructor
  · rintro (⟨_ | ⟨a, z⟩, hxs, hys⟩ | ⟨_ | ⟨a, z⟩, hxs, hys⟩)
    · rw [List.append_nil] at hxs
      exact Or.inl ⟨hxs.symm, (List.cons.inj hys).2⟩
    · obtain ⟨rfl, hrest⟩ := List.cons.inj hys
      exact Or.inr (Or.inl ⟨z, hxs, hrest⟩)
    · rw [List.append_nil] at hxs
      exact Or.inl ⟨hxs, (List.cons.inj hys).2.symm⟩
    · obtain ⟨rfl, hrest⟩ := List.cons.inj hys
      exact Or.inr (Or.inr ⟨z, hxs, hrest⟩)
  · rintro (⟨rfl, rfl⟩ | ⟨z, rfl, rfl⟩ | ⟨z, rfl, rfl⟩)
    · exact Or.inl ⟨[], by simp⟩
    · exact Or.inl ⟨c :: z, by simp⟩
    · exact Or.inr ⟨c :: z, by simp⟩

/-- The net and dedup id of one key run into those of the other at a colon. -/
def InjectionKey.Shifted (k k' : InjectionKey) : Prop :=
  ∃ x, k'.netText = k.netText ++ ":" ++ x ∧ k.dedupId = x ++ ":" ++ k'.dedupId

/-- Two keys that no message id tells apart: same net text and dedup id, whatever the place, or net
and id that split one text at different colons. -/
def InjectionKey.Collides (k k' : InjectionKey) : Prop :=
  (k.netText = k'.netText ∧ k.dedupId = k'.dedupId) ∨ k.Shifted k' ∨ k'.Shifted k

theorem toList_messageId (k : InjectionKey) :
    k.messageId.toList = "tc:".toList ++ (k.netText.toList ++ ':' :: k.dedupId.toList) := by
  simp [InjectionKey.messageId]

variable {k k' : InjectionKey} {event : DomainEvent}

theorem shifted_iff_toList : k.Shifted k' ↔ ∃ z, k'.netText.toList = k.netText.toList ++ ':' :: z ∧
      k.dedupId.toList = z ++ ':' :: k'.dedupId.toList := by
  constructor
  · rintro ⟨x, hnet, hid⟩
    exact ⟨x.toList, by simp [hnet], by simp [hid]⟩
  · rintro ⟨z, hnet, hid⟩
    refine ⟨String.ofList z, ?_, ?_⟩
    · apply String.toList_injective
      simp [hnet]
    · apply String.toList_injective
      simp [hid]

/-- **What the message id forgets.** -/
theorem messageId_eq_iff : k.messageId = k'.messageId ↔ k.Collides k' := by
  rw [← String.toList_inj, toList_messageId, toList_messageId, List.append_cancel_left_eq,
    append_cons_eq_append_cons_iff, String.toList_inj, String.toList_inj, ← shifted_iff_toList,
    ← shifted_iff_toList]
  rfl

/-! ## Runs of injections -/

/-- One call of `create_token_with_meta` at a net. -/
structure Injection where
  net : Option String
  request : TokenRequest
  fresh : Fresh

structure BusEnv where
  topology : Option String → Option PetriNet
  schemaRegistry : Option String → Option SchemaRegistry

/-- The event the call appends, if its checks pass. -/
def Injection.event? (env : BusEnv) (i : Injection) : Option DomainEvent :=
  (tokenCreatedEvent (env.topology i.net) (env.schemaRegistry i.net) i.request i.fresh).toOption

/-- The key of an injection that its net accepts. -/
def Injection.key? (env : BusEnv) (i : Injection) : Option InjectionKey :=
  (i.event? env).bind (DomainEvent.injectionKey? i.net)

/-- The broker's stream and window, and the keys in each net's idempotency index. -/
structure Bus where
  window : List String
  stream : List (Option String × DomainEvent)
  index : Option String → List DedupKey

inductive BusAction where
  | inject (i : Injection)
  /-- The duplicate window of a message id ends. -/
  | expire (messageId : String)
  /-- A net's index comes to hold other keys: evicted ones are gone, a restart has seeded it. -/
  | reindex (net : Option String) (keys : List DedupKey)

namespace Bus

def empty : Bus := ⟨[], [], fun _ => []⟩

/-- The index has the request's key: the call returns without appending. -/
def Seen (s : Bus) (i : Injection) : Prop := ∃ key ∈ i.request.dedupKey?, key ∈ s.index i.net

instance (s : Bus) (i : Injection) : Decidable (s.Seen i) :=
  inferInstanceAs (Decidable (∃ key ∈ i.request.dedupKey?, key ∈ s.index i.net))

/-- The call records its key, dropped or not: `append` has returned an event either way. -/
def record (s : Bus) (i : Injection) : Bus :=
  { s with
    index := Function.update s.index i.net (i.request.dedupKey?.toList ++ s.index i.net) }

/-- The publish: dropped when the broker knows the message id. -/
def publish (s : Bus) (net : Option String) (event : DomainEvent) : Bus :=
  match dedupMsgId event net with
  | some id =>
    if id ∈ s.window then s
    else { s with window := id :: s.window, stream := s.stream ++ [(net, event)] }
  | none => { s with stream := s.stream ++ [(net, event)] }

def inject (env : BusEnv) (s : Bus) (i : Injection) : Bus :=
  if s.Seen i then s
  else
    match i.event? env with
    | none => s
    | some event => (s.publish i.net event).record i

def step (env : BusEnv) (s : Bus) : BusAction → Option Bus
  | .inject i => some (s.inject env i)
  | .expire messageId => some { s with window := s.window.filter (· ≠ messageId) }
  | .reindex net keys => some { s with index := Function.update s.index net keys }

/-- The injection reaches the broker and is dropped there. -/
def Drops (env : BusEnv) (s : Bus) (i : Injection) : Prop :=
  ¬ s.Seen i ∧ ∃ event ∈ i.event? env, ∃ id ∈ dedupMsgId event i.net, id ∈ s.window

/-- A publish is dropped only if an event with the same net, place and dedup id is on the stream. -/
def Justified (env : BusEnv) (s : Bus) : BusAction → Prop
  | .inject i => s.Drops env i →
      ∃ published ∈ s.stream, published.2.injectionKey? published.1 = i.key? env
  | _ => True

end Bus

def injections (run : List BusAction) : List Injection :=
  run.filterMap fun
    | .inject i => some i
    | _ => none

/-- No two accepted injections with different keys have one message id. -/
def KeysApart (keys : List InjectionKey) : Prop :=
  ∀ k ∈ keys, ∀ k' ∈ keys, k.Collides k' → k = k'

/-! ## What an injection does -/

variable {env : BusEnv} {s : Bus} {i : Injection}

theorem key?_eq (h : i.event? env = some event) :
    i.key? env = i.request.dedupKey?.map fun key => ⟨i.net, key.1, key.2⟩ := by
  have hok : tokenCreatedEvent (env.topology i.net) (env.schemaRegistry i.net) i.request i.fresh =
      .ok event := by
    unfold Injection.event? at h
    cases htok : tokenCreatedEvent (env.topology i.net) (env.schemaRegistry i.net) i.request i.fresh
    · rw [htok] at h
      exact absurd h (by simp [Except.toOption])
    · rw [htok] at h
      exact congrArg _ (Option.some.inj h)
  rw [Injection.key?, h, Option.bind_some, DomainEvent.injectionKey?, dedupKey?_tokenCreatedEvent hok]

theorem injectionKey?_eq (h : i.event? env = some event) : event.injectionKey? i.net = i.key? env := by
  rw [Injection.key?, h, Option.bind_some]

namespace Bus

/-- The four things an injection can do: return what the index has, be refused, be dropped by the
broker, or reach the stream. -/
inductive Injects (env : BusEnv) (s : Bus) (i : Injection) : Bus → Prop where
  | seen (h : s.Seen i) : Injects env s i s
  | refused (h : i.event? env = none) : Injects env s i s
  | dropped (event : DomainEvent) (k : InjectionKey) (hnew : ¬ s.Seen i)
      (hevent : i.event? env = some event) (hkey : i.key? env = some k)
      (hid : k.messageId ∈ s.window) : Injects env s i (s.record i)
  | keyed (event : DomainEvent) (k : InjectionKey) (hnew : ¬ s.Seen i)
      (hevent : i.event? env = some event) (hkey : i.key? env = some k)
      (hid : k.messageId ∉ s.window) : Injects env s i
        (({ s with window := k.messageId :: s.window,
                   stream := s.stream ++ [(i.net, event)] } : Bus).record i)
  | unkeyed (event : DomainEvent) (hevent : i.event? env = some event)
      (hkey : i.key? env = none) : Injects env s i
        (({ s with stream := s.stream ++ [(i.net, event)] } : Bus).record i)

theorem injects (env : BusEnv) (s : Bus) (i : Injection) : Injects env s i (s.inject env i) := by
  unfold inject
  by_cases hseen : s.Seen i
  · rw [if_pos hseen]
    exact .seen hseen
  · rw [if_neg hseen]
    cases hevent : i.event? env with
    | none => exact .refused hevent
    | some event =>
      show Injects env s i ((s.publish i.net event).record i)
      have hid : dedupMsgId event i.net = (i.key? env).map InjectionKey.messageId := by
        rw [dedupMsgId_eq, injectionKey?_eq hevent]
      rw [publish, hid]
      cases hkey : i.key? env with
      | none => exact .unkeyed event hevent hkey
      | some k =>
        show Injects env s i (Bus.record (if k.messageId ∈ s.window then s else _) i)
        by_cases hin : k.messageId ∈ s.window
        · rw [if_pos hin]
          exact .dropped event k hseen hevent hkey hin
        · rw [if_neg hin]
          exact .keyed event k hseen hevent hkey hin

theorem drops_iff : s.Drops env i ↔ ¬ s.Seen i ∧ ∃ k ∈ i.key? env, k.messageId ∈ s.window := by
  refine and_congr_right fun _ => ⟨?_, ?_⟩
  · rintro ⟨event, hevent, id, hid, hin⟩
    rw [dedupMsgId_eq, injectionKey?_eq hevent] at hid
    obtain ⟨k, hk, rfl⟩ := Option.map_eq_some_iff.mp hid
    exact ⟨k, hk, hin⟩
  · rintro ⟨k, hk, hin⟩
    obtain ⟨event, hevent, hk'⟩ := Option.bind_eq_some_iff.mp hk
    refine ⟨event, hevent, k.messageId, ?_, hin⟩
    rw [dedupMsgId_eq, hk']
    rfl

/-! ## Keys apart are enough -/

/-- Every message id the broker knows is that of an event on the stream, with one of the keys
injected so far. -/
def Accounted (past : List InjectionKey) (s : Bus) : Prop :=
  ∀ id ∈ s.window, ∃ k ∈ past, k.messageId = id ∧
    ∃ published ∈ s.stream, published.2.injectionKey? published.1 = some k

variable {past : List InjectionKey}

theorem Accounted.mono {past' : List InjectionKey} (h : s.Accounted past)
    (hsub : past ⊆ past') : s.Accounted past' := by
  intro id hid
  obtain ⟨k, hk, hkid, hpub⟩ := h id hid
  exact ⟨k, hsub hk, hkid, hpub⟩

theorem accounted_inject (h : s.Accounted past) (i : Injection) :
    (s.inject env i).Accounted (past ++ (i.key? env).toList) := by
  have hold : s.Accounted (past ++ (i.key? env).toList) := h.mono (List.subset_append_left ..)
  have hcases := injects env s i
  generalize s.inject env i = t at hcases
  cases hcases with
  | seen _ => exact hold
  | refused _ => exact hold
  | dropped event k _ _ _ _ => exact hold
  | keyed event k _ hevent hkey _ =>
    intro id hid
    rcases List.mem_cons.mp hid with rfl | hid
    · refine ⟨k, List.mem_append_right _ (by simp [hkey]), rfl, (i.net, event), ?_, ?_⟩
      · exact List.mem_append_right _ (List.mem_singleton_self _)
      · exact (injectionKey?_eq hevent).trans hkey
    · obtain ⟨k', hk', hkid, pub, hpub, hpubk⟩ := hold id hid
      exact ⟨k', hk', hkid, pub, List.mem_append_left _ hpub, hpubk⟩
  | unkeyed event _ _ =>
    intro id hid
    obtain ⟨k', hk', hkid, pub, hpub, hpubk⟩ := hold id hid
    exact ⟨k', hk', hkid, pub, List.mem_append_left _ hpub, hpubk⟩

theorem justified_of_keysApart {rest : List InjectionKey} (h : s.Accounted past)
    (hapart : KeysApart (past ++ ((i.key? env).toList ++ rest))) : s.Justified env (.inject i) := by
  intro hdrop
  obtain ⟨-, k, hk, hin⟩ := drops_iff.mp hdrop
  obtain ⟨k', hk', hid, pub, hpub, hpubk⟩ := h _ hin
  have hkey : i.key? env = some k := hk
  have hsame : k' = k := by
    refine hapart k' (List.mem_append_left _ hk') k ?_ (messageId_eq_iff.mp hid)
    exact List.mem_append_right _ (List.mem_append_left _ (by simp [hkey]))
  exact ⟨pub, hpub, by rw [hpubk, hsame, hkey]⟩

theorem along_of_keysApart : ∀ (run : List BusAction) {s : Bus} (past : List InjectionKey),
    s.Accounted past → KeysApart (past ++ (injections run).filterMap (·.key? env)) →
      Along (step env) (Justified env) s run
  | [], _, _, _, _ => trivial
  | .inject i :: run, s, past, h, hapart => by
    have hkeys : (injections (.inject i :: run)).filterMap (·.key? env) =
        (i.key? env).toList ++ (injections run).filterMap (·.key? env) := by
      show (i :: injections run).filterMap _ = _
      rw [List.filterMap_cons]
      cases i.key? env <;> rfl
    rw [hkeys] at hapart
    refine along_cons (justified_of_keysApart h hapart) rfl (along_of_keysApart run _
      (accounted_inject h i) ?_)
    rw [List.append_assoc]
    exact hapart
  | .expire id :: run, s, past, h, hapart => by
    refine along_cons trivial rfl (along_of_keysApart run past ?_ hapart)
    exact fun other hother => h other (List.mem_of_mem_filter hother)
  | .reindex net keys :: run, s, past, h, hapart =>
    along_cons trivial rfl (along_of_keysApart run past h hapart)

/-! ## Keys apart are needed -/

/-- What holds while the broker forgets nothing and every index fills by injections alone. -/
structure Remembers (past : List InjectionKey) (s : Bus) : Prop where
  apart : KeysApart past
  window : ∀ k ∈ past, k.messageId ∈ s.window
  index : ∀ net key, key ∈ s.index net → ⟨net, key.1, key.2⟩ ∈ past
  stream : ∀ published ∈ s.stream, ∀ k ∈ published.2.injectionKey? published.1, k ∈ past

theorem keysApart_append_singleton {k : InjectionKey}
    (h : KeysApart past) (hk : ∀ k' ∈ past, k'.Collides k → k' = k) : KeysApart (past ++ [k]) := by
  have hsymm : ∀ {a b : InjectionKey}, a.Collides b → b.Collides a := by
    intro a b hab
    exact messageId_eq_iff.mp (messageId_eq_iff.mpr hab).symm
  intro a ha b hb hab
  rcases List.mem_append.mp ha with hpa | hka <;> rcases List.mem_append.mp hb with hpb | hkb
  · exact h a hpa b hpb hab
  · obtain rfl := List.mem_singleton.mp hkb
    exact hk a hpa hab
  · obtain rfl := List.mem_singleton.mp hka
    exact (hk b hpb (hsymm hab)).symm
  · rw [List.mem_singleton.mp hka, List.mem_singleton.mp hkb]

theorem Remembers.mem_of_seen (h : s.Remembers past) (hseen : s.Seen i)
    {k : InjectionKey} (hk : i.key? env = some k) : k ∈ past := by
  obtain ⟨event, hevent, -⟩ := Option.bind_eq_some_iff.mp hk
  obtain ⟨key, hkey, hin⟩ := hseen
  rw [key?_eq hevent, show i.request.dedupKey? = some key from hkey] at hk
  exact Option.some.inj hk ▸ h.index i.net key hin

/-- An accepted key that is dropped and justified was injected before; one that is not dropped
collides with none of the keys before it. -/
theorem Remembers.apart_inject (h : s.Remembers past)
    (hjust : s.Justified env (.inject i)) {k : InjectionKey} (hk : i.key? env = some k) :
    KeysApart (past ++ [k]) := by
  refine keysApart_append_singleton h.apart fun k' hk' hcol => ?_
  have hin : k.messageId ∈ s.window := by
    rw [← messageId_eq_iff.mpr hcol]
    exact h.window k' hk'
  have hpast : k ∈ past := by
    by_cases hseen : s.Seen i
    · exact h.mem_of_seen hseen hk
    · obtain ⟨pub, hpub, hpubk⟩ := hjust (drops_iff.mpr ⟨hseen, k, hk, hin⟩)
      exact h.stream pub hpub k (hpubk.trans hk)
  exact h.apart k' hk' k hpast hcol

theorem mem_index_record {net : Option String} {key : DedupKey} (h : key ∈ (s.record i).index net) :
    (net = i.net ∧ i.request.dedupKey? = some key) ∨ key ∈ s.index net := by
  unfold record at h
  simp only [Function.update_apply] at h
  split at h
  · next hnet =>
    rcases List.mem_append.mp h with h | h
    · exact Or.inl ⟨hnet, Option.mem_toList.mp h⟩
    · exact Or.inr (hnet ▸ h)
  · exact Or.inr h

theorem Remembers.index_record (h : s.Remembers past)
    {event : DomainEvent} (hevent : i.event? env = some event) :
    ∀ net key, key ∈ (s.record i).index net → ⟨net, key.1, key.2⟩ ∈ past ++ (i.key? env).toList := by
  intro net key hkey
  rcases mem_index_record hkey with ⟨rfl, hreq⟩ | hold
  · refine List.mem_append_right _ ?_
    rw [key?_eq hevent, hreq]
    simp
  · exact List.mem_append_left _ (h.index net key hold)

theorem remembers_inject (h : s.Remembers past) (hjust : s.Justified env (.inject i)) :
    (s.inject env i).Remembers (past ++ (i.key? env).toList) := by
  have hapart : KeysApart (past ++ (i.key? env).toList) := by
    cases hk : i.key? env with
    | none => simpa using h.apart
    | some k => exact h.apart_inject hjust hk
  -- A key that was injected before adds nothing the window has to know.
  have hknown : (∀ k ∈ i.key? env, k.messageId ∈ s.window) →
      ∀ k ∈ past ++ (i.key? env).toList, k.messageId ∈ s.window := by
    intro hnew k hk
    rcases List.mem_append.mp hk with hk | hk
    · exact h.window k hk
    · exact hnew k (Option.mem_toList.mp hk)
  have hstream : ∀ published ∈ s.stream, ∀ k ∈ published.2.injectionKey? published.1,
      k ∈ past ++ (i.key? env).toList :=
    fun published hpub k hk => List.mem_append_left _ (h.stream published hpub k hk)
  have hpublished : ∀ event, i.event? env = some event →
      ∀ published ∈ s.stream ++ [(i.net, event)], ∀ k ∈ published.2.injectionKey? published.1,
        k ∈ past ++ (i.key? env).toList := by
    intro event hevent published hpub k hk
    rcases List.mem_append.mp hpub with hpub | hpub
    · exact hstream published hpub k hk
    · rw [List.mem_singleton.mp hpub, injectionKey?_eq hevent] at hk
      exact List.mem_append_right _ (Option.mem_toList.mpr hk)
  have hcases := injects env s i
  generalize s.inject env i = t at hcases
  cases hcases with
  | seen hseen =>
    refine ⟨hapart, hknown fun k hk => h.window k (h.mem_of_seen hseen hk), ?_, hstream⟩
    exact fun net key hkey => List.mem_append_left _ (h.index net key hkey)
  | refused hnone =>
    have hk : i.key? env = none := by rw [Injection.key?, hnone, Option.bind_none]
    rw [hk, Option.toList_none, List.append_nil]
    exact h
  | dropped event k hnew hevent hkey hid =>
    refine ⟨hapart, hknown fun k' hk' => ?_, h.index_record hevent, hstream⟩
    rw [← Option.some.inj (hkey.symm.trans hk')]
    exact hid
  | keyed event k hnew hevent hkey hid =>
    refine ⟨hapart, fun k' hk' => ?_, h.index_record hevent, hpublished event hevent⟩
    rcases List.mem_append.mp hk' with hk' | hk'
    · exact List.mem_cons_of_mem _ (h.window k' hk')
    · rw [hkey] at hk'
      rw [List.mem_singleton.mp hk']
      exact List.mem_cons_self ..
  | unkeyed event hevent hkey =>
    refine ⟨hapart, hknown fun k hk => ?_, h.index_record hevent, hpublished event hevent⟩
    exact absurd (hkey.symm.trans hk) (by simp)

theorem keysApart_of_along : ∀ (is : List Injection) {s : Bus} {past : List InjectionKey},
    s.Remembers past → Along (step env) (Justified env) s (is.map .inject) →
      KeysApart (past ++ is.filterMap (·.key? env))
  | [], _, _, h, _ => by simpa using h.apart
  | i :: is, s, past, h, halong => by
    have hrest := keysApart_of_along is (remembers_inject h halong.1) (halong.2 _ rfl)
    have hkeys : (i :: is).filterMap (·.key? env) =
        (i.key? env).toList ++ is.filterMap (·.key? env) := by
      rw [List.filterMap_cons]
      cases i.key? env <;> rfl
    rw [hkeys, ← List.append_assoc]
    exact hrest

end Bus

open Bus

theorem injections_map_inject (is : List Injection) : injections (is.map .inject) = is := by
  simp [injections, List.filterMap_map]

/-- **The layers agree exactly on injections whose keys stay apart in the message id.** For every
list of injections: whatever the broker forgets and the indexes lose in between, each publish that is
dropped repeats an event on the stream with its net, place and dedup id. -/
theorem drops_justified_iff (env : BusEnv) (is : List Injection) :
    (∀ run, injections run = is → Along (Bus.step env) (Justified env) Bus.empty run) ↔
      KeysApart (is.filterMap (·.key? env)) := by
  constructor
  · intro h
    have hempty : Bus.empty.Remembers [] := ⟨by simp [KeysApart], by simp, by simp [Bus.empty],
      by simp [Bus.empty]⟩
    have happart := keysApart_of_along is hempty (h _ (injections_map_inject is))
    simpa using happart
  · rintro hapart run rfl
    refine along_of_keysApart run [] (by simp [Accounted, Bus.empty]) ?_
    simpa using hapart

def leftAndRight : BusEnv where
  topology _ := some ((PetriNet.new.addPlace (.signal "left")).addPlace (.signal "right"))
  schemaRegistry _ := none

/-- The same message for each of the places. -/
def bothPlaces : List Injection :=
  [⟨some "net", ⟨⟨"left"⟩, .unit, none, none, some "m1"⟩, ⟨⟨1⟩, ⟨0⟩, ⟨""⟩, ⟨0⟩⟩⟩,
    ⟨some "net", ⟨⟨"right"⟩, .unit, none, none, some "m1"⟩, ⟨⟨2⟩, ⟨0⟩, ⟨""⟩, ⟨0⟩⟩⟩]

/-- **A message for two places reaches one.** The index tells the places apart, the message id does
not: the second publish is dropped, and only `left` has a token. -/
theorem drop_loses_token :
    ¬ Along (Bus.step leftAndRight) (Justified leftAndRight) Bus.empty (bothPlaces.map .inject) ∧
      (exec (Bus.step leftAndRight) Bus.empty (bothPlaces.map .inject)).map
        (·.stream.filterMap (·.2.dedupKey?)) = some [(⟨"left"⟩, "m1")] := by
  refine ⟨fun h => ?_, by decide⟩
  have hdrop := (h.2 _ rfl).1 (drops_iff.mpr ⟨by decide, _, rfl, by decide⟩)
  exact absurd hdrop (by decide)

end Mekhan

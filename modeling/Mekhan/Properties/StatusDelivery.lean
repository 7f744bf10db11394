import Mekhan.Application.ServiceLog
import Mekhan.Executor.Watcher
import Mekhan.Infra.Runs

/-!
# Statuses between streams

The executor's streams, the watcher that relays them, the signal stream and the nets. The watcher's
consumers are durable: every message that is not acknowledged may be handled at any time, again after
a lost acknowledgement, a crash or a reconnect. A publish is stored, stored without being confirmed, or
fails; the signal stream drops a message whose id is in its duplicate window, which passes at any time.
Stored signals are delivered to their nets any number of times, and in between the nets do anything
else.
-/

namespace Mekhan

namespace StatusDelivery

open Infra Watcher

/-! ## Runs -/

/-- How a publish on the signal stream ends. -/
inductive PublishOutcome where
  | stored
  /-- It is stored, but its acknowledgement does not come. -/
  | unconfirmed
  | failed
  deriving DecidableEq

structure State where
  stream : List WatcherMessage
  /-- The messages that are acknowledged, by position. -/
  acked : List Nat
  /-- The ids in the duplicate window of the signal stream. -/
  window : List String
  signals : List Publication
  nets : String → Service

inductive Action where
  | emit (msg : WatcherMessage)
  /-- The watcher handles a message that is not acknowledged, and acknowledges it. -/
  | handle (i : Nat) (outcome : PublishOutcome) (ackArrives : Bool)
  | forget (msgId : String)
  /-- The listener injects a stored signal into its net. -/
  | inject (k : Nat) (fresh : Fresh)
  | operate (net : String) (op : Service.Op)

variable (cfg : WatcherConfig) (fmt : EventFormat)

/-- `publish_with_headers` on the signal stream. -/
def publish (outcome : PublishOutcome) (p : Publication) (s : State) : State :=
  if outcome = .failed ∨ p.msgId ∈ s.window then s
  else { s with signals := s.signals ++ [p], window := p.msgId :: s.window }

/-- What the handlers do; an error of the publish is only logged. -/
def relay (msg : WatcherMessage) (outcome : PublishOutcome) (s : State) : State :=
  match publication cfg msg with
  | some p => publish outcome p s
  | none => s

/-- What the listener injects for a signal. -/
def request (p : Publication) : TokenRequest where
  placeId := ⟨p.place⟩
  color := jsonToTokenColor p.signal.payload
  replyRouting := none
  signalKey := if p.signal.signalKey = "" then none else some p.signal.signalKey
  dedupId := p.signal.dedupId.filter fun id => id ≠ ""

def setNet (s : State) (net : String) (service : Service) : State :=
  { s with nets := Function.update s.nets net service }

def step (s : State) : Action → Option State
  | .emit msg => some { s with stream := s.stream ++ [msg] }
  | .handle i outcome ackArrives =>
    if i ∈ s.acked then none
    else s.stream[i]?.map fun msg =>
      let s' := relay cfg msg outcome s
      if ackArrives then { s' with acked := i :: s'.acked } else s'
  | .forget msgId => some { s with window := s.window.filter fun id => id ≠ msgId }
  | .inject k fresh =>
    s.signals[k]?.map fun p =>
      setNet s p.netId ((s.nets p.netId).createTokenWithMeta fmt (request p) fresh).2
  | .operate net op => some (setNet s net ((s.nets net).perform fmt op).2)

structure Loaded where
  config : ServiceConfig
  tailCapBytes : Nat
  dedupCap : Nat
  clock : Nat → DateTime
  net : PetriNet

def init (nets : String → Loaded) : State where
  stream := []
  acked := []
  window := []
  signals := []
  nets := fun net =>
    (Service.new (nets net).config (nets net).tailCapBytes (nets net).dedupCap).initializeNet fmt
      (nets net).clock (nets net).net

/-! ## The property -/

/-- Two publications to one place of one net. -/
def SameSubject (p q : Publication) : Prop :=
  p.workspace = q.workspace ∧ p.netId = q.netId ∧ p.place = q.place

instance (p q : Publication) : Decidable (SameSubject p q) := inferInstanceAs (Decidable (_ ∧ _))

/-- The signal is on the signal stream, on the subject of the net. -/
def Published (s : State) (msg : WatcherMessage) (net : String) : Prop :=
  ∃ p, publication cfg msg = some p ∧ p.netId = net ∧
    ∃ q ∈ s.signals, SameSubject q p ∧ q.msgId = p.msgId

def hasId (id : String) (e : PersistedEvent) : Bool := e.event.dedupKey?.map Prod.snd = some id

def tokensUnder (s : Service) (id : String) : List PersistedEvent :=
  s.engine.log.history.filter (hasId id)

/-- What was acknowledged has been published and arrives once. -/
structure Delivered (s : State) : Prop where
  published : ∀ i ∈ s.acked, ∀ msg net, s.stream[i]? = some msg → routedTo msg = some net →
    Published cfg s msg net
  single : ∀ net executionId status,
    (tokensUnder (s.nets net) (statusId executionId status)).length ≤ 1

/-- No message is acknowledged whose publish failed or that has no route. -/
def acknowledges (s : State) (i : Nat) (outcome : PublishOutcome) : Bool :=
  match s.stream[i]? with
  | some msg => (routedTo msg).isNone || (outcome ≠ .failed && (publication cfg msg).isSome)
  | none => true

def addresses (s : State) (msg : WatcherMessage) : Prop :=
  ∀ p, publication cfg msg = some p → ∀ old ∈ s.stream, ∀ q, publication cfg old = some q →
    q.msgId = p.msgId → SameSubject q p

/-- An id that the net has seen is in its index. -/
def Remembers (s : Service) (r : TokenRequest) : Prop :=
  ∀ key, r.dedupKey? = some key → (∃ e ∈ s.engine.log.history, e.event.dedupKey? = some key) →
    s.ring.get key ≠ none

/-- The operation does not inject under the id of a status. -/
def Foreign : Service.Op → Prop
  | .createTokenWithMeta r _ => ∀ executionId status, r.dedupId ≠ some (statusId executionId status)
  | _ => True

/-- What is asked of an action: ids that tell signals apart, no early acknowledgement, no forgotten request. -/
def Kept (s : State) : Action → Prop
  | .emit msg => addresses cfg s msg
  | .handle i outcome ackArrives => ackArrives = true → acknowledges cfg s i outcome = true
  | .forget _ => True
  | .inject k _ => ∀ p, s.signals[k]? = some p → Remembers (s.nets p.netId) (request p)
  | .operate _ op => Foreign op

/-! ## The invariant -/

/-- The acknowledged, the window and the published signals fit together. -/
structure Inv (s : State) : Prop where
  positions : ∀ i ∈ s.acked, i < s.stream.length
  window : ∀ id ∈ s.window, ∃ p ∈ s.signals, p.msgId = id
  origin : ∀ p ∈ s.signals, ∃ msg ∈ s.stream, publication cfg msg = some p
  subjects : ∀ a ∈ s.stream, ∀ b ∈ s.stream, ∀ p q, publication cfg a = some p →
    publication cfg b = some q → p.msgId = q.msgId → SameSubject p q
  published : ∀ i ∈ s.acked, ∀ msg net, s.stream[i]? = some msg → routedTo msg = some net →
    Published cfg s msg net
  reflects : ∀ net, (s.nets net).Reflects
  /-- Tokens under the id of a status come from signals. -/
  tokens : ∀ net, ∀ e ∈ (s.nets net).engine.log.history, ∀ place executionId status,
    e.event.dedupKey? = some (place, statusId executionId status) →
      ∃ p ∈ s.signals, p.msgId = statusId executionId status ∧ place = ⟨p.place⟩
  once : ∀ net place executionId status, ((s.nets net).engine.log.history.filter fun e =>
    e.event.dedupKey? = some (place, statusId executionId status)).length ≤ 1

variable {cfg fmt} {s : State}

theorem SameSubject.symm {p q : Publication} (h : SameSubject p q) : SameSubject q p :=
  ⟨h.1.symm, h.2.1.symm, h.2.2.symm⟩

theorem dedupId_publication {msg : WatcherMessage} {p : Publication} (h : publication cfg msg = some p) :
    p.signal.dedupId = some p.msgId ∨ p.signal.dedupId = none := by
  cases msg with
  | status update =>
    obtain ⟨u, -, hu⟩ := Option.bind_eq_some_iff.mp h
    obtain ⟨routing, -, rfl⟩ := Option.map_eq_some_iff.mp hu
    exact Or.inl rfl
  | controlEmit emit =>
    obtain ⟨e, -, he⟩ := Option.bind_eq_some_iff.mp h
    obtain ⟨routing, -, hrouting⟩ := Option.bind_eq_some_iff.mp he
    obtain ⟨place, -, rfl⟩ := Option.map_eq_some_iff.mp hrouting
    exact Or.inl rfl
  | event event =>
    obtain ⟨e, -, he⟩ := Option.bind_eq_some_iff.mp h
    obtain ⟨routing, -, hrouting⟩ := Option.bind_eq_some_iff.mp he
    obtain ⟨place, -, rfl⟩ := Option.map_eq_some_iff.mp hrouting
    cases harm : e.arm with
    | streaming => exact Or.inr (by simp [eventIds, harm])
    | _ => exact Or.inl (by simp [eventIds, harm])

theorem dedupKey?_request {p : Publication} {place : PlaceId} {id : String}
    (h : (request p).dedupKey? = some (place, id)) : place = ⟨p.place⟩ ∧ p.signal.dedupId = some id := by
  unfold TokenRequest.dedupKey? at h
  split at h
  · next id' hid =>
    split at h
    · cases h
    · cases h
      exact ⟨rfl, (Option.filter_eq_some_iff.mp hid).1⟩
  · cases h

theorem reflects_loaded (n : Loaded) :
    ((Service.new n.config n.tailCapBytes n.dedupCap).initializeNet fmt n.clock n.net).Reflects := by
  have hnew : (Service.new n.config n.tailCapBytes n.dedupCap).Reflects :=
    Log.fills_reset ⟨.withCaps n.tailCapBytes n.dedupCap, []⟩
  exact Service.Reflects.append_unkeyed (s := { Service.new n.config n.tailCapBytes n.dedupCap with
    topology := some n.net }) hnew n.clock rfl

theorem inv_init (nets : String → Loaded) : Inv cfg (init fmt nets) where
  positions := by simp [init]
  window := by simp [init]
  origin := by simp [init]
  subjects := by simp [init]
  published := by simp [init]
  reflects net := reflects_loaded (nets net)
  tokens net e he place executionId status hkey := by
    have hnone : e.event.dedupKey? = none := by
      obtain rfl := List.mem_singleton.mp he
      rfl
    exact absurd (hnone.symm.trans hkey) (by simp)
  once net place executionId status := List.length_filter_le _ _

/-! ## The streams -/

theorem Published.mono {t : State} {msg : WatcherMessage} {net : String}
    (h : Published cfg s msg net) (hsignals : ∀ p ∈ s.signals, p ∈ t.signals) : Published cfg t msg net := by
  obtain ⟨p, hp, hnet, q, hq, hsame⟩ := h
  exact ⟨p, hp, hnet, q, hsignals q hq, hsame⟩

theorem inv_emit {msg : WatcherMessage} (h : Inv cfg s) (hmsg : addresses cfg s msg) :
    Inv cfg { s with stream := s.stream ++ [msg] } where
  positions i hi := by
    have hlt := h.positions i hi
    rw [List.length_append]
    omega
  window := h.window
  origin p hp := by
    obtain ⟨old, hold, hpub⟩ := h.origin p hp
    exact ⟨old, List.mem_append_left _ hold, hpub⟩
  subjects a ha b hb p q hp hq hid := by
    rcases List.mem_append.mp ha with hold | hnew <;>
      rcases List.mem_append.mp hb with hold' | hnew'
    · exact h.subjects a hold b hold' p q hp hq hid
    · rw [List.mem_singleton.mp hnew'] at hq
      exact hmsg q hq a hold p hp hid
    · rw [List.mem_singleton.mp hnew] at hp
      exact (hmsg p hp b hold' q hq hid.symm).symm
    · rw [List.mem_singleton.mp hnew] at hp
      rw [List.mem_singleton.mp hnew'] at hq
      obtain rfl := Option.some.inj (hp.symm.trans hq)
      exact ⟨rfl, rfl, rfl⟩
  published i hi old net hold hrouted := by
    rw [List.getElem?_append_left (h.positions i hi)] at hold
    exact (h.published i hi old net hold hrouted).mono fun _ hp => hp
  reflects := h.reflects
  tokens := h.tokens
  once := h.once

theorem inv_publish {msg : WatcherMessage} {p : Publication} (h : Inv cfg s)
    (hmsg : msg ∈ s.stream) (hp : publication cfg msg = some p) (outcome : PublishOutcome) :
    Inv cfg (publish outcome p s) := by
  unfold publish
  split
  · exact h
  · have hmono : ∀ q ∈ s.signals, q ∈ s.signals ++ [p] := fun q hq => List.mem_append_left _ hq
    constructor
    · exact h.positions
    · intro id hid
      rcases List.mem_cons.mp hid with rfl | hid
      · exact ⟨p, List.mem_append_right _ (List.mem_singleton_self p), rfl⟩
      · obtain ⟨q, hq, hqid⟩ := h.window id hid
        exact ⟨q, hmono q hq, hqid⟩
    · intro q hq
      rcases List.mem_append.mp hq with hq | hq
      · exact h.origin q hq
      · exact ⟨msg, hmsg, List.mem_singleton.mp hq ▸ hp⟩
    · exact h.subjects
    · intro i hi old net hold hrouted
      exact (h.published i hi old net hold hrouted).mono hmono
    · exact h.reflects
    · intro net e he place executionId status hkey
      obtain ⟨q, hq, hrest⟩ := h.tokens net e he place executionId status hkey
      exact ⟨q, hmono q hq, hrest⟩
    · exact h.once

theorem published_publish {msg : WatcherMessage} {p : Publication} {outcome : PublishOutcome}
    (h : Inv cfg s) (hmsg : msg ∈ s.stream) (hp : publication cfg msg = some p)
    (houtcome : outcome ≠ .failed) : Published cfg (publish outcome p s) msg p.netId := by
  refine ⟨p, hp, rfl, ?_⟩
  unfold publish
  split
  · next hdropped =>
    obtain ⟨q, hq, hid⟩ := h.window p.msgId (hdropped.resolve_left houtcome)
    obtain ⟨old, hold, hpub⟩ := h.origin q hq
    exact ⟨q, hq, h.subjects old hold msg hmsg q p hpub hp hid, hid⟩
  · exact ⟨p, List.mem_append_right _ (List.mem_singleton_self p), ⟨rfl, rfl, rfl⟩, rfl⟩

theorem inv_relay {msg : WatcherMessage} (h : Inv cfg s) (hmsg : msg ∈ s.stream)
    (outcome : PublishOutcome) : Inv cfg (relay cfg msg outcome s) := by
  unfold relay
  split
  · next p hp => exact inv_publish h hmsg hp outcome
  · exact h

theorem stream_relay (msg : WatcherMessage) (outcome : PublishOutcome) (s : State) :
    (relay cfg msg outcome s).stream = s.stream ∧ (relay cfg msg outcome s).acked = s.acked := by
  unfold relay publish
  split
  · split <;> exact ⟨rfl, rfl⟩
  · exact ⟨rfl, rfl⟩

theorem netId_publication {msg : WatcherMessage} {p : Publication} {net : String}
    (hp : publication cfg msg = some p) (hrouted : routedTo msg = some net) : p.netId = net := by
  cases msg with
  | status update =>
    obtain ⟨u, rfl, hu⟩ := Option.bind_eq_some_iff.mp hp
    obtain ⟨routing, hrouting, rfl⟩ := Option.map_eq_some_iff.mp hu
    simpa [routedTo, hrouting] using hrouted
  | controlEmit emit =>
    obtain ⟨e, rfl, he⟩ := Option.bind_eq_some_iff.mp hp
    obtain ⟨routing, hrouting, hplace⟩ := Option.bind_eq_some_iff.mp he
    obtain ⟨place, -, rfl⟩ := Option.map_eq_some_iff.mp hplace
    simpa [routedTo, hrouting] using hrouted
  | event event => exact absurd hrouted (by simp [routedTo])

theorem inv_handle {i : Nat} {msg : WatcherMessage} {outcome : PublishOutcome} (h : Inv cfg s)
    (hmsg : s.stream[i]? = some msg) (hacks : acknowledges cfg s i outcome = true) :
    Inv cfg { relay cfg msg outcome s with acked := i :: (relay cfg msg outcome s).acked } := by
  have hmem : msg ∈ s.stream := List.mem_of_getElem? hmsg
  have hrelay := inv_relay h hmem outcome
  have hstream : (relay cfg msg outcome s).stream = s.stream := (stream_relay msg outcome s).1
  refine { hrelay with positions := ?_, published := ?_ }
  · intro j hj
    rcases List.mem_cons.mp hj with rfl | hj
    · show j < (relay cfg msg outcome s).stream.length
      rw [hstream]
      exact (List.getElem?_eq_some_iff.mp hmsg).1
    · exact hrelay.positions j hj
  · intro j hj old net hold hrouted
    rcases List.mem_cons.mp hj with rfl | hj
    · have hsame : old = msg := by
        have hold' : (relay cfg msg outcome s).stream[j]? = some old := hold
        rw [hstream] at hold'
        exact Option.some.inj (hold'.symm.trans hmsg)
      subst hsame
      simp only [acknowledges, hmsg, hrouted, Option.isNone_some, Bool.false_or, Bool.and_eq_true,
        decide_eq_true_eq] at hacks
      obtain ⟨p, hp⟩ := Option.isSome_iff_exists.mp hacks.2
      have hpublished := published_publish h hmem hp hacks.1
      rw [netId_publication hp hrouted] at hpublished
      have hrelayed : relay cfg old outcome s = publish outcome p s := by
        simp only [relay, hp]
      exact hpublished.mono fun q hq => hrelayed ▸ hq
    · exact (hrelay.published j hj old net hold hrouted).mono fun _ hq => hq

/-! ## The nets -/

/-- What the log of a net has to have for the invariant. -/
structure NetInv (s : State) (service : Service) : Prop where
  reflects : service.Reflects
  tokens : ∀ e ∈ service.engine.log.history, ∀ place executionId status,
    e.event.dedupKey? = some (place, statusId executionId status) →
      ∃ p ∈ s.signals, p.msgId = statusId executionId status ∧ place = ⟨p.place⟩
  once : ∀ place executionId status, (service.engine.log.history.filter fun e =>
    e.event.dedupKey? = some (place, statusId executionId status)).length ≤ 1

theorem Inv.net (h : Inv cfg s) (net : String) : NetInv s (s.nets net) :=
  ⟨h.reflects net, h.tokens net, h.once net⟩

theorem inv_setNet {net : String} {service : Service} (h : Inv cfg s) (hnet : NetInv s service) :
    Inv cfg (setNet s net service) := by
  have hnets : ∀ other, NetInv s ((setNet s net service).nets other) := by
    intro other
    by_cases hother : other = net
    · subst hother
      simpa [setNet] using hnet
    · simpa [setNet, hother] using h.net other
  exact { h with
    published := h.published
    reflects := fun other => (hnets other).reflects
    tokens := fun other => (hnets other).tokens
    once := fun other => (hnets other).once }

theorem netInv_create {service : Service} {r : TokenRequest} {fresh : Fresh} (h : NetInv s service)
    (hnew : ∀ place executionId status, r.dedupKey? = some (place, statusId executionId status) →
      service.ring.get (place, statusId executionId status) = none →
        (∃ p ∈ s.signals, p.msgId = statusId executionId status ∧ place = ⟨p.place⟩) ∧
          ∀ e ∈ service.engine.log.history, e.event.dedupKey? ≠ some (place, statusId executionId status)) :
    NetInv s (service.createTokenWithMeta fmt r fresh).2 := by
  have hreflects : (service.createTokenWithMeta fmt r fresh).2.Reflects :=
    h.reflects.createTokenWithMeta r fresh
  rcases service.history_createTokenWithMeta fmt r fresh with hsame | ⟨e, happend, hkey, hmissed⟩
  · exact ⟨hreflects, by rw [hsame]; exact h.tokens, by rw [hsame]; exact h.once⟩
  · refine ⟨hreflects, ?_, ?_⟩
    · intro e' he' place executionId status hkey'
      rw [happend] at he'
      rcases List.mem_append.mp he' with hold | hlast
      · exact h.tokens e' hold place executionId status hkey'
      · rw [List.mem_singleton.mp hlast, hkey] at hkey'
        exact (hnew place executionId status hkey' (hmissed _ hkey')).1
    · intro place executionId status
      rw [happend, List.filter_append]
      by_cases hmine : r.dedupKey? = some (place, statusId executionId status)
      · have hnone : (service.engine.log.history.filter fun e =>
            e.event.dedupKey? = some (place, statusId executionId status)) = [] := by
          rw [List.filter_eq_nil_iff]
          intro e' he'
          simpa using (hnew place executionId status hmine (hmissed _ hmine)).2 e' he'
        rw [hnone, List.nil_append]
        exact List.length_filter_le _ _
      · have hother : ([e].filter fun e =>
            e.event.dedupKey? = some (place, statusId executionId status)) = [] := by
          rw [List.filter_eq_nil_iff]
          intro e' he'
          simpa [List.mem_singleton.mp he', hkey] using hmine
        rw [hother, List.append_nil]
        exact h.once place executionId status

theorem inv_inject {k : Nat} {p : Publication} {fresh : Fresh} (h : Inv cfg s)
    (hp : s.signals[k]? = some p) (hremembers : Remembers (s.nets p.netId) (request p)) :
    Inv cfg (setNet s p.netId ((s.nets p.netId).createTokenWithMeta fmt (request p) fresh).2) := by
  have hmem : p ∈ s.signals := List.mem_of_getElem? hp
  refine inv_setNet h (netInv_create (h.net p.netId) ?_)
  intro place executionId status hkey hmissed
  constructor
  · obtain ⟨hplace, hid⟩ := dedupKey?_request hkey
    obtain ⟨msg, -, hpub⟩ := h.origin p hmem
    refine ⟨p, hmem, ?_, hplace⟩
    rcases dedupId_publication hpub with hsome | hnone
    · exact Option.some.inj (hsome.symm.trans hid)
    · exact absurd (hnone.symm.trans hid) (by simp)
  · intro e he hkey'
    exact hremembers _ hkey ⟨e, he, hkey'⟩ hmissed

theorem netInv_perform {service : Service} {op : Service.Op} (h : NetInv s service)
    (hop : op.evaluates = true) : NetInv s (service.perform fmt op).2 := by
  have hkeyed : ∀ key, ((service.perform fmt op).2.engine.log.history.filter fun e =>
      e.event.dedupKey? = some key) = service.engine.log.history.filter fun e =>
        e.event.dedupKey? = some key := by
    intro key
    refine Service.perform_keeps (I := fun l => (l.history.filter fun e =>
      e.event.dedupKey? = some key) = service.engine.log.history.filter fun e =>
        e.event.dedupKey? = some key) ?_ hop rfl
    intro clock event l hevent hl
    have hlast : ([(l.append fmt clock event).1].filter fun e =>
        e.event.dedupKey? = some key) = [] := by
      rw [List.filter_eq_nil_iff]
      intro e he
      rw [List.mem_singleton.mp he]
      show ¬ decide (event.dedupKey? = some key) = true
      simp [hevent]
    show ((l.history ++ [(l.append fmt clock event).1]).filter _) = _
    rw [List.filter_append, hlast, List.append_nil]
    exact hl
  refine ⟨h.reflects.perform op, ?_, ?_⟩
  · intro e he place executionId status hkey
    have hmem : e ∈ (service.perform fmt op).2.engine.log.history.filter fun e =>
        e.event.dedupKey? = some (place, statusId executionId status) :=
      List.mem_filter.mpr ⟨he, by simpa using hkey⟩
    rw [hkeyed] at hmem
    exact h.tokens e (List.mem_filter.mp hmem).1 place executionId status hkey
  · intro place executionId status
    rw [hkeyed]
    exact h.once place executionId status

theorem inv_operate {net : String} {op : Service.Op} (h : Inv cfg s) (hforeign : Foreign op) :
    Inv cfg (setNet s net ((s.nets net).perform fmt op).2) := by
  refine inv_setNet h ?_
  cases hop : op.evaluates with
  | true => exact netInv_perform (h.net net) hop
  | false =>
    cases op with
    | createTokenWithMeta r fresh =>
      refine netInv_create (h.net net) ?_
      intro place executionId status hkey hmissed
      unfold TokenRequest.dedupKey? at hkey
      split at hkey
      · next id hid =>
        split at hkey
        · cases hkey
        · obtain ⟨-, rfl⟩ := Prod.mk.inj (Option.some.inj hkey)
          exact absurd hid (hforeign executionId status)
      · cases hkey
    | _ => exact absurd hop (by simp [Service.Op.evaluates])

theorem inv_step (s : State) (act : Action) (s' : State) (h : Inv cfg s) (hkept : Kept cfg s act)
    (hstep : step cfg fmt s act = some s') : Inv cfg s' := by
  cases act with
  | emit msg =>
    cases hstep
    exact inv_emit h hkept
  | handle i outcome ackArrives =>
    simp only [step] at hstep
    split at hstep
    · cases hstep
    · obtain ⟨msg, hmsg, rfl⟩ := Option.map_eq_some_iff.mp hstep
      cases ackArrives with
      | true => exact inv_handle h hmsg (hkept rfl)
      | false => exact inv_relay h (List.mem_of_getElem? hmsg) outcome
  | forget msgId =>
    cases hstep
    exact { h with
      published := h.published
      window := fun id hid => h.window id (List.mem_filter.mp hid).1 }
  | inject k fresh =>
    obtain ⟨p, hp, rfl⟩ := Option.map_eq_some_iff.mp hstep
    exact inv_inject h hp (hkept p hp)
  | operate net op =>
    cases hstep
    exact inv_operate h hkept

theorem Inv.single (h : Inv cfg s) (net executionId : String) (status : ExecutionStatus) :
    (tokensUnder (s.nets net) (statusId executionId status)).length ≤ 1 := by
  have hkey : ∀ e ∈ tokensUnder (s.nets net) (statusId executionId status), ∃ place,
      e.event.dedupKey? = some (place, statusId executionId status) := by
    intro e he
    have hid : e.event.dedupKey?.map Prod.snd = some (statusId executionId status) := by
      simpa [hasId] using (List.mem_filter.mp he).2
    obtain ⟨⟨place, id⟩, hkey, rfl⟩ := Option.map_eq_some_iff.mp hid
    exact ⟨place, hkey⟩
  cases htokens : tokensUnder (s.nets net) (statusId executionId status) with
  | nil => simp
  | cons first rest =>
    have hmem : ∀ e ∈ first :: rest, e ∈ (s.nets net).engine.log.history := fun e he =>
      (List.mem_filter.mp (htokens ▸ he)).1
    obtain ⟨place, hfirst⟩ := hkey first (htokens ▸ List.mem_cons_self ..)
    have hsame : (first :: rest) = (s.nets net).engine.log.history.filter fun e =>
        e.event.dedupKey? = some (place, statusId executionId status) := by
      rw [← htokens]
      refine List.filter_congr fun e he => ?_
      rw [hasId, decide_eq_decide]
      constructor
      · intro hid
        obtain ⟨⟨place', id⟩, hkey', rfl⟩ := Option.map_eq_some_iff.mp hid
        obtain ⟨p, hp, hpid, rfl⟩ := h.tokens net first (hmem first List.mem_cons_self) place
          executionId status hfirst
        obtain ⟨q, hq, hqid, rfl⟩ := h.tokens net e he place' executionId status hkey'
        obtain ⟨a, ha, hpa⟩ := h.origin p hp
        obtain ⟨b, hb, hqb⟩ := h.origin q hq
        obtain ⟨-, -, hplace⟩ := h.subjects a ha b hb p q hpa hqb (hpid.trans hqid.symm)
        rw [hkey', hplace]
      · intro hkey'
        rw [hkey']
        rfl
    rw [hsame]
    exact h.once net place executionId status

def watcherConfig : WatcherConfig := ⟨1024, fun _ => 0, fun _ => none⟩

/-- Every net has one place, the signal place of the status. -/
def oneInbox : Loaded :=
  ⟨.plain, 100, 8, fun _ => ⟨0⟩, PetriNet.new.addPlace (.signal "p_completed")⟩

def completedJob : StatusUpdate where
  executionId := "exec-1"
  workspaceId := ""
  status := .completed
  detail := .null
  metadata := [("petri_net_id", "net-1"), ("petri_place", "p_status"),
    ("petri_signal_completed", "p_completed")]
  source := "executor"
  timestamp := "2025-01-01T00:00:00Z"

/-- A publish that is not confirmed, the same status handled again after its id has left the window,
and both signals delivered. -/
def handledTwice : List Action :=
  [.emit (.status (some completedJob)), .handle 0 .unconfirmed false,
    .forget (statusId "exec-1" .completed), .handle 0 .stored true,
    .inject 0 ⟨⟨1⟩, ⟨0⟩, ⟨""⟩, ⟨0⟩⟩, .inject 1 ⟨⟨2⟩, ⟨0⟩, ⟨""⟩, ⟨0⟩⟩]

theorem Remembers.of_unseen {service : Service} {r : TokenRequest} {key : PlaceId × String}
    (hkey : r.dedupKey? = some key)
    (hunseen : (service.engine.log.history.all fun e => e.event.dedupKey? ≠ some key) = true) :
    Remembers service r := by
  intro key' hkey' hseen
  obtain ⟨e, he, hevent⟩ := hseen
  obtain rfl := Option.some.inj (hkey.symm.trans hkey')
  exact absurd hevent (by simpa using List.all_eq_true.mp hunseen e he)

theorem Remembers.of_indexed {service : Service} {r : TokenRequest} {key : PlaceId × String}
    (hkey : r.dedupKey? = some key) (hindexed : service.ring.get key ≠ none) : Remembers service r := by
  intro key' hkey' _
  rwa [← Option.some.inj (hkey.symm.trans hkey')]

def handledOnce (outcome : PublishOutcome) : List Action :=
  [.emit (.status (some completedJob)), .handle 0 outcome true]

end StatusDelivery

end Mekhan

import Mekhan.Domain.Serde

/-!
# Event hashes across persistence

`PersistedEvent::new`, `verify_hash` and `verify_event_chain` of `domain/src/events.rs`, over the JSON
form of the events. The hash is taken of the JSON value of the event; an event that is read back has
its hash maps in some new iteration order and its doubles as the parser reads them, and its value may
come out differently.
-/

namespace Mekhan

open Infra Infra.Serde

/-! ## Steady events -/

section

variable (impl : MapImpl) (texts : Texts)

/-- The order of the map's entries does not show in its JSON value. -/
def OrderHidden {V : Type} (m : HashMap String V) : Prop := impl = .index → m.toPairs.length ≤ 1

def ReplyRouting.Steady (r : ReplyRouting) : Prop := ∀ m ∈ r.replyChannels, OrderHidden impl m

structure Token.Steady (t : Token) : Prop where
  color : t.color.Kept impl texts
  routing : ∀ r ∈ t.replyRouting, r.Steady impl

def PlaceKind.Steady : PlaceKind → Prop
  | .bridgeOut _ _ _ replyChannels _ => ∀ m ∈ replyChannels, OrderHidden impl m
  | _ => True

/-- A value that is present is not `null`, and is read back as it was. -/
def SteadyValue (o : Option Json) : Prop := ∀ v ∈ o, v ≠ .null ∧ ReadsBack impl texts v

structure PetriNet.Steady (net : PetriNet) : Prop where
  places : net.places.values.length ≤ 1
  transitions : net.transitions.values.length ≤ 1
  kinds : ∀ p ∈ net.places.values, p.kind.Steady impl
  configs : ∀ t ∈ net.transitions.values, SteadyValue impl texts t.effectConfig
  metadata : ∀ g ∈ net.groups, SteadyValue impl texts g.metadata

/-- Nothing in the event's JSON value depends on the iteration order of a hash map, nothing in it is
lost on the way, and its doubles are read back as they were. -/
def DomainEvent.Steady : DomainEvent → Prop
  | .netInitialized net => net.Steady impl texts
  | .tokenCreated token .. => token.Steady impl texts
  | .transitionFired _ _ _ produced read .. =>
    (∀ p ∈ produced, p.2.Steady impl texts) ∧ ∀ p ∈ read, p.2.Steady impl texts
  | .transitionSkipped _ _ _ produced _ => ∀ p ∈ produced, p.2.Steady impl texts
  | .tokenBridgedOut token _ _ _ _ _ _ _ _ replyChannels =>
    token.Steady impl texts ∧ ∀ m ∈ replyChannels, OrderHidden impl m
  | .tokenUpdated _ _ color _ => color.Kept impl texts
  | .effectCompleted _ _ _ produced _ result read .. =>
    (∀ p ∈ produced, p.2.Steady impl texts) ∧ ReadsBack impl texts result ∧
      ∀ p ∈ read, p.2.Steady impl texts
  | .effectFailed _ _ _ produced _ _ _ inputData _ =>
    (∀ p ∈ produced, p.2.Steady impl texts) ∧
      ∀ m ∈ inputData, OrderHidden impl m ∧ ∀ v ∈ m.values, ReadsBack impl texts v
  | .netCreated _ _ parameters .. => SteadyValue impl texts parameters
  | .netCompleted _ _ exitCode => SteadyValue impl texts exitCode
  | .tokenConsumed .. | .tokenRemoved .. | .errorOccurred ..
  | .transitionScriptUpdated .. | .netCancelled .. | .netFailed .. | .preDispatchEvaluated ..
  | .preDispatchRejected .. | .preDispatchDeferred .. => True

end

/-! ## Settled and steady -/

variable {impl : MapImpl} {texts : Texts}

section

variable {α V : Type} {k : String}

theorem settled_optional_plain {c : Codec impl α} (hnull : ∀ a, c.enc a ≠ .null)
    (hset : ∀ a, c.Settled a) (o : Option α) : (Fields.optional k c).Settled o := by
  rw [settled_optional]
  exact fun a _ => ⟨hnull a, hset a⟩

theorem settled_optional_string (o : Option String) : (Fields.optional k (@Codec.string impl)).Settled o :=
  settled_optional_plain enc_string_ne (fun _ => trivial) o

theorem settled_optional_nat (o : Option Nat) : (Fields.optional k (@Codec.nat impl)).Settled o :=
  settled_optional_plain enc_nat_ne (fun _ => trivial) o

variable (impl texts k) in
theorem settled_optional_value (o : Option Json) :
    (Fields.optional k (@Codec.value impl texts.double)).Settled o ↔ SteadyValue impl texts o :=
  settled_optional ..

theorem settled_optional_map {c : Codec impl V} (o : Option (HashMap String V)) :
    (Fields.optional k c.stringMap).Settled o ↔ ∀ m ∈ o, OrderHidden impl m ∧ ∀ v ∈ m.values, c.Settled v := by
  rw [settled_optional]
  refine forall_congr' fun m => imp_congr_right fun _ => ?_
  exact ⟨fun h => h.2, fun h => ⟨nofun, h⟩⟩

theorem settled_optional_plain_map {c : Codec impl V} (hset : ∀ v, c.Settled v) (o : Option (HashMap String V)) :
    (Fields.optional k c.stringMap).Settled o ↔ ∀ m ∈ o, OrderHidden impl m := by
  rw [settled_optional_map]
  refine forall_congr' fun m => imp_congr_right fun _ => ?_
  exact and_iff_left fun v _ => hset v

end

theorem settled_bridgeReplyAddress (a : BridgeReplyAddress) :
    (Serde.bridgeReplyAddress impl).Settled a := ⟨trivial, trivial⟩

theorem settled_replyRouting (r : ReplyRouting) : (Serde.replyRouting impl).Settled r ↔ r.Steady impl :=
  (and_iff_right (settled_optional_plain (enc_object_ne _ _) settled_bridgeReplyAddress _)).trans
    (settled_optional_plain_map settled_bridgeReplyAddress _)

theorem settled_tokenColor (c : TokenColor) : (Serde.tokenColor impl texts).Settled c ↔ c.Kept impl texts := by
  cases c <;> exact Iff.rfl

variable (impl texts) in
theorem settled_token (t : Token) : (Serde.token impl texts).Settled t ↔ t.Steady impl texts := by
  have hrouting : (Fields.optional "reply_routing" (Serde.replyRouting impl)).Settled t.replyRouting ↔
      ∀ r ∈ t.replyRouting, r.Steady impl := by
    rw [settled_optional]
    refine forall_congr' fun r => imp_congr_right fun _ => ?_
    exact ⟨fun h => (settled_replyRouting r).mp h.2,
      fun h => ⟨enc_object_ne _ _ r, (settled_replyRouting r).mpr h⟩⟩
  constructor
  · exact fun h => ⟨(settled_tokenColor _).mp h.2.1, hrouting.mp h.2.2.2.2⟩
  · exact fun h => ⟨trivial, (settled_tokenColor _).mpr h.color, trivial, settled_optional_nat _,
      hrouting.mpr h.routing⟩

variable (impl texts) in
theorem settled_tokens (ts : List (PlaceId × Token)) :
    (Serde.produced impl texts).Settled ts ↔ ∀ p ∈ ts, p.2.Steady impl texts := by
  refine forall_congr' fun p => imp_congr_right fun _ => ?_
  exact ⟨fun h => (settled_token impl texts p.2).mp h.2, fun h => ⟨trivial, (settled_token impl texts p.2).mpr h⟩⟩

theorem settled_consumed (ts : List (PlaceId × TokenId)) : (Serde.consumed impl texts).Settled ts :=
  fun _ _ => ⟨trivial, trivial⟩

theorem settled_placeKind (k : PlaceKind) : (Serde.placeKind impl).Settled k ↔ k.Steady impl := by
  cases k with
  | bridgeIn n p =>
    exact iff_of_true ⟨settled_optional_string _, settled_optional_string _⟩ trivial
  | bridgeOut n p r c l =>
    constructor
    · exact fun h => (settled_optional_plain_map (fun _ => trivial) c).mp h.2.2.2.1
    · exact fun h => ⟨trivial, trivial, settled_optional_string _,
        (settled_optional_plain_map (fun _ => trivial) c).mpr h, settled_optional_string _⟩
  | bridgeReply c => exact iff_of_true (settled_optional_string (k := "channel") c) trivial
  | _ => exact iff_of_true trivial trivial

theorem settled_place (p : Place) : (Serde.place impl).Settled p ↔ p.kind.Steady impl := by
  rw [← settled_placeKind]
  exact ⟨fun h => h.2.2.1, fun h => ⟨trivial, trivial, h, settled_optional_nat _,
    settled_optional_string _, settled_optional_string _⟩⟩

theorem settled_port (p : Port) : (Serde.port impl).Settled p :=
  ⟨trivial, settled_optional_string _, trivial⟩

theorem settled_transition (t : Transition) :
    (Serde.transition impl texts).Settled t ↔ SteadyValue impl texts t.effectConfig := by
  have hsim : (Fields.optional "simulation" (Serde.simulationConfig impl)).Settled t.simulation :=
    settled_optional_plain (c := Serde.simulationConfig impl) (enc_object_ne _ _)
      (fun _ => ⟨trivial, settled_optional_nat _⟩) _
  constructor
  · exact fun h => (settled_optional_value _ _ _ _).mp h.2.2.2.2.2.2.2.2.2.2.2.1
  · exact fun h => ⟨trivial, trivial, fun p _ => settled_port p, fun p _ => settled_port p,
      settled_optional_string _, trivial, settled_optional_string _, Or.inr trivial, hsim,
      settled_optional_string _, settled_optional_string _, (settled_optional_value _ _ _ _).mpr h,
      Or.inr fun _ _ => trivial, settled_optional_string _, settled_optional_string _⟩

theorem settled_arc (a : Arc) : (Serde.arc impl texts).Settled a :=
  ⟨trivial, trivial, trivial, trivial, trivial, trivial, Or.inr trivial, settled_optional_string _,
    settled_optional_string _, Or.inr trivial, settled_optional_nat _⟩

theorem settled_group (g : Group) :
    (Serde.group impl texts).Settled g ↔ SteadyValue impl texts g.metadata := by
  rw [← settled_optional_value]
  exact ⟨fun h => h.2.2.2, fun h => ⟨trivial, trivial, settled_optional_string _, h⟩⟩

theorem settled_groups (gs : List Group) :
    (gs = [] ∨ (Codec.list (Serde.group impl texts)).Settled gs) ↔
      ∀ g ∈ gs, SteadyValue impl texts g.metadata := by
  constructor
  · rintro (rfl | h) g hg
    · cases hg
    · exact (settled_group g).mp (h g hg)
  · exact fun h => Or.inr fun g hg => (settled_group g).mpr (h g hg)

theorem settled_petriNet (net : PetriNet) :
    (Serde.petriNet impl texts).Settled net ↔ net.Steady impl texts := by
  constructor
  · rintro ⟨⟨hp, hps⟩, ⟨ht, hts⟩, -, hg⟩
    exact ⟨hp, ht, fun p hmem => (settled_place p).mp (hps p hmem),
      fun t hmem => (settled_transition t).mp (hts t hmem), (settled_groups _).mp hg⟩
  · intro h
    exact ⟨⟨h.places, fun p hmem => (settled_place p).mpr (h.kinds p hmem)⟩,
      ⟨h.transitions, fun t hmem => (settled_transition t).mpr (h.configs t hmem)⟩,
      fun a _ => settled_arc a, (settled_groups _).mpr h.metadata⟩

variable (impl texts) in
theorem settled_skippedTokens (ts : List (PlaceId × Token)) :
    (ts = [] ∨ (Serde.produced impl texts).Settled ts) ↔ ∀ p ∈ ts, p.2.Steady impl texts := by
  rw [← settled_tokens impl texts]
  exact ⟨fun h => h.elim (fun hnil => hnil ▸ fun _ hp => absurd hp List.not_mem_nil) id, Or.inr⟩

theorem settled_optional_uuid {k : String} (o : Option Uuid) :
    (Fields.optional k (Codec.text texts.uuid : Codec impl Uuid)).Settled o :=
  settled_optional_plain (enc_text_ne _) (fun _ => trivial) o

variable (impl texts) in
/-- **The events whose JSON value is the same after every reading are the steady ones.** -/
theorem settled_domainEvent (e : DomainEvent) :
    (Serde.domainEvent impl texts).Settled e ↔ e.Steady impl texts := by
  cases e with
  | netInitialized net => exact settled_petriNet net
  | tokenCreated token =>
    refine Iff.trans ?_ (settled_token impl texts token)
    exact ⟨fun h => h.1, fun h => ⟨h, trivial, settled_optional_string _, settled_optional_uuid _,
      settled_optional_string _, settled_optional_string _⟩⟩
  | transitionFired _ _ consumed produced read =>
    refine Iff.trans ?_ (and_congr (settled_tokens impl texts produced)
      (settled_skippedTokens impl texts read))
    exact ⟨fun h => ⟨h.2.2.2.1, h.2.2.2.2.1⟩, fun h => ⟨trivial, settled_optional_string _,
      settled_consumed _, h.1, h.2, settled_optional_string _, settled_optional_string _⟩⟩
  | transitionSkipped _ _ consumed produced =>
    refine Iff.trans ?_ (settled_tokens impl texts produced)
    exact ⟨fun h => h.2.2.2.1, fun h => ⟨trivial, settled_optional_string _, settled_consumed _, h,
      trivial⟩⟩
  | tokenBridgedOut token _ _ _ _ _ _ _ _ replyChannels =>
    refine Iff.trans ?_ (and_congr (settled_token impl texts token)
      (settled_optional_plain_map (k := "reply_channels") (c := @Codec.string impl)
        (fun _ => trivial) replyChannels))
    exact ⟨fun h => ⟨h.1, h.2.2.2.2.2.2.2.2.2⟩, fun h => ⟨h.1, trivial, trivial, trivial, trivial,
      trivial, trivial, settled_optional_nat _, settled_optional_string _, h.2⟩⟩
  | tokenConsumed => exact iff_of_true ⟨trivial, trivial⟩ trivial
  | tokenRemoved =>
    exact iff_of_true ⟨trivial, trivial, settled_optional_string _, settled_optional_string _⟩ trivial
  | tokenUpdated _ _ color =>
    refine Iff.trans ?_ (settled_tokenColor color)
    exact ⟨fun h => h.2.2.1, fun h => ⟨trivial, trivial, h, settled_optional_string _⟩⟩
  | effectCompleted _ _ consumed produced _ result read =>
    refine Iff.trans ?_ (and_congr (settled_tokens impl texts produced)
      (and_congr_right' (settled_skippedTokens impl texts read)))
    exact ⟨fun h => ⟨h.2.2.2.1, h.2.2.2.2.2.1, h.2.2.2.2.2.2.1⟩, fun h => ⟨trivial,
      settled_optional_string _, settled_consumed _, h.1, trivial, h.2.1, h.2.2,
      settled_optional_string _, settled_optional_string _⟩⟩
  | effectFailed _ _ consumed produced _ _ _ inputData =>
    refine Iff.trans ?_ (and_congr (settled_tokens impl texts produced)
      (settled_optional_map (k := "input_data") (c := @Codec.value impl texts.double) inputData))
    exact ⟨fun h => ⟨h.2.2.2.1, h.2.2.2.2.2.2.2.1⟩, fun h => ⟨trivial, settled_optional_string _,
      settled_consumed _, h.1, trivial, trivial, trivial, h.2, trivial⟩⟩
  | errorOccurred => exact iff_of_true trivial trivial
  | transitionScriptUpdated _ _ guard =>
    have hguard : (Fields.nullable "guard" (@Codec.string impl)).Settled guard := by
      rw [settled_nullable]
      exact fun _ _ _ => trivial
    exact iff_of_true ⟨trivial, trivial, hguard⟩ trivial
  | netCreated _ _ parameters =>
    refine Iff.trans ?_ (settled_optional_value impl texts "parameters" parameters)
    exact ⟨fun h => h.2.2.1, fun h => ⟨trivial, settled_optional_string _, h,
      settled_optional_string _, settled_optional_string _⟩⟩
  | netCompleted _ _ exitCode =>
    refine Iff.trans ?_ (settled_optional_value impl texts "exit_code" exitCode)
    exact ⟨fun h => h.2.2, fun h => ⟨trivial, trivial, h⟩⟩
  | netCancelled =>
    exact iff_of_true ⟨trivial, settled_optional_string _, settled_optional_string _⟩ trivial
  | netFailed => exact iff_of_true ⟨trivial, trivial, trivial, trivial⟩ trivial
  | preDispatchEvaluated _ _ hookChain =>
    refine iff_of_true ⟨trivial, settled_optional_string _, fun h _ => ?_, trivial, trivial⟩ trivial
    exact ⟨trivial, trivial, settled_optional_string _, settled_optional_nat _, trivial⟩
  | preDispatchRejected => exact iff_of_true ⟨trivial, trivial, trivial, trivial⟩ trivial
  | preDispatchDeferred => exact iff_of_true ⟨trivial, trivial, trivial, trivial, trivial⟩ trivial

/-! ## Reading a persisted event -/

theorem persistedEvent_reads_iff (p p' : PersistedEvent) :
    (Serde.persistedEvent impl texts).Reads ((Serde.persistedEvent impl texts).enc p) p' ↔
      (Serde.domainEvent impl texts).Reads ((Serde.domainEvent impl texts).enc p.event) p'.event ∧
        p' = { p with event := p'.event } := by
  have hfields :
      (Serde.persistedEvent impl texts).Reads ((Serde.persistedEvent impl texts).enc p) p' ↔
        p'.sequence = p.sequence ∧ p'.timestamp = p.timestamp ∧
        (Serde.domainEvent impl texts).Reads ((Serde.domainEvent impl texts).enc p.event) p'.event ∧
        p'.hash = p.hash ∧ p'.previousHash = p.previousHash := by
    refine (reads_object _ _ p p').trans ?_
    refine (reads_append _ _ rfl _ _).trans (and_congr ?_ ?_)
    · exact (reads_required _ _ _ _).trans (reads_nat _ _)
    refine (reads_append _ _ rfl _ _).trans (and_congr ?_ ?_)
    · exact (reads_required _ _ _ _).trans (reads_text _ _ _)
    refine (reads_append _ _ rfl _ _).trans (and_congr (reads_required _ _ _ _) ?_)
    refine (reads_append _ _ rfl _ _).trans (and_congr ?_ ?_)
    · exact (reads_required _ _ _ _).trans (reads_string _ _)
    · exact (reads_optional _ _ _ _).trans (readsOption_string _ _)
  rw [hfields]
  obtain ⟨seq, time, event, hash, prev⟩ := p
  obtain ⟨seq', time', event', hash', prev'⟩ := p'
  simp only [PersistedEvent.mk.injEq]
  tauto

theorem hashInput_inj {sequence : Nat} {timestamp : DateTime} {previousHash : Option String}
    {e e' : DomainEvent} : hashInput impl texts sequence timestamp e previousHash =
        hashInput impl texts sequence timestamp e' previousHash ↔
      Json.canon impl ((Serde.domainEvent impl texts).enc e) =
        Json.canon impl ((Serde.domainEvent impl texts).enc e') := by
  unfold hashInput
  have hkeys : ["sequence", "timestamp", "event", "previous_hash"].Nodup := by decide
  rw [canon_obj_inj hkeys (List.Sublist.refl _) (List.Sublist.refl _)]
  simp [Json.canonEntry]

section

variable (impl : MapImpl) (texts : Texts) (digest : Json → String) (textLen : Json → Nat)

/-- However it is read back, the event passes `verify_hash`. -/
def SurvivesPersistence (p : PersistedEvent) : Prop :=
  ∀ p', (Serde.persistedEvent impl texts).Reads ((Serde.persistedEvent impl texts).enc p) p' →
    p'.verifyHash (jsonFormat impl texts digest textLen) = true

/-- The hash tells the values that the event may have after being read back from its own. -/
def NoCollision (p : PersistedEvent) : Prop :=
  ∀ e', (Serde.domainEvent impl texts).Reads ((Serde.domainEvent impl texts).enc p.event) e' →
    digest (hashInput impl texts p.sequence p.timestamp e' p.previousHash) =
      digest (hashInput impl texts p.sequence p.timestamp p.event p.previousHash) →
    hashInput impl texts p.sequence p.timestamp e' p.previousHash =
      hashInput impl texts p.sequence p.timestamp p.event p.previousHash

end

variable {digest : Json → String} {textLen : Json → Nat}

variable {genesis : Bool} {p : PersistedEvent} {fmt : EventFormat}

theorem noCollision_of_steady (h : p.event.Steady impl texts) : NoCollision impl texts digest p := fun e' he' _ =>
  hashInput_inj.mpr (((Serde.domainEvent impl texts).stable_iff p.event).mpr
    ((settled_domainEvent impl texts p.event).mpr h) e' he')

/-- **A verified event survives persistence exactly if it is steady.** -/
theorem survives_iff_steady (hp : p.verifyHash (jsonFormat impl texts digest textLen) = true)
    (hcoll : NoCollision impl texts digest p) :
    SurvivesPersistence impl texts digest textLen p ↔ p.event.Steady impl texts := by
  have hhash : p.hash =
      digest (hashInput impl texts p.sequence p.timestamp p.event p.previousHash) :=
    of_decide_eq_true hp
  rw [← settled_domainEvent impl texts, ← (Serde.domainEvent impl texts).stable_iff]
  constructor
  · intro h e' he'
    have hver := h { p with event := e' } ((persistedEvent_reads_iff p _).mpr ⟨he', rfl⟩)
    have hdigest : p.hash =
        digest (hashInput impl texts p.sequence p.timestamp e' p.previousHash) :=
      of_decide_eq_true hver
    exact hashInput_inj.mp (hcoll e' he' (hdigest.symm.trans hhash))
  · intro h p' hp'
    obtain ⟨hread, heq⟩ := (persistedEvent_reads_iff p p').mp hp'
    rw [heq]
    refine decide_eq_true ?_
    show p.hash = digest (hashInput impl texts p.sequence p.timestamp p'.event p.previousHash)
    rw [hashInput_inj.mpr (h _ hread)]
    exact hhash

/-! ## Chains -/

/-- The parts of two events that a chain check compares between events. -/
def SameLink (p p' : PersistedEvent) : Prop :=
  p'.hash = p.hash ∧ p'.previousHash = p.previousHash ∧ p'.sequence = p.sequence

theorem checkLink_sameLink {i : Nat}
    {prev prev' : Option PersistedEvent} {p' : PersistedEvent} (hp : SameLink p p')
    (hprev : Option.Rel SameLink prev prev') (hcheck : checkLink fmt genesis i prev p = true) :
    checkLink fmt genesis i prev' p' = p'.verifyHash fmt := by
  obtain ⟨hhash, hph, hseq⟩ := hp
  unfold checkLink at hcheck ⊢
  rw [Bool.and_assoc, Bool.and_eq_true] at hcheck
  rw [Bool.and_assoc, hph, hseq]
  cases hprev with
  | none => rw [hcheck.2, Bool.and_true]
  | some hl =>
    dsimp only at hcheck ⊢
    rw [hl.1, hl.2.2, hcheck.2, Bool.and_true]

theorem verifyFrom_sameLink :
    ∀ {chain chain' : List PersistedEvent} {i : Nat} {prev prev' : Option PersistedEvent},
      List.Forall₂ SameLink chain chain' → Option.Rel SameLink prev prev' →
      verifyFrom fmt genesis i prev chain = true →
      (verifyFrom fmt genesis i prev' chain' = true ↔ ∀ p' ∈ chain', p'.verifyHash fmt = true)
  | [], _, _, _, _, .nil, _, _ => by simp [verifyFrom]
  | p :: chain, _, i, prev, prev', .cons (b := p') hp hchain, hprev, h => by
    rw [verifyFrom, Bool.and_eq_true] at h
    rw [verifyFrom, Bool.and_eq_true, checkLink_sameLink hp hprev h.1, List.forall_mem_cons,
      verifyFrom_sameLink hchain (.some hp) h.2]

theorem readsAll_sameLink {chain chain' : List PersistedEvent} (h : ReadsAll (Serde.persistedEvent impl texts)
      (chain.map (Serde.persistedEvent impl texts).enc) chain') : List.Forall₂ SameLink chain chain' := by
  rw [ReadsAll, List.forall₂_map_left_iff] at h
  refine h.imp fun p p' hread => ?_
  have heq := ((persistedEvent_reads_iff p p').mp hread).2
  rw [heq]
  exact ⟨rfl, rfl, rfl⟩

theorem verifyHash_of_verifyFrom : ∀ {chain : List PersistedEvent} {i : Nat} {prev : Option PersistedEvent},
      verifyFrom fmt genesis i prev chain = true → ∀ p ∈ chain, p.verifyHash fmt = true
  | [], _, _, _, p, hp => absurd hp List.not_mem_nil
  | q :: chain, i, prev, h, p, hp => by
    rw [verifyFrom, Bool.and_eq_true] at h
    rcases List.mem_cons.mp hp with rfl | hp
    · have hcheck := h.1
      unfold checkLink at hcheck
      rw [Bool.and_assoc, Bool.and_eq_true] at hcheck
      exact hcheck.1
    · exact verifyHash_of_verifyFrom h.2 p hp

/-- **A verified chain still verifies, however it is read back, exactly if its events are steady.** -/
theorem chain_survives_iff {chain : List PersistedEvent}
    (hchain : verifyEventChainInner (jsonFormat impl texts digest textLen) chain genesis = true)
    (hcoll : ∀ p ∈ chain, NoCollision impl texts digest p) :
    (∀ chain', ReadsAll (Serde.persistedEvent impl texts)
        (chain.map (Serde.persistedEvent impl texts).enc) chain' →
      verifyEventChainInner (jsonFormat impl texts digest textLen) chain' genesis = true) ↔
      ∀ p ∈ chain, p.event.Steady impl texts := by
  have hhash := verifyHash_of_verifyFrom hchain
  calc (∀ chain', ReadsAll (Serde.persistedEvent impl texts)
          (chain.map (Serde.persistedEvent impl texts).enc) chain' →
        verifyEventChainInner (jsonFormat impl texts digest textLen) chain' genesis = true)
      ↔ ∀ chain', ReadsAll (Serde.persistedEvent impl texts)
          (chain.map (Serde.persistedEvent impl texts).enc) chain' →
        ∀ p' ∈ chain', p'.verifyHash (jsonFormat impl texts digest textLen) = true :=
        forall_congr' fun _ => imp_congr_right fun hread =>
          verifyFrom_sameLink (readsAll_sameLink hread) .none hchain
    _ ↔ ∀ p ∈ chain, SurvivesPersistence impl texts digest textLen p :=
        readsAll_forall_iff _ _ chain
    _ ↔ ∀ p ∈ chain, p.event.Steady impl texts :=
        forall_congr' fun p => forall_congr' fun hp => survives_iff_steady (hhash p hp) (hcoll p hp)

def created : DomainEvent :=
  .netCreated "n" none (some (.obj [("rate", .num (.float 0x3FE0000000000000))])) none none

def completed : DomainEvent := .netCompleted "n" "done" (some (.num (.float 0x3FD0000000000000)))

def createdInput : Json := hashInput .index epochTexts 0 ⟨0⟩ created none

/-- SHA-256 of the texts of the two values that are hashed below. -/
def runDigest (j : Json) : String :=
  if j = createdInput then "f359c5a5895da7bbfb2560fee848d131532ded2e86c0e1b70a7cb9315f20c395"
  else "04da09d9b1d0815066c537269d263325d5be7b5257749ac7329c74f4598efcc0"

def createdEvent : PersistedEvent := .new (jsonFormat .index epochTexts runDigest fun _ => 1) ⟨0⟩ 0 created none

def completedEvent : PersistedEvent :=
  .new (jsonFormat .index epochTexts runDigest fun _ => 1) ⟨0⟩ 1 completed (some createdEvent.hash)

theorem created_steady : created.Steady .index epochTexts :=
  fun _ hv => Option.some.inj hv ▸ ⟨nofun, by rfl⟩

theorem completed_steady : completed.Steady .index epochTexts :=
  fun _ hv => Option.some.inj hv ▸ ⟨nofun, by rfl⟩

def twoPlaces : PetriNet := (PetriNet.new.addPlace (.internal "b")).addPlace (.internal "a")

def twoPlacesInput : Json := hashInput .index epochTexts 0 ⟨0⟩ (.netInitialized twoPlaces) none

/-- SHA-256 of the texts of the two values below: the places in the order `a`, `b` and the other. -/
def twoPlacesDigest (j : Json) : String :=
  if j = twoPlacesInput then "d49a786154a3e5faf09d2ffea94c19fe2fe267298664b949c3dcb217618fab6b"
  else "09df239ecc770c5b524398866d17ac5220351244a6f8d5bd30c9202818a5a9c4"

theorem twoPlacesDigest_inj {j : Json} (h : twoPlacesDigest j = twoPlacesDigest twoPlacesInput) :
    j = twoPlacesInput := by
  by_contra hne
  rw [twoPlacesDigest, twoPlacesDigest, if_neg hne, if_pos rfl] at h
  exact absurd h (by decide)

end Mekhan

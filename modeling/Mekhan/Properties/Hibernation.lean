import Mekhan.Application.SnapshotForm
import Mekhan.Infrastructure.MemoryEventStore

/-!
# Hibernate and wake

A store that is seeded from the snapshot of another and then loads the rest of a history, against a
store that loaded the whole history.

Markings are compared as the values they are: up to the iteration order of the hash maps in them and
to how the JSON data of a token is written (`Marking.Same`).
-/

namespace Mekhan

open Infra Infra.Serde

/-! ## Markings as values -/

section

variable (impl : MapImpl)

def TokenColor.view : TokenColor → TokenColor
  | .data v => .data (Json.canon impl v)
  | c => c

/-- A token without the accidents of its representation. -/
def Token.view (t : Token) : TokenId × TokenColor × DateTime × Option Nat ×
    Option (Option BridgeReplyAddress × Option (MapOf String BridgeReplyAddress)) :=
  (t.id, t.color.view impl, t.createdAt, t.createdByEvent, t.replyRouting.map ReplyRouting.view)

/-- The same tokens at every place, in the same order. -/
def Marking.Same (m m' : Marking) : Prop :=
  ∀ p, (m.tokens.lookup p).map (List.map (Token.view impl)) =
    (m'.tokens.lookup p).map (List.map (Token.view impl))

end

variable {impl : MapImpl} {texts : Texts}

theorem Token.id_of_view {t t' : Token} (h : t.view impl = t'.view impl) : t.id = t'.id :=
  congrArg Prod.fst h

/-! ## What a snapshot carries -/

def TokenColor.reread (texts : Texts) : TokenColor → TokenColor
  | .data v => .data (Json.mapDoubles texts.double v)
  | c => c

/-- The token with its data as it is read back. -/
def Token.reread (texts : Texts) (t : Token) : Token := { t with color := t.color.reread texts }

theorem Token.view_reread_iff {t : Token} :
    (t.reread texts).view impl = t.view impl ↔ t.color.Kept impl texts := by
  obtain ⟨id, color, at', by', routing⟩ := t
  cases color <;> simp [reread, TokenColor.reread, view, TokenColor.view, TokenColor.Kept, ReadsBack]

/-- What an event does to a marking, token by token. -/
inductive Edit where
  | add (p : PlaceId) (t : Token)
  | remove (p : PlaceId) (id : TokenId)
  | recolor (p : PlaceId) (id : TokenId) (color : TokenColor)

def Marking.edit (m : Marking) : Edit → Marking
  | .add p t => m.addToken p t
  | .remove p id => m.removeToken p id
  | .recolor p id color => m.updateToken p id color

def firing (consumed : List (PlaceId × TokenId)) (produced : List (PlaceId × Token)) : List Edit :=
  consumed.map (fun c => .remove c.1 c.2) ++ produced.map fun c => .add c.1 c.2

def DomainEvent.edits : DomainEvent → List Edit
  | .tokenCreated token placeId .. => [.add placeId token]
  | .transitionFired _ _ consumed produced .. => firing consumed produced
  | .effectCompleted _ _ consumed produced .. => firing consumed produced
  | .transitionSkipped _ _ consumed produced _ => firing consumed produced
  | .tokenConsumed tokenId placeId => [.remove placeId tokenId]
  | .tokenRemoved tokenId placeId .. => [.remove placeId tokenId]
  | .tokenUpdated tokenId placeId newColor _ => [.recolor placeId tokenId newColor]
  | .effectFailed _ _ consumed produced _ _ tokensConsumed .. =>
    if tokensConsumed then firing consumed produced else []
  | _ => []

theorem foldl_firing (m : Marking) (consumed : List (PlaceId × TokenId)) (produced : List (PlaceId × Token)) :
    (firing consumed produced).foldl Marking.edit m = (m.removeTokens consumed).addTokens produced := by
  rw [firing, List.foldl_append, List.foldl_map, List.foldl_map]
  rfl

theorem applyEventToMarking_eq_edits (m : Marking) (e : DomainEvent) :
    applyEventToMarking m e = e.edits.foldl Marking.edit m := by
  cases e with
  | transitionFired _ _ consumed produced => exact (foldl_firing m consumed produced).symm
  | effectCompleted _ _ consumed produced => exact (foldl_firing m consumed produced).symm
  | transitionSkipped _ _ consumed produced => exact (foldl_firing m consumed produced).symm
  | effectFailed _ _ consumed produced _ _ tokensConsumed =>
    cases tokensConsumed with
    | false => rfl
    | true => exact (foldl_firing m consumed produced).symm
  | _ => rfl

/-- The tokens of each place that has an entry, each with whether the snapshot carried it as it is. -/
abbrev Carried := PlaceId → Option (List (Token × Bool))

namespace Carried

def ofMarking (m : Marking) : Carried := fun p => (m.tokens.lookup p).map (List.map (·, true))

def recolor (id : TokenId) (color : TokenColor) : List (Token × Bool) → List (Token × Bool)
  | [] => []
  | e :: es => if e.1.id = id then ({ e.1 with color := color }, false) :: es else e :: recolor id color es

def edit (c : Carried) : Edit → Carried
  | .add p t => Function.update c p (some ((c p).getD [] ++ [(t, false)]))
  | .remove p id => Function.update c p ((c p).map (List.eraseP fun e => e.1.id = id))
  | .recolor p id color => Function.update c p ((c p).map (recolor id color))

def loadAll (c : Carried) (events : List DomainEvent) : Carried :=
  events.foldl (fun c e => e.edits.foldl edit c) c

/-- Every carried token that is still there has data that was read back as it was. -/
def Kept (impl : MapImpl) (texts : Texts) (c : Carried) : Prop :=
  ∀ p, ∀ es ∈ c p, ∀ e ∈ es, e.2 = true → e.1.color.Kept impl texts

end Carried

/-- A token of the store that loads everything, or of the one that wakes from the snapshot. -/
def Token.seen (texts : Texts) (woken : Bool) (e : Token × Bool) : Token :=
  if woken && e.2 then e.1.reread texts else e.1

/-- The marking holds the tokens of `c`, as that store sees them. -/
def Carried.Shows (impl : MapImpl) (texts : Texts) (woken : Bool) (c : Carried) (m : Marking) : Prop :=
  ∀ p, (m.tokens.lookup p).map (List.map (Token.view impl)) =
    (c p).map (List.map (Token.view impl ∘ Token.seen texts woken))

section

variable {woken : Bool} {m : Marking} {c : Carried}

@[simp] theorem Token.id_seen (e : Token × Bool) : (Token.seen texts woken e).id = e.1.id := by
  unfold seen
  split <;> rfl

theorem Token.view_recolored {t : Token} {e : Token × Bool} (color : TokenColor)
    (h : t.view impl = (Token.seen texts woken e).view impl) : Token.view impl { t with color := color } =
      (Token.seen texts woken ({ e.1 with color := color }, false)).view impl := by
  unfold seen at h ⊢
  rw [Bool.and_false, if_neg Bool.false_ne_true]
  split at h
  all_goals
    simp only [view, reread, Prod.mk.injEq] at h ⊢
    exact ⟨h.1, trivial, h.2.2⟩

namespace Carried.Shows

theorem tokensAt (h : c.Shows impl texts woken m) (p : PlaceId) : (m.tokensAt p).map (Token.view impl) =
    ((c p).getD []).map (Token.view impl ∘ Token.seen texts woken) := by
  have hp := h p
  unfold Marking.tokensAt
  cases hl : m.tokens.lookup p <;> cases hc : c p <;> simp_all

theorem addToken (h : c.Shows impl texts woken m) (p : PlaceId) (t : Token) :
    Shows impl texts woken (c.edit (.add p t)) (m.addToken p t) := by
  intro q
  unfold Marking.addToken edit
  by_cases hq : q = p
  · subst hq
    simp [h.tokensAt q, Token.seen]
  · simpa [hq] using h q

theorem update {f : List Token → List Token} {g : List (Token × Bool) → List (Token × Bool)}
    (hfg : ∀ ts es, ts.map (Token.view impl) = es.map (Token.view impl ∘ Token.seen texts woken) →
      (f ts).map (Token.view impl) = (g es).map (Token.view impl ∘ Token.seen texts woken))
    (h : c.Shows impl texts woken m) (p : PlaceId) :
    Shows impl texts woken (Function.update c p ((c p).map g)) (match m.tokens.lookup p with
      | none => m
      | some ts => ⟨m.tokens.insert p (f ts)⟩) := by
  have hp := h p
  intro q
  by_cases hq : q = p
  · subst hq
    cases hl : m.tokens.lookup q with
    | none =>
      have hc : c q = none := by simpa [hl] using hp.symm
      simp [hl, hc]
    | some ts =>
      rw [hl] at hp
      obtain ⟨es, hc, heq⟩ := Option.map_eq_some_iff.mp hp.symm
      simp [hc, hfg ts es heq.symm]
  · cases hl : m.tokens.lookup p <;> simpa [hq] using h q

theorem removeToken (h : c.Shows impl texts woken m) (p : PlaceId) (id : TokenId) :
    Shows impl texts woken (c.edit (.remove p id)) (m.removeToken p id) := by
  refine update (f := List.eraseP fun t => t.id = id) (fun ts => ?_) h p
  induction ts with
  | nil =>
    intro es hes
    rw [List.map_eq_nil_iff.mp hes.symm]
    rfl
  | cons t ts ih =>
    intro es hes
    obtain ⟨e, es, rfl, he, hrest⟩ := List.map_eq_cons_iff.mp hes.symm
    have hid : e.1.id = t.id := (Token.id_seen e).symm.trans (Token.id_of_view he)
    by_cases heq : t.id = id
    · rw [List.eraseP_cons_of_pos (by simpa using heq), List.eraseP_cons_of_pos (by simpa [hid] using heq), hrest]
    · rw [List.eraseP_cons_of_neg (by simpa using heq), List.eraseP_cons_of_neg (by simpa [hid] using heq),
        List.map_cons, List.map_cons, he, ih es hrest.symm]

theorem updateToken (h : c.Shows impl texts woken m) (p : PlaceId) (id : TokenId) (color : TokenColor) :
    Shows impl texts woken (c.edit (.recolor p id color)) (m.updateToken p id color) := by
  refine update (f := Marking.recolor id color) (fun ts => ?_) h p
  induction ts with
  | nil =>
    intro es hes
    rw [List.map_eq_nil_iff.mp hes.symm]
    rfl
  | cons t ts ih =>
    intro es hes
    obtain ⟨e, es, rfl, he, hrest⟩ := List.map_eq_cons_iff.mp hes.symm
    have hid : e.1.id = t.id := (Token.id_seen e).symm.trans (Token.id_of_view he)
    by_cases heq : t.id = id
    · rw [Marking.recolor, Carried.recolor, if_pos heq, if_pos (hid.trans heq), List.map_cons, List.map_cons,
        Function.comp_apply, Token.view_recolored color he.symm, hrest]
    · rw [Marking.recolor, Carried.recolor, if_neg heq, if_neg (hid ▸ heq), List.map_cons, List.map_cons, he,
        ih es hrest.symm]

theorem applyEvent (h : c.Shows impl texts woken m) (e : DomainEvent) :
    Shows impl texts woken (e.edits.foldl edit c) (applyEventToMarking m e) := by
  rw [applyEventToMarking_eq_edits]
  induction e.edits generalizing c m with
  | nil => exact h
  | cons d ds ih =>
    refine ih ?_
    cases d with
    | add p t => exact h.addToken p t
    | remove p id => exact h.removeToken p id
    | recolor p id color => exact h.updateToken p id color

theorem loadAll (h : c.Shows impl texts woken m) (events : List PersistedEvent) :
    Shows impl texts woken (c.loadAll (events.map (·.event))) (projectOnto m events) := by
  induction events generalizing c m with
  | nil => exact h
  | cons e events ih => exact ih (h.applyEvent e.event)

/-- **The two stores have one marking exactly if the carried tokens that are left are kept.** -/
theorem same_iff {m' : Marking} (h : c.Shows impl texts true m) (h' : c.Shows impl texts false m') :
    m.Same impl m' ↔ c.Kept impl texts := by
  refine forall_congr' fun p => ?_
  rw [h p, h' p]
  cases c p with
  | none => simp
  | some es =>
    simp only [Option.map_some, Option.some.injEq, List.map_inj_left, Option.mem_def, forall_eq']
    refine forall_congr' fun e => imp_congr_right fun _ => ?_
    obtain ⟨t, _ | _⟩ := e
    · simp [Token.seen]
    · simpa [Token.seen] using Token.view_reread_iff

theorem ofMarking (m : Marking) : (Carried.ofMarking m).Shows impl texts false m := by
  intro p
  simp only [Carried.ofMarking, Option.map_map]
  congr 1
  funext ts
  simp [Token.seen, Function.comp_def]

end Carried.Shows

end

/-! ## Reading a token back -/

theorem bridgeReplyAddress_of_reads (a a' : BridgeReplyAddress)
    (h : (Serde.bridgeReplyAddress impl).Reads ((Serde.bridgeReplyAddress impl).enc a) a') : a' = a := by
  obtain ⟨hn, hp⟩ := (reads_append _ _ rfl _ _).mp ((reads_object _ _ a a').mp h)
  have hn' := (reads_string _ _).mp ((reads_required _ _ _ _).mp hn)
  have hp' := (reads_string _ _).mp ((reads_required _ _ _ _).mp hp)
  cases a; cases a'
  exact congrArg₂ _ hn' hp'

theorem view_of_reads_replyRouting (r r' : ReplyRouting)
    (h : (Serde.replyRouting impl).Reads ((Serde.replyRouting impl).enc r) r') : r'.view = r.view := by
  obtain ⟨hto, hch⟩ := (reads_append _ _ rfl _ _).mp ((reads_object _ _ r r').mp h)
  have hto' := readsOption_map_eq (f := id) (enc_object_ne _ _) bridgeReplyAddress_of_reads
    ((reads_optional _ _ _ _).mp hto)
  rw [Option.map_id] at hto'
  have hch' := readsOption_map_eq (f := fun m => m.toFinmap) (enc_stringMap_ne _) (fun m m' hm => ?_)
    ((reads_optional _ _ _ _).mp hch)
  · exact Prod.ext hto' hch'
  · refine Finmap.ext_lookup fun k => ?_
    have hk := lookup_of_readsMap (f := id) (g := id) bridgeReplyAddress_of_reads hm k
    rwa [Option.map_id] at hk

theorem view_of_reads_tokenColor (c c' : TokenColor)
    (h : (Serde.tokenColor impl texts).Reads ((Serde.tokenColor impl texts).enc c) c') :
    c'.view impl = (c.reread texts).view impl := by
  obtain ⟨es, hes, htag, hread⟩ := h
  cases hes
  have hkind := Serde.ColorKind.name_inj _ _
    (Json.str.inj (Option.some.inj (List.lookup_cons_self.symm.trans htag)))
  cases c with
  | unit =>
    cases c' with
    | unit => rfl
    | integer => exact absurd hkind (by simp [Serde.ColorKind.equiv])
    | data => exact absurd hkind (by simp [Serde.ColorKind.equiv])
  | integer i =>
    cases c' with
    | unit => exact absurd hkind (by simp [Serde.ColorKind.equiv])
    | integer i' =>
      obtain ⟨j, hj, hi⟩ := hread
      obtain rfl : Json.num (.ofInt i) = j := Option.some.inj hj
      have hi' : i' = i := (reads_exact _ _ _ i i').mp hi
      rw [hi']
      rfl
    | data => exact absurd hkind (by simp [Serde.ColorKind.equiv])
  | data v =>
    cases c' with
    | unit => exact absurd hkind (by simp [Serde.ColorKind.equiv])
    | integer => exact absurd hkind (by simp [Serde.ColorKind.equiv])
    | data v' =>
      obtain ⟨j, hj, hv⟩ := hread
      obtain rfl : v = j := Option.some.inj hj
      have hv' : v' = Json.canon impl (Json.mapDoubles texts.double v) := hv
      rw [TokenColor.reread, TokenColor.view, TokenColor.view, hv', Json.canon_canon]

theorem view_of_reads_token (t t' : Token)
    (h : (Serde.token impl texts).Reads ((Serde.token impl texts).enc t) t') :
    t'.view impl = (t.reread texts).view impl := by
  obtain ⟨hid, h⟩ := (reads_append _ _ rfl _ _).mp ((reads_object _ _ t t').mp h)
  obtain ⟨hcolor, h⟩ := (reads_append _ _ rfl _ _).mp h
  obtain ⟨hat, h⟩ := (reads_append _ _ rfl _ _).mp h
  obtain ⟨hby, hrouting⟩ := (reads_append _ _ rfl _ _).mp h
  have hid' : t'.id.uuid = t.id.uuid :=
    (@reads_text impl _ _ _ _).mp ((reads_required _ _ _ _).mp hid)
  have hat' : t'.createdAt = t.createdAt := (reads_text _ _ _).mp ((reads_required _ _ _ _).mp hat)
  have hby' := readsOption_map_eq (f := id) enc_nat_ne (fun n n' hn => (reads_nat n n').mp hn)
    ((reads_optional _ _ _ _).mp hby)
  rw [Option.map_id] at hby'
  have hrouting' := readsOption_map_eq (enc_object_ne _ _) view_of_reads_replyRouting
    ((reads_optional _ _ _ _).mp hrouting)
  have hcolor' := view_of_reads_tokenColor _ _ ((reads_required _ _ _ _).mp hcolor)
  exact Prod.ext (congrArg TokenId.mk hid') (Prod.ext hcolor' (Prod.ext hat' (Prod.ext hby' hrouting')))

/-! ## Reading a snapshot back -/

theorem shows_of_reads_marking {m : Marking} (it : Iteration m.tokens) {tokens : HashMap PlaceId (List Token)}
    (h : (Serde.marking impl texts).Reads ((Serde.marking impl texts).enc it.map) tokens) :
    (Carried.ofMarking m).Shows impl texts true ⟨tokens.toFinmap⟩ := by
  have hmap := (reads_required _ _ _ _).mp ((reads_object _ _ _ _).mp h)
  have hlists : ∀ ts ts' : List Token,
      (Codec.list (Serde.token impl texts)).Reads ((Codec.list (Serde.token impl texts)).enc ts) ts' →
      ts'.map (Token.view impl) = ts.map fun t => (t.reread texts).view impl := by
    rintro ts ts' ⟨js, hjs, hread⟩
    cases hjs
    exact readsAll_map_eq view_of_reads_token hread
  intro p
  have hp := lookup_of_readsMap hlists hmap p.name
  rw [HashMap.lookup_rekey_symm, HashMap.lookup_rekey_symm] at hp
  rw [Carried.ofMarking, ← it.toMap, Option.map_map]
  refine hp.trans (congrArg (fun f => Option.map f _) ?_)
  funext ts
  simp [Token.seen, Function.comp_def]

theorem snapshot_of_reads {s s' : NetSnapshot} {it : Iteration s.marking.tokens}
    (h : NetSnapshot.Reads impl texts (s.write impl texts it) s') :
    (Carried.ofMarking s.marking).Shows impl texts true s'.marking ∧ s'.lastHash = s.lastHash ∧ s'.eventCount = s.eventCount ∧
      s'.nextSequence = s.nextSequence ∧ s'.lastStreamSeq = s.lastStreamSeq := by
  obtain ⟨tokens, htokens, h⟩ := h
  obtain ⟨hmarking, h⟩ := (reads_append _ _ rfl _ _).mp ((reads_object _ _ _ _).mp h)
  obtain ⟨-, h⟩ := (reads_append _ _ rfl _ _).mp h
  obtain ⟨hhash, h⟩ := (reads_append _ _ rfl _ _).mp h
  obtain ⟨hcount, h⟩ := (reads_append _ _ rfl _ _).mp h
  obtain ⟨hnext, h⟩ := (reads_append _ _ rfl _ _).mp h
  obtain ⟨hseq, -⟩ := (reads_append _ _ rfl _ _).mp h
  have hnat : ∀ {k : String} {n n' : Nat}, (Fields.required k (@Codec.nat impl)).Reads
      ((Fields.required k (@Codec.nat impl)).enc n) n' → n' = n :=
    fun hr => (reads_nat _ _).mp ((reads_required _ _ _ _).mp hr)
  refine ⟨?_, readsNullable_string hhash, hnat hcount, hnat hnext, hnat hseq⟩
  have hshows := shows_of_reads_marking it ((reads_required _ _ _ _).mp hmarking)
  have heq : s'.marking = ⟨tokens.toFinmap⟩ := congrArg Marking.mk htokens
  rw [heq]
  exact hshows

theorem snapshot_reads_total (s : NetSnapshot) (it : Iteration s.marking.tokens) :
    ∃ s', NetSnapshot.Reads impl texts (s.write impl texts it) s' := by
  obtain ⟨⟨tokens, dedup, hash, count, next, seq, topology, version⟩, h⟩ :=
    (Serde.snapshotFields impl texts).total
      (it.map, s.dedup, s.lastHash, s.eventCount, s.nextSequence, s.lastStreamSeq, s.topology,
        s.version)
  exact ⟨⟨⟨tokens.toFinmap⟩, dedup, hash, count, next, seq, topology, version⟩, tokens, rfl, h⟩

/-! ## Hibernate and wake -/

/-- Equal event states, the markings as values. -/
structure EventState.Same (impl : MapImpl) (s s' : EventState) : Prop where
  marking : s.marking.Same impl s'.marking
  len : s.len = s'.len
  chainTipHash : s.chainTipHash = s'.chainTipHash
  nextSequence : s.nextSequence = s'.nextSequence
  lastAppliedStreamSeq : s.lastAppliedStreamSeq = s'.lastAppliedStreamSeq

/-- The quantities of an event state beside its marking. -/
def EventState.counters (s : EventState) : Nat × Option String × Nat × Nat :=
  (s.len, s.chainTipHash, s.nextSequence, s.lastAppliedStreamSeq)

theorem EventState.same_iff {s s' : EventState} (h : s.counters = s'.counters) :
    s.Same impl s' ↔ s.marking.Same impl s'.marking := by
  simp only [counters, Prod.mk.injEq] at h
  exact ⟨fun hsame => hsame.marking, fun hmarking => ⟨hmarking, h.1, h.2.1, h.2.2.1, h.2.2.2⟩⟩

theorem EventState.counters_loadAll : ∀ (hist : List (PersistedEvent × Nat)) {s s' : EventState},
    s.counters = s'.counters → (hist.foldl load s).counters = (hist.foldl load s').counters
  | [], _, _, h => h
  | e :: hist, _, _, h => by
    refine counters_loadAll hist ?_
    simp only [counters, Prod.mk.injEq] at h
    simp [counters, load, h.1, h.2.2]

theorem EventState.marking_loadAll : ∀ (hist : List (PersistedEvent × Nat)) (s : EventState),
    (hist.foldl load s).marking = projectOnto s.marking (hist.map (·.1))
  | [], _ => rfl
  | e :: hist, s => marking_loadAll hist (s.load e)

/-- The tokens of the marking after `before`, moved on by `after`. -/
def carriedOver (before after : List (PersistedEvent × Nat)) : Carried :=
  (Carried.ofMarking (projectMarking (before.map (·.1)))).loadAll (after.map (·.1.event))

/-- What an empty store stands for. -/
def EventState.fresh : EventState := ⟨.new, 0, none, 0, 0⟩

theorem eventState_withCaps (tailCap dedupCap : Nat) :
    (MemoryEventStore.withCaps tailCap dedupCap).eventState = .fresh := rfl

theorem wake_same_iff {fmt : EventFormat} {before : List (PersistedEvent × Nat)}
    (after : List (PersistedEvent × Nat)) {store : MemoryEventStore}
    (hstore : store.eventState = before.foldl EventState.load .fresh)
    {itDedup : Iteration store.inner.snapshotInputsNow.dedup.map}
    {it : Iteration (store.inner.snapshotInputsNow.intoSnapshot itDedup).marking.tokens} {snap : NetSnapshot}
    (h : NetSnapshot.Reads impl texts
      ((store.inner.snapshotInputsNow.intoSnapshot itDedup).write impl texts it) snap)
    (tailCap dedupCap tailCap' dedupCap' : Nat) : EventState.Same impl
      (((MemoryEventStore.withCaps tailCap dedupCap).seedFromSnapshot snap).loadAll fmt after).eventState
      ((MemoryEventStore.withCaps tailCap' dedupCap').loadAll fmt (before ++ after)).eventState ↔
        (carriedOver before after).Kept impl texts := by
  obtain ⟨hmarking, hhash, hcount, hnext, hseq⟩ := snapshot_of_reads h
  have hcounters : ((MemoryEventStore.withCaps tailCap dedupCap).seedFromSnapshot snap).eventState.counters =
      store.eventState.counters :=
    Prod.ext hcount (Prod.ext hhash (Prod.ext hnext hseq))
  have hbefore : store.eventState.marking = projectMarking (before.map (·.1)) := by
    rw [hstore, EventState.marking_loadAll]
    rfl
  have hevents : after.map (·.1.event) = (after.map (·.1)).map (·.event) := by rw [List.map_map]; rfl
  rw [MemoryEventStore.eventState_loadAll, MemoryEventStore.eventState_loadAll, eventState_withCaps,
    List.foldl_append]
  rw [EventState.same_iff (EventState.counters_loadAll after (hcounters.trans (congrArg _ hstore)))]
  rw [EventState.marking_loadAll, EventState.marking_loadAll, carriedOver, hevents, ← hbefore]
  refine Carried.Shows.same_iff ?_ ?_
  · exact Carried.Shows.loadAll (m := snap.marking) hmarking _
  · rw [hstore]
    exact Carried.Shows.loadAll (Carried.Shows.ofMarking _) _

def doubleToken (bits : BitVec 64) (n : Nat) : Token :=
  .new ⟨n⟩ ⟨0⟩ (.data (.obj [("rate", .num (.float bits))]))

/-- A token with a double arrives at a place. -/
def arrivalOf (bits : BitVec 64) (n : Nat) : PersistedEvent × Nat :=
  (⟨n, ⟨0⟩, .tokenCreated (doubleToken bits n) ⟨"inbox"⟩ none none none none, "", none⟩, n + 7)

/-- The data is `0.12000000000000001`, then `0.5`. -/
def arrivals : List (PersistedEvent × Nat) := [arrivalOf 0x3FBEB851EB851EB9 0, arrivalOf 0x3FE0000000000000 1]

def consumption : PersistedEvent × Nat := (⟨2, ⟨0⟩, .tokenConsumed ⟨0⟩ ⟨"inbox"⟩, "", none⟩, 9)

def hibernatedStore : MemoryEventStore := (MemoryEventStore.withCaps 1 1).loadAll .plain arrivals

def hibernatedTokens : HashMap PlaceId (List Token) :=
  HashMap.inOrder [(⟨"inbox"⟩, [doubleToken 0x3FBEB851EB851EB9 0, doubleToken 0x3FE0000000000000 1])] (by decide)

theorem carriedOver_arrivals (after : List DomainEvent) :
    (Carried.ofMarking (projectMarking (arrivals.map (·.1)))).loadAll after =
      Carried.loadAll (Function.update (fun _ => none) ⟨"inbox"⟩ (some [(doubleToken 0x3FBEB851EB851EB9 0, true),
        (doubleToken 0x3FE0000000000000 1, true)])) after := by
  congr 1
  funext p
  by_cases hp : p = ⟨"inbox"⟩
  · subst hp
    rw [Function.update_self]
    rfl
  · rw [Function.update_of_ne hp]
    simp [Carried.ofMarking, projectMarking, projectOnto, arrivals, arrivalOf, applyEventToMarking,
      Marking.addToken, Marking.new, hp]

end Mekhan

import Mekhan.Application.Firing

/-!
# What a firing writes

The events each part of `Application/Firing.lean` appends when no append fails, with its result. Up
to the handler call a live effect only writes notes, events that leave the marking alone
(`fireLive_spec`); after it, and in a pure transition, the firing records itself in one event that
moves the tokens, followed by one event for each token sent over a bridge (`recordFiring_spec`), or
drops its bound tokens one by one (`consume_spec`).
-/

namespace Mekhan

open Infra Journal

def logStore : Store (List PersistedEvent) DomainEvent PersistedEvent where
  persist e log :=
    let persisted := PersistedEvent.new .plain ⟨0⟩ log.length e (log.getLast?.map (·.hash))
    (persisted, log ++ [persisted])
  events log := log
  content := PersistedEvent.event
  content_persist _ _ := rfl

/-! ## What an event moves -/

namespace DomainEvent

/-- The tokens an event takes from the marking. -/
def consumption : DomainEvent → List (PlaceId × TokenId)
  | .transitionFired _ _ consumed .. | .effectCompleted _ _ consumed ..
  | .transitionSkipped _ _ consumed .. => consumed
  | .effectFailed _ _ consumed _ _ _ tokensConsumed .. => if tokensConsumed then consumed else []
  | .tokenConsumed tokenId placeId | .tokenRemoved tokenId placeId .. => [(placeId, tokenId)]
  | _ => []

/-- The tokens an event puts into the marking. -/
def production : DomainEvent → List (PlaceId × Token)
  | .tokenCreated token placeId .. => [(placeId, token)]
  | .transitionFired _ _ _ produced .. | .effectCompleted _ _ _ produced ..
  | .transitionSkipped _ _ _ produced _ => produced
  | .effectFailed _ _ _ produced _ _ tokensConsumed .. => if tokensConsumed then produced else []
  | _ => []

/-- The token an event sends to another net, with its source place and its target. -/
def bridging : DomainEvent → List (PlaceId × Token × String × String)
  | .tokenBridgedOut token placeId _ netId placeName .. => [(placeId, token, netId, placeName)]
  | _ => []

/-- Events that report on a firing and move nothing. -/
def isNote : DomainEvent → Bool
  | .errorOccurred .. | .preDispatchEvaluated .. | .preDispatchRejected ..
  | .preDispatchDeferred .. => true
  | _ => false

/-- An event that moves tokens in the marking and sends none over a bridge. -/
structure Records (e : DomainEvent) (consumed : List (PlaceId × TokenId))
    (produced : List (PlaceId × Token)) : Prop where
  consumption : e.consumption = consumed
  production : e.production = produced
  bridging : e.bridging = []
  apply : ∀ m, applyEventToMarking m e = (m.removeTokens consumed).addTokens produced

theorem isNote_spec {e : DomainEvent} (h : e.isNote) :
    e.consumption = [] ∧ e.production = [] ∧ e.bridging = [] ∧ ∀ m, applyEventToMarking m e = m := by
  cases e <;> first | exact ⟨rfl, rfl, rfl, fun _ => rfl⟩ | simp [isNote] at h

end DomainEvent

theorem projectEvents_notes {notes : List DomainEvent} (h : ∀ e ∈ notes, e.isNote) (m : Marking) :
    projectEvents m notes = m := by
  induction notes with
  | nil => rfl
  | cons e notes ih =>
    show projectEvents (applyEventToMarking m e) notes = m
    rw [(DomainEvent.isNote_spec (h e List.mem_cons_self)).2.2.2]
    exact ih fun x hx => h x (List.mem_cons_of_mem _ hx)

/-- What is sent over a bridge for a routed token. -/
def BridgeOutToken.sent (out : BridgeOutToken) : PlaceId × Token × String × String :=
  (out.placeId, out.token, out.target.targetNetId, out.target.targetPlaceName)

namespace Firing

variable {σ : Type} (st : Store σ DomainEvent PersistedEvent) (s : FiringState) (db : σ)

/-! ## Recording and dropping -/

/-- The events of routed tokens, from the token number `i` on. -/
def bridgedOutEvents (tid : TransitionId) (signalKey : Nat → Uuid) (producedByEvent : Option Nat)
    (i : Nat) (outs : List BridgeOutToken) : List DomainEvent :=
  (outs.zipIdx i).map fun out => bridgedOutEvent tid (signalKey out.2) producedByEvent out.1

theorem emitBridgeOutEvents_spec (tid : TransitionId) (signalKey : Nat → Uuid)
    (producedByEvent : Option Nat) : ∀ (outs : List BridgeOutToken) (i : Nat) (db : σ),
    (emitBridgeOutEvents tid signalKey producedByEvent i outs).written st s db =
        bridgedOutEvents tid signalKey producedByEvent i outs ∧
      ((emitBridgeOutEvents tid signalKey producedByEvent i outs).play st s db).result = .ok ()
  | [], _, _ => ⟨rfl, rfl⟩
  | out :: outs, i, db => by
    obtain ⟨hwritten, hresult⟩ := emitBridgeOutEvents_spec tid signalKey producedByEvent outs (i + 1)
      (st.persist (bridgedOutEvent tid (signalKey i) producedByEvent out) db).2
    refine ⟨?_, hresult⟩
    rw [emitBridgeOutEvents, written_write_bind, hwritten]
    rfl

theorem recordFiring_spec (tid : TransitionId) (draws : Draws) (record : DomainEvent)
    (outs : List BridgeOutToken) : ∃ seq event, (recordFiring tid draws record outs).written st s db =
        record :: bridgedOutEvents tid draws.signalKey (some seq) 0 outs ∧
      ((recordFiring tid draws record outs).play st s db).result = .ok event := by
  have hemit := emitBridgeOutEvents_spec st s tid draws.signalKey
    (some (st.persist record db).1.sequence) outs 0 (st.persist record db).2
  refine ⟨(st.persist record db).1.sequence, (st.persist record db).1, ?_, ?_⟩
  · rw [recordFiring, written_write_bind, (play_bind_of_ok st s _ hemit.2).1, hemit.1]
    exact congrArg _ (List.append_nil _)
  · exact (play_bind_of_ok st s _ hemit.2).2

theorem removeBoundTokens_spec (reason : String) : ∀ (consumed : List (PlaceId × TokenId)) (db : σ),
    (removeBoundTokens reason consumed).written st s db =
        consumed.map (fun c => .tokenRemoved c.2 c.1 (some reason) none) ∧
      ((removeBoundTokens reason consumed).play st s db).result = .ok ()
  | [], _ => ⟨rfl, rfl⟩
  | (placeId, tokenId) :: consumed, db => by
    obtain ⟨hwritten, hresult⟩ := removeBoundTokens_spec reason consumed
      (st.persist (.tokenRemoved tokenId placeId (some reason) none) db).2
    refine ⟨?_, hresult⟩
    rw [removeBoundTokens, written_write_bind, hwritten]
    rfl

theorem consume_spec (consumed : List (PlaceId × TokenId)) (err : ServiceError) :
    ∃ reason, (consumeBoundTokensOnPermanentFailure consumed err).written st s db =
        (if err.isPermanent then .errorOccurred reason ::
            consumed.map (fun c => .tokenRemoved c.2 c.1 (some reason) none)
          else []) ∧
      ((consumeBoundTokensOnPermanentFailure consumed err).play st s db).result = .error err := by
  refine ⟨"permanent transition failure: " ++ err.display, ?_⟩
  rw [consumeBoundTokensOnPermanentFailure]
  split
  · have hremove := removeBoundTokens_spec st s ("permanent transition failure: " ++ err.display)
      consumed (st.persist (.errorOccurred ("permanent transition failure: " ++ err.display)) db).2
    refine ⟨?_, (play_bind_of_ok st s _ hremove.2).2⟩
    rw [written_write_bind, (play_bind_of_ok st s _ hremove.2).1, hremove.1]
    exact congrArg _ (List.append_nil _)
  · exact ⟨rfl, rfl⟩

/-! ## Up to the handler -/

variable (env : FiringEnv) (draws : Draws)

/-- The configuration a live effect is dispatched with, `none` where the hooks refuse it. -/
def dispatchConfig (t : Transition) (handlerId : String) (b : TokenBinding)
    (config : Option Json) : Option (Option Json) :=
  match env.preDispatch with
  | none => some config
  | some rt =>
    if rt.chain.isEmpty then some config
    else
      match (evaluateChain rt.chain (hookContext env rt t handlerId b config)).1 with
      | .continue enriched => some (enriched.or config)
      | .reject .. | .defer .. => none

/-- What the handler of a live effect returns, `none` where it is not called. -/
def effectReply (t : Transition) (handlerId : String) (b : TokenBinding) :
    Option (Except EffectError EffectOutput) :=
  match env.effectHandlers handlerId, resolvedConfig env t with
  | some handler, .ok resolved =>
    (dispatchConfig env t handlerId b resolved).map fun config => handler (effectInput t b config)
  | _, _ => none

section Notes

variable {env : FiringEnv} {draws : Draws} {t : Transition} {b : TokenBinding}

theorem rejectDispatch_writes (rt : PreDispatchRuntime) (tid : TransitionId)
    (hookName reason : String) (now : DateTime) :
    (rejectDispatch rt tid hookName reason now).Writes (·.isNote) :=
  .write_bind rfl fun _ => .bind (fun _ => trivial) fun _ => trivial

theorem followChain_writes (rt : PreDispatchRuntime) (tid : TransitionId) (config : Option Json)
    (outcome : ChainEvalOutcome) : (followChain draws rt tid config outcome).Writes (·.isNote) := by
  cases outcome with
  | «continue» enriched => exact .bind (fun _ => trivial) fun _ => .pure _
  | reject hookName reason => exact rejectDispatch_writes ..
  | defer hookName retryAfter =>
    -- The deferral is noted; over the budget a rejection follows.
    refine fun s => ⟨rfl, fun _ => ?_⟩
    dsimp only
    split
    · exact rejectDispatch_writes ..
    · trivial

/-- **Before its handler is called a live effect only writes notes.** -/
theorem preDispatch_writes (handlerId : String) (config : Option Json) :
    (preDispatch env draws t handlerId b config).Writes (·.isNote) := by
  unfold preDispatch
  split
  · trivial
  · split
    · trivial
    · exact .write_bind rfl fun _ => followChain_writes ..

end Notes

theorem followChain_result (rt : PreDispatchRuntime) (tid : TransitionId) (config : Option Json)
    (outcome : ChainEvalOutcome) :
    match outcome with
    | .continue enriched =>
      ((followChain draws rt tid config outcome).play st s db).result = .ok (enriched.or config)
    | .reject .. | .defer .. => ∃ err,
      ((followChain draws rt tid config outcome).play st s db).result = .error err ∧
        err.isPermanent = false := by
  cases outcome with
  | «continue» enriched => rfl
  | reject hookName reason => exact ⟨_, rfl, rfl⟩
  | defer hookName retryAfter =>
    by_cases hcount : rt.maxDefers < s.budgets.current rt.netId tid + 1
    · refine ⟨.preDispatchRejected tid hookName "defer-budget-exceeded", ?_, rfl⟩
      show ((if _ then _ else _ : Firing (Option Json)).play st _ _).result = _
      rw [if_pos hcount]
      rfl
    · refine ⟨.preDispatchDeferred tid hookName retryAfter.asMillis, ?_, rfl⟩
      show ((if _ then _ else _ : Firing (Option Json)).play st _ _).result = _
      rw [if_neg hcount]
      rfl

theorem preDispatch_result (t : Transition) (handlerId : String) (b : TokenBinding) (config : Option Json) :
    match dispatchConfig env t handlerId b config with
    | some final => ((preDispatch env draws t handlerId b config).play st s db).result = .ok final
    | none => ∃ err,
      ((preDispatch env draws t handlerId b config).play st s db).result = .error err ∧
        err.isPermanent = false := by
  unfold preDispatch dispatchConfig
  cases env.preDispatch with
  | none => rfl
  | some rt =>
    by_cases hempty : rt.chain.isEmpty
    · simp only [hempty, if_true]
      rfl
    · simp only [hempty, Bool.false_eq_true, if_false]
      generalize evaluateChain rt.chain (hookContext env rt t handlerId b config) = chain
      have hfollow := followChain_result st s (st.persist (.preDispatchEvaluated t.id (some t.name)
        chain.2 chain.1.kind (draws.now 0)) db).2 draws rt t.id config chain.1
      obtain ⟨outcome, trace⟩ := chain
      cases outcome <;> exact hfollow

/-- **A live effect**: notes, and then what its handler's reply makes of it. Where the handler is
not called the firing fails with an error that is not permanent. -/
theorem fireLive_spec (net : PetriNet) (t : Transition) (handlerId : String) (b : TokenBinding) :
    ∃ notes : List DomainEvent, (∀ e ∈ notes, e.isNote) ∧
      match effectReply env t handlerId b with
      | none => (fireLive env draws net t handlerId b).written st s db = notes ∧
        ∃ err, ((fireLive env draws net t handlerId b).play st s db).result = .error err ∧
          err.isPermanent = false
      | some reply => ∃ s' db', (fireLive env draws net t handlerId b).written st s db =
          notes ++ (settleEffect env draws net t handlerId b reply).written st s' db' ∧
        ((fireLive env draws net t handlerId b).play st s db).result =
          ((settleEffect env draws net t handlerId b reply).play st s' db').result := by
  unfold effectReply fireLive
  cases env.effectHandlers handlerId with
  | none => exact ⟨[], fun e he => absurd he List.not_mem_nil, rfl, _, rfl, rfl⟩
  | some handler =>
    cases hresolved : resolvedConfig env t with
    | error err =>
      refine ⟨[], fun e he => absurd he List.not_mem_nil, rfl, err, rfl, ?_⟩
      unfold resolvedConfig at hresolved
      split at hresolved
      · split at hresolved
        · cases hresolved
        · rw [← Except.error.inj hresolved]
          rfl
      · cases hresolved
    | ok resolved =>
      have hnotes : (preDispatch env draws t handlerId b resolved).Writes (·.isNote) :=
        preDispatch_writes handlerId resolved
      have hconfig := preDispatch_result st s db env draws t handlerId b resolved
      refine ⟨_, hnotes.written st s db, ?_⟩
      dsimp only
      cases hfinal : dispatchConfig env t handlerId b resolved with
      | none =>
        rw [hfinal] at hconfig
        obtain ⟨err, hresult, hperm⟩ := hconfig
        have hbind := play_bind_of_error st s db hresult (f := fun config =>
          settleEffect env draws net t handlerId b (handler (effectInput t b config)))
        exact ⟨hbind.1, err, hbind.2, hperm⟩
      | some final =>
        rw [hfinal] at hconfig
        exact ⟨_, _, play_bind_of_ok st s db hconfig⟩

/-! ## The other branches -/

theorem executeSkip_length (net : PetriNet) (t : Transition) (b : TokenBinding) :
    ((executeSkip draws net t b).written st s db).length ≤ 1 :=
  le_refl 1

theorem fireReplay_length (t : Transition) (handlerId : String) :
    ((fireReplay t handlerId).written st s db).length ≤ 1 := by
  have hstored : ∀ total stored,
      ((replayStored t handlerId s total stored).written st s db).length ≤ 1 := by
    intro total stored
    unfold replayStored
    dsimp only
    split
    · exact Nat.zero_le _
    · split
      · exact le_refl 1
      · exact Nat.zero_le _
    · next tokensConsumed _ _ =>
      split
      · cases tokensConsumed <;> exact le_refl 1
      · exact Nat.zero_le _
    · exact Nat.zero_le _
  exact hstored _ _

/-- A call that finds its net, its transition and a binding. -/
structure Bound (marking : Marking) (tid : TransitionId) (net : PetriNet) (t : Transition)
    (b : TokenBinding) : Prop where
  topology : env.topology = some net
  transition : net.getTransition tid = some t
  binding : findValidBinding env.executor t env.schemaRegistry (net.inputArcs tid) marking = some b

theorem Bound.fireTransition_eq {env : FiringEnv} {marking : Marking} {tid : TransitionId}
    {net : PetriNet} {t : Transition} {b : TokenBinding} (h : Bound env marking tid net t b) :
    fireTransition env draws marking tid = fireBound env draws net t b := by
  rw [fireTransition, h.topology, ofOption_some_bind, h.transition, ofOption_some_bind, h.binding,
    ofOption_some_bind]

/-! ## No firing creates a token from outside -/

section Writes

variable {env : FiringEnv} {draws : Draws} {net : PetriNet}
  {t : Transition} {b : TokenBinding}

def isFiringEvent : DomainEvent → Bool
  | .transitionFired .. | .transitionSkipped .. | .tokenBridgedOut .. | .tokenRemoved ..
  | .effectCompleted .. | .effectFailed .. => true
  | e => e.isNote

theorem isFiringEvent_of_isNote (e : DomainEvent) (h : e.isNote) : isFiringEvent e := by
  cases e <;> first | rfl | exact h

theorem emitBridgeOutEvents_writes (tid : TransitionId) (signalKey : Nat → Uuid)
    (producedByEvent : Option Nat) : ∀ (outs : List BridgeOutToken) (i : Nat),
    (emitBridgeOutEvents tid signalKey producedByEvent i outs).Writes (isFiringEvent ·)
  | [], _ => trivial
  | _ :: outs, i =>
    .write_bind rfl fun _ => emitBridgeOutEvents_writes tid signalKey producedByEvent outs (i + 1)

theorem recordFiring_writes {tid : TransitionId} {record : DomainEvent}
    {outs : List BridgeOutToken} (h : isFiringEvent record) :
    (recordFiring tid draws record outs).Writes (isFiringEvent ·) :=
  .write_bind h fun _ => .bind (emitBridgeOutEvents_writes ..) fun _ => .pure _

theorem removeBoundTokens_writes (reason : String) : ∀ (consumed : List (PlaceId × TokenId)),
    (removeBoundTokens reason consumed).Writes (isFiringEvent ·)
  | [] => trivial
  | _ :: consumed => .write_bind rfl fun _ => removeBoundTokens_writes reason consumed

theorem fireScript_writes : (fireScript env draws net t b).Writes (isFiringEvent ·) := by
  unfold fireScript
  split
  · unfold consumeBoundTokensOnPermanentFailure
    split
    · exact .write_bind rfl fun _ => .bind (removeBoundTokens_writes ..) fun _ => trivial
    · trivial
  · exact recordFiring_writes rfl

theorem settleEffect_writes (handlerId : String) (reply : Except EffectError EffectOutput) :
    (settleEffect env draws net t handlerId b reply).Writes (isFiringEvent ·) := by
  unfold settleEffect
  split
  · split
    · exact recordFiring_writes rfl
    · exact .write_bind rfl fun _ => trivial
  · split
    · split
      · exact recordFiring_writes rfl
      · trivial
    · exact .write_bind rfl fun _ => trivial

theorem fireReplay_writes (handlerId : String) : (fireReplay t handlerId).Writes (isFiringEvent ·) := by
  refine fun ps s => ?_
  show (replayStored t handlerId s _ _).Writes _
  unfold replayStored
  dsimp only
  split
  · trivial
  · split
    · exact ⟨rfl, fun _ => trivial⟩
    · trivial
  · split
    · refine ⟨rfl, fun event => ?_⟩
      show (if _ then pure event else .fail _ : Firing PersistedEvent).Writes _
      split <;> trivial
    · trivial
  · trivial

/-- **A firing appends nothing but firing events**: no token is created from outside. -/
theorem fireTransition_writes (marking : Marking) (tid : TransitionId) :
    (fireTransition env draws marking tid).Writes (isFiringEvent ·) := by
  refine (Writes.ofOption ..).bind fun net => (Writes.ofOption ..).bind fun t =>
    (Writes.ofOption ..).bind fun b => ?_
  unfold fireBound
  split
  · exact Writes.write rfl
  · split
    · exact fireScript_writes
    · split
      · exact (Writes.ofOption ..).bind fun _ => (Writes.ofExcept ..).bind fun _ =>
          ((preDispatch_writes ..).mono isFiringEvent_of_isNote).bind fun _ => settleEffect_writes ..
      · exact fireReplay_writes _

end Writes

end Firing

end Mekhan

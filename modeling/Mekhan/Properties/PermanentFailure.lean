import Mekhan.Application.Analysis
import Mekhan.Application.FiringTrace

/-!
# Permanent failures and the marking

The evaluation loop re-fires a transition after an error that is not permanent and fails the net after
one that is. So a permanent error must have consumed the bound tokens, and any other error must have
left the marking alone.
-/

namespace Mekhan

open Infra Journal Firing

/-! ## Routing to the error port -/

/-- **The error port refuses an error token for good exactly when it is a batch port or not
wired.** -/
theorem routeError_permanent_iff {env : FiringEnv} {draws : Draws} {net : PetriNet} {t : Transition}
    {handlerId : String} {b : TokenBinding} {e : EffectError} {port : Port}
    (hport : t.outputPort "_error" = some port) :
    (∃ err, routeError env draws net t handlerId b e = .error err ∧ err.isPermanent) ↔
      ¬ (port.cardinality = .single ∧ (net.outputArcForPort t.id "_error").isSome) := by
  have hroute : routeError env draws net t handlerId b e =
      (routeArgs env draws net t b none none).routePort ⟨[], []⟩
        ("_error", errorData env t handlerId b e) := by
    show (_ >>= fun acc => Except.ok acc) = _
    cases (routeArgs env draws net t b none none).routePort ⟨[], []⟩
      ("_error", errorData env t handlerId b e) <;> rfl
  have htransition : (routeArgs env draws net t b none none).transition = t := rfl
  have hnet : (routeArgs env draws net t b none none).net = net := rfl
  rw [hroute, RouteArgs.routePort, htransition, hport]
  dsimp only
  cases hcard : port.cardinality with
  | batch =>
    have hvalues : RouteArgs.elementValues "_error" port (errorData env t handlerId b e) =
        .error (.batchOutputNotArray "_error") := by
      unfold RouteArgs.elementValues errorData
      rw [hcard]
    rw [hvalues]
    simp [ServiceError.isPermanent]
  | single =>
    have hvalues : RouteArgs.elementValues "_error" port (errorData env t handlerId b e) =
        .ok [errorData env t handlerId b e] := by
      unfold RouteArgs.elementValues
      rw [hcard]
    rw [hvalues]
    dsimp only
    -- The schema check is skipped; what is left are the arc and its place.
    rw [RouteArgs.routeValues, RouteArgs.routeValue, RouteArgs.checkSchema, if_pos rfl]
    cases harc : net.outputArcForPort t.id "_error" with
    | none =>
      refine iff_of_true ⟨.noArcForPort "_error", ?_, rfl⟩ (by simp)
      simp [hnet, htransition, harc, bind, Except.bind]
    | some arc =>
      refine iff_of_false ?_ (by simp)
      rintro ⟨err, herr, hperm⟩
      simp only [hnet, htransition, harc, bind, Except.bind] at herr
      split at herr
      · next hplace =>
        rw [← Except.error.inj herr, (RouteArgs.routeToPlace_error hplace).2] at hperm
        cases hperm
      · exact absurd herr (by simp [RouteArgs.routeValues])

/-! ## When a failure agrees with the marking -/

/-- The marking after a failed call: the bound tokens that were to be consumed are gone if and only
if the error is permanent, and without a permanent error nothing has changed. -/
def FailureAgrees (marking : Marking) (bound : Option TokenBinding) (err : ServiceError)
    (after : Marking) : Prop :=
  (∀ b, bound = some b → b.consumedTokens ≠ [] →
    (after = marking.removeTokens b.consumedTokens ↔ err.isPermanent)) ∧
  (err.isPermanent = false → after = marking)

section

variable {marking : Marking} {b : TokenBinding} {err : ServiceError}

theorem failureAgrees_unchanged_iff (hheld : marking.Holds b.consumedTokens) :
    FailureAgrees marking (some b) err marking ↔ b.consumedTokens = [] ∨ err.isPermanent = false := by
  have hne : b.consumedTokens ≠ [] → marking ≠ marking.removeTokens b.consumedTokens := by
    intro hcons
    obtain ⟨c, rest, hc⟩ := List.exists_cons_of_ne_nil hcons
    rw [hc]
    exact (Marking.removeTokens_ne rest (hheld c (hc ▸ List.mem_cons_self ..))).symm
  constructor
  · rintro ⟨hiff, -⟩
    by_cases hcons : b.consumedTokens = []
    · exact Or.inl hcons
    · refine Or.inr (Bool.eq_false_iff.mpr fun hperm => ?_)
      exact hne hcons ((hiff b rfl hcons).mpr hperm)
  · intro h
    refine ⟨fun b' hb' hcons => ?_, fun _ => rfl⟩
    cases hb'
    have hperm := h.resolve_left hcons
    exact iff_of_false (hne hcons) (by simp [hperm])

/-- An error that consumed the bound tokens agrees unless it is not permanent and there were any. -/
theorem failureAgrees_consumed_iff :
    FailureAgrees marking (some b) err (marking.removeTokens b.consumedTokens) ↔
      b.consumedTokens = [] ∨ err.isPermanent := by
  constructor
  · rintro ⟨hiff, -⟩
    by_cases hcons : b.consumedTokens = []
    · exact Or.inl hcons
    · exact Or.inr ((hiff b rfl hcons).mp rfl)
  · rintro (hcons | hperm)
    · refine ⟨fun b' hb' hcons' => ?_, fun _ => ?_⟩
      · cases hb'
        exact absurd hcons hcons'
      · rw [hcons]
        rfl
    · refine ⟨fun b' hb' _ => ?_, fun hfalse => ?_⟩
      · cases hb'
        exact iff_of_true rfl hperm
      · rw [hperm] at hfalse
        cases hfalse

end

section

variable (env : FiringEnv) (draws : Draws) (net : PetriNet)

/-- Nothing is consumed anyway, the transition is skipped or pure, or its handler is not called; what
the handler returns is not refused for want of a bridge address; and if it fails, the error port the
transition declares is wired and takes a single token. -/
def Settles (t : Transition) (b : TokenBinding) : Prop :=
  b.consumedTokens = [] ∨ skips env t.id ∨
    match t.effectHandlerId with
    | none => True
    | some handlerId =>
      match effectReply env t handlerId b with
      | none => True
      | some (.ok output) => ∀ e, routeOutput env draws net t b output = .error e → e.isPermanent
      | some (.error _) => ∀ port, t.outputPort "_error" = some port →
          port.cardinality = .single ∧ (net.outputArcForPort t.id "_error").isSome

end

/-- Every failure of a program agrees with the marking its events project to. -/
def FailuresAgree {σ : Type} (st : Store σ DomainEvent PersistedEvent) (s : FiringState) (db : σ)
    (marking : Marking) (bound : Option TokenBinding) (p : Firing PersistedEvent) : Prop :=
  ∀ err, (p.play st s db).result = .error err → (∀ e, err ≠ .eventStore e) →
    FailureAgrees marking bound err (projectEvents marking (p.written st s db))

section

variable {σ : Type} (st : Store σ DomainEvent PersistedEvent) (s : FiringState) (db : σ)
  {env : FiringEnv} {draws : Draws} {net : PetriNet} {t : Transition} {b : TokenBinding}
  {marking : Marking}

variable {p : Firing PersistedEvent} {bound : Option TokenBinding}

theorem failuresAgree_of_ok {event : PersistedEvent} (h : (p.play st s db).result = .ok event) :
    FailuresAgree st s db marking bound p := by
  intro err herr
  rw [h] at herr
  cases herr

variable {handlerId : String} {err : ServiceError}

theorem failuresAgree_iff_of_error (h : (p.play st s db).result = .error err)
    (hstore : ∀ e, err ≠ .eventStore e) : FailuresAgree st s db marking bound p ↔
      FailureAgrees marking bound err (projectEvents marking (p.written st s db)) := by
  constructor
  · intro hall
    exact hall err h hstore
  · intro hagrees err' herr' _
    rw [h] at herr'
    rw [← Except.error.inj herr']
    exact hagrees

theorem projectEvents_removed (reason : String) (consumed : List (PlaceId × TokenId)) (m : Marking) :
    projectEvents m (consumed.map fun c => .tokenRemoved c.2 c.1 (some reason) none) =
      m.removeTokens consumed := by
  induction consumed generalizing m with
  | nil => rfl
  | cons c rest ih => exact ih _

theorem fireScript_agrees (hheld : marking.Holds b.consumedTokens) :
    FailuresAgree st s db marking (some b) (fireScript env draws net t b) := by
  unfold fireScript
  cases routeScript env draws net t b with
  | ok routed =>
    obtain ⟨_, event, -, hresult⟩ := recordFiring_spec st s db t.id draws
      (.transitionFired t.id (some t.name) b.consumedTokens routed.produced b.readTokens
        t.processStepStarted t.processStepCompleted) routed.bridgeOut
    exact failuresAgree_of_ok st s db hresult
  | error e =>
    obtain ⟨reason, hwritten, hresult⟩ := consume_spec st s db b.consumedTokens e
    intro err herr _
    dsimp only at herr
    rw [hresult] at herr
    cases herr
    rw [hwritten]
    cases hperm : e.isPermanent with
    | true =>
      have hafter : projectEvents marking (.errorOccurred reason ::
          b.consumedTokens.map fun c => .tokenRemoved c.2 c.1 (some reason) none) =
          marking.removeTokens b.consumedTokens := projectEvents_removed ..
      rw [if_pos rfl, hafter]
      exact failureAgrees_consumed_iff.mpr (Or.inr hperm)
    | false => exact (failureAgrees_unchanged_iff hheld).mpr (Or.inr hperm)

theorem failuresAgree_effectFailed_iff {message : String} {retryable : Bool}
    (hstore : ∀ e, err ≠ .eventStore e) : FailuresAgree st s db marking (some b)
        (do let _ ← write (effectFailedEvent t handlerId b [] message retryable); .fail err) ↔
      b.consumedTokens = [] ∨ err.isPermanent := by
  rw [failuresAgree_iff_of_error st s db rfl hstore, written_write_bind]
  exact failureAgrees_consumed_iff

theorem ne_eventStore_of_isRouting (h : err.isRouting) (e : EventStoreError) : err ≠ .eventStore e := by
  rintro rfl
  exact absurd h (by simp [ServiceError.isRouting])

theorem settleOutput_agrees_iff {output : EffectOutput} : FailuresAgree st s db marking (some b)
        (settleEffect env draws net t handlerId b (.ok output)) ↔ b.consumedTokens = [] ∨
        ∀ e, routeOutput env draws net t b output = .error e → e.isPermanent := by
  unfold settleEffect
  dsimp only
  cases hroute : routeOutput env draws net t b output with
  | ok routed =>
    obtain ⟨_, event, -, hresult⟩ := recordFiring_spec st s db t.id draws
      (.effectCompleted t.id (some t.name) b.consumedTokens routed.produced handlerId
        output.result b.readTokens t.processStepStarted t.processStepCompleted) routed.bridgeOut
    exact iff_of_true (failuresAgree_of_ok st s db hresult) (Or.inr nofun)
  | error e =>
    -- The handler has run: the tokens are gone, whatever the routing error is.
    dsimp only
    rw [failuresAgree_effectFailed_iff st s db
      (ne_eventStore_of_isRouting (routeOutputTokens_error hroute))]
    simp only [Except.error.injEq, forall_eq']

theorem settleError_agrees_iff {e : EffectError} (hheld : marking.Holds b.consumedTokens) :
    FailuresAgree st s db marking (some b) (settleEffect env draws net t handlerId b (.error e)) ↔
      b.consumedTokens = [] ∨ ∀ port, t.outputPort "_error" = some port →
        port.cardinality = .single ∧ (net.outputArcForPort t.id "_error").isSome := by
  unfold settleEffect
  dsimp only
  cases hport : t.outputPort "_error" with
  | none =>
    simp only [Option.isSome_none, Bool.false_eq_true, if_false]
    have hstore : ∀ e', ServiceError.effectFailed t.id handlerId e.display e.isRetryable ≠
        .eventStore e' := nofun
    rw [failuresAgree_effectFailed_iff st s db hstore]
    exact iff_of_true (Or.inr rfl) (Or.inr nofun)
  | some port =>
    have hperm : (∃ err, routeError env draws net t handlerId b e = .error err ∧
        err.isPermanent) ↔ _ := routeError_permanent_iff hport
    simp only [Option.isSome_some, if_true, Option.some.injEq, forall_eq']
    cases hroute : routeError env draws net t handlerId b e with
    | ok routed =>
      obtain ⟨_, event, -, hresult⟩ := recordFiring_spec st s db t.id draws
        (effectFailedEvent t handlerId b routed.produced e.display e.isRetryable)
        routed.bridgeOut
      refine iff_of_true (failuresAgree_of_ok st s db hresult) (Or.inr ?_)
      by_contra hnot
      obtain ⟨err, herr, -⟩ := hperm.mpr hnot
      rw [hroute] at herr
      cases herr
    | error err =>
      -- Nothing was recorded: the tokens are still there.
      dsimp only
      rw [failuresAgree_iff_of_error st s db rfl
        (ne_eventStore_of_isRouting (routeOutputTokens_error hroute))]
      refine (failureAgrees_unchanged_iff hheld).trans (or_congr_right ?_)
      rw [hroute] at hperm
      simp only [Except.error.injEq, exists_eq_left'] at hperm
      rw [← not_iff_not, Bool.not_eq_false]
      exact hperm

theorem settleEffect_agrees_iff (hskip : skips env t.id = false)
    (heffect : t.effectHandlerId = some handlerId) {reply : Except EffectError EffectOutput}
    (hreply : effectReply env t handlerId b = some reply) (hheld : marking.Holds b.consumedTokens) :
    FailuresAgree st s db marking (some b) (settleEffect env draws net t handlerId b reply) ↔
      Settles env draws net t b := by
  unfold Settles
  simp only [hskip, heffect, hreply, Bool.false_eq_true, false_or]
  cases reply with
  | ok output => exact settleOutput_agrees_iff st s db
  | error e => exact settleError_agrees_iff st s db hheld

theorem fireBound_agrees_iff (hlive : env.executionMode = .live) (hheld : marking.Holds b.consumedTokens) :
    FailuresAgree st s db marking (some b) (fireBound env draws net t b) ↔ Settles env draws net t b := by
  unfold fireBound
  cases hskip : skips env t.id with
  | true =>
    rw [if_pos rfl]
    exact iff_of_true (failuresAgree_of_ok st s db rfl) (Or.inr (Or.inl hskip))
  | false =>
    rw [if_neg (by simp)]
    cases heffect : t.effectHandlerId with
    | none =>
      refine iff_of_true (fireScript_agrees st s db hheld) (Or.inr (Or.inr ?_))
      rw [heffect]
      trivial
    | some handlerId =>
      rw [hlive]
      obtain ⟨notes, hnotes, hspec⟩ := fireLive_spec st s db env draws net t handlerId b
      dsimp only
      cases hreply : effectReply env t handlerId b with
      | none =>
        rw [hreply] at hspec
        obtain ⟨hwritten, err, hresult, hperm⟩ := hspec
        refine iff_of_true (fun err' herr' _ => ?_) (Or.inr (Or.inr ?_))
        · rw [hresult] at herr'
          rw [hwritten, projectEvents_notes hnotes, ← Except.error.inj herr']
          exact (failureAgrees_unchanged_iff hheld).mpr (Or.inr hperm)
        · simp [heffect, hreply]
      | some reply =>
        rw [hreply] at hspec
        obtain ⟨s', db', hwritten, hresult⟩ := hspec
        rw [← settleEffect_agrees_iff st s' db' hskip heffect hreply hheld]
        unfold FailuresAgree
        rw [hresult, hwritten, projectEvents_append, projectEvents_notes hnotes]

end

/-! ## Calls -/

/-- A live call on a transition of a net that the topology check accepts. -/
structure LiveCall (env : FiringEnv) (tid : TransitionId) (net : PetriNet) (t : Transition) :
    Prop where
  topology : env.topology = some net
  transition : net.getTransition tid = some t
  accepted : (validateTopology net).isValid
  live : env.executionMode = .live

/-- Whenever a live call returns an error that is not the event store's, at whichever append the
store refuses, the error agrees with the marking after it. -/
def PermanentFailureAgrees {σ : Type} (st : Store σ DomainEvent PersistedEvent) (s : FiringState)
    (db : σ) (refusal : EventStoreError) (env : FiringEnv) (draws : Draws) (marking : Marking)
    (tid : TransitionId) : Prop :=
  ∀ net t, LiveCall env tid net t → ∀ n err,
    ((fireTransition env draws marking tid).playUntil st (.eventStore refusal) n s db).result =
      .error err →
    (∀ e, err ≠ .eventStore e) →
    FailureAgrees marking
      (findValidBinding env.executor t env.schemaRegistry (net.inputArcs tid) marking) err
      (projectEvents marking
        ((fireTransition env draws marking tid).writtenUntil st (.eventStore refusal) n s db))

theorem forall_until_iff_failuresAgree {σ : Type} (st : Store σ DomainEvent PersistedEvent)
    (s : FiringState) (db : σ) (refusal : EventStoreError) (marking : Marking)
    (bound : Option TokenBinding) (p : Firing PersistedEvent) :
    (∀ n err, (p.playUntil st (.eventStore refusal) n s db).result = .error err → (∀ e, err ≠ .eventStore e) →
      FailureAgrees marking bound err
        (projectEvents marking (p.writtenUntil st (.eventStore refusal) n s db))) ↔
    FailuresAgree st s db marking bound p := by
  constructor
  · intro hall err herr hstore
    have hend := hall (p.play st s db).appended.length err
    rw [(playUntil_eq st _ p _ s db).2, if_neg (lt_irrefl _), writtenUntil_eq, written,
      List.take_of_length_le (by simp)] at hend
    exact hend herr hstore
  · intro hall n err herr hstore
    rw [(playUntil_eq st _ p n s db).2] at herr
    split at herr
    · exact absurd (Except.error.inj herr).symm (hstore refusal)
    · next hlt =>
      rw [writtenUntil_eq, written, List.take_of_length_le (by simpa using hlt)]
      exact hall err herr hstore

/-- **Permanent failures agree with the marking exactly when the firing `Settles`**: for every
accepted net, marking and binding, every outcome of scripts, handlers, hooks and secrets, and every
store. -/
theorem permanentFailure_agrees_iff {σ : Type} (st : Store σ DomainEvent PersistedEvent)
    (s : FiringState) (db : σ) (refusal : EventStoreError) (env : FiringEnv) (draws : Draws)
    (marking : Marking) (tid : TransitionId) : PermanentFailureAgrees st s db refusal env draws marking tid ↔
      ∀ net t, LiveCall env tid net t → ∀ b,
        findValidBinding env.executor t env.schemaRegistry (net.inputArcs tid) marking = some b →
        Settles env draws net t b := by
  refine forall_congr' fun net => forall_congr' fun t => forall_congr' fun hcall => ?_
  rw [forall_until_iff_failuresAgree]
  cases hbinding : findValidBinding env.executor t env.schemaRegistry (net.inputArcs tid) marking with
  | none =>
    refine iff_of_true (fun err herr _ => ?_) fun b hb => absurd hb (Option.some_ne_none b).symm
    have hfire : fireTransition env draws marking tid = .fail (.guardNotSatisfied tid) := by
      rw [fireTransition, hcall.topology, ofOption_some_bind, hcall.transition, ofOption_some_bind,
        hbinding, ofOption_none_bind]
    rw [hfire] at herr ⊢
    rw [← Except.error.inj herr]
    exact ⟨fun b hb => absurd hb (Option.some_ne_none b).symm, fun _ => rfl⟩
  | some b =>
    have hb : Bound env marking tid net t b := ⟨hcall.topology, hcall.transition, hbinding⟩
    rw [hb.fireTransition_eq, fireBound_agrees_iff st s db hcall.live
      (holds_of_findValidBinding hbinding)]
    simp only [Option.some.injEq, forall_eq']

/-! ## An error port that is not wired -/

/-- One effect fed from `inbox`, with an error port that no arc leaves. -/
def callNet : PetriNet :=
  ((PetriNet.new.addPlace (.internal "inbox")).addTransition
    { Transition.new "call" "" with
      inputPorts := [.new "in"], outputPorts := [.new "_error"], effectHandlerId := some "http" })
    |>.addArc (.input ⟨0⟩ ⟨"inbox"⟩ ⟨"call"⟩ "in")

def callEnv : FiringEnv :=
  { FiringEnv.plain callNet ⟨fun _ _ => .ok true, fun _ _ => none, fun _ _ => .ok ∅⟩ with
    effectHandlers := fun _ => some fun _ => .error (.fatal "refused") }

/-- **The call fails for good and consumes nothing**, so the transition stays enabled. -/
theorem unwiredErrorPort_disagrees : ¬ PermanentFailureAgrees logStore ⟨.new, 0⟩ [] .timeout callEnv .plain
      (Marking.new.addToken ⟨"inbox"⟩ (.new ⟨0⟩ ⟨0⟩ .unit)) ⟨"call"⟩ := by
  intro h
  have hcall : LiveCall callEnv ⟨"call"⟩ callNet _ := ⟨rfl, rfl, by decide, rfl⟩
  obtain ⟨hiff, -⟩ := h _ _ hcall 0 (.noArcForPort "_error") rfl nofun
  have hremoved := (hiff _ rfl (by decide)).mpr rfl
  revert hremoved
  decide

end Mekhan

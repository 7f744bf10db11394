import Mekhan.Application.FiringTrace

/-!
# Firings and a store that fails

A firing appends several events, one after the other, and each append may be refused. The claim one
would like to make is that the log is then as it was, or holds the whole firing.
-/

namespace Mekhan

open Infra Journal Firing

/-! ## All or nothing -/

/-- The log leaves the marking as it is, or records the consumption of the bound tokens together with
every routed output. -/
def AllOrNothing (m : Marking) (consumed : List (PlaceId × TokenId)) (routed : Routed)
    (log : List DomainEvent) : Prop :=
  projectEvents m log = m ∨
    (log.flatMap DomainEvent.consumption = consumed ∧
      log.flatMap DomainEvent.production = routed.produced ∧
      log.flatMap DomainEvent.bridging = routed.bridgeOut.map BridgeOutToken.sent)

/-- `AllOrNothing` at every append of a call that could be refused. -/
def AllOrNothingAtEach (m : Marking) (consumed : List (PlaceId × TokenId)) (routed : Routed)
    (log : List DomainEvent) : Prop :=
  ∀ n < log.length, AllOrNothing m consumed routed (log.take n)

section

variable {m : Marking} {consumed : List (PlaceId × TokenId)} {routed : Routed}

theorem allOrNothing_nil : AllOrNothing m consumed routed [] := Or.inl rfl

variable {log notes : List DomainEvent}

theorem allOrNothing_notes (h : ∀ e ∈ notes, e.isNote) :
    AllOrNothing m consumed routed (notes ++ log) ↔ AllOrNothing m consumed routed log := by
  have hflat : ∀ {β : Type} (f : DomainEvent → List β), (∀ e ∈ notes, f e = []) →
      (notes ++ log).flatMap f = log.flatMap f := by
    intro β f hf
    rw [List.flatMap_append, List.flatMap_eq_nil_iff.mpr hf, List.nil_append]
  unfold AllOrNothing
  rw [projectEvents_append, projectEvents_notes h, hflat _ fun e he => (DomainEvent.isNote_spec (h e he)).1,
    hflat _ fun e he => (DomainEvent.isNote_spec (h e he)).2.1,
    hflat _ fun e he => (DomainEvent.isNote_spec (h e he)).2.2.1]

theorem forall_take_notes (h : ∀ e ∈ notes, e.isNote) : AllOrNothingAtEach m consumed routed (notes ++ log) ↔
      AllOrNothingAtEach m consumed routed log := by
  constructor
  · intro hall n hn
    have := hall (notes.length + n) (by rw [List.length_append]; omega)
    rw [List.take_length_add_append] at this
    exact (allOrNothing_notes h).mp this
  · intro hall n hn
    by_cases hle : n ≤ notes.length
    · rw [List.take_append_of_le_length hle]
      exact Or.inl (projectEvents_notes (fun e he => h e (List.mem_of_mem_take he)) m)
    · obtain ⟨k, rfl⟩ := Nat.exists_eq_add_of_lt (Nat.lt_of_not_le hle)
      rw [List.length_append] at hn
      rw [Nat.add_assoc, List.take_length_add_append]
      exact (allOrNothing_notes h).mpr (hall (k + 1) (by omega))

theorem forall_take_of_length_le_one (h : log.length ≤ 1) : AllOrNothingAtEach m consumed routed log := by
  intro n hn
  obtain rfl : n = 0 := by omega
  exact allOrNothing_nil

theorem forall_take_nil : AllOrNothingAtEach m consumed routed [] :=
  forall_take_of_length_le_one (Nat.zero_le 1)

theorem projectEvents_bridgedOutEvents {tid : TransitionId} {signalKey : Nat → Uuid}
    {producedByEvent : Option Nat} {i : Nat} {outs : List BridgeOutToken} (k : Nat) (m : Marking) :
    projectEvents m ((bridgedOutEvents tid signalKey producedByEvent i outs).take k) = m := by
  induction outs generalizing i k with
  | nil => simp [bridgedOutEvents, projectEvents]
  | cons out outs ih =>
    cases k with
    | zero => rfl
    | succ k => exact ih k

/-- **A recorded firing is torn** as soon as a token is sent over a bridge and something moves in the
marking besides. -/
theorem forall_take_record {record : DomainEvent}
    (hrecord : record.Records consumed routed.produced) {tid : TransitionId}
    {signalKey : Nat → Uuid} {producedByEvent : Option Nat} : AllOrNothingAtEach m consumed routed
        (record :: bridgedOutEvents tid signalKey producedByEvent 0 routed.bridgeOut) ↔
      routed.bridgeOut = [] ∨ (m.removeTokens consumed).addTokens routed.produced = m := by
  constructor
  · intro hall
    rcases hbridge : routed.bridgeOut with - | ⟨out, outs⟩
    · exact Or.inl rfl
    · -- The append right after the record is refused.
      have hone := hall 1 (by simp [bridgedOutEvents, hbridge])
      rcases hone with hsame | ⟨-, -, hsent⟩
      · refine Or.inr ?_
        rw [← hrecord.apply]
        exact hsame
      · simp [hrecord.bridging, hbridge] at hsent
  · rintro (hnil | hsame)
    · refine forall_take_of_length_le_one ?_
      simp [hnil, bridgedOutEvents]
    · intro n _
      refine Or.inl ?_
      cases n with
      | zero => rfl
      | succ n =>
        show projectEvents (applyEventToMarking m record) _ = m
        rw [hrecord.apply, hsame]
        exact projectEvents_bridgedOutEvents n m

/-- **Dropping bound tokens one by one is torn** as soon as there are two of them. -/
theorem forall_take_drop {reason message : String} (hheld : m.Holds consumed) :
    AllOrNothingAtEach m consumed routed
        (.errorOccurred message :: consumed.map (fun c => .tokenRemoved c.2 c.1 (some reason) none)) ↔
      consumed.length ≤ 1 := by
  constructor
  · intro hall
    rcases hconsumed : consumed with - | ⟨c, - | ⟨d, rest⟩⟩
    · exact Nat.zero_le 1
    · exact le_refl 1
    · -- The removal of the second token is refused.
      exfalso
      have hmem : c ∈ consumed := by rw [hconsumed]; exact List.mem_cons_self ..
      rcases hall 2 (by simp [hconsumed]) with hsame | ⟨hrest, -⟩
      · rw [hconsumed] at hsame
        exact Marking.removeTokens_ne [] (hheld c hmem) hsame
      · simp [hconsumed, DomainEvent.consumption] at hrest
  · intro hle n hn
    rw [List.length_cons, List.length_map] at hn
    -- At most the message is in the log.
    refine Or.inl ?_
    obtain rfl | rfl : n = 0 ∨ n = 1 := by omega
    · rfl
    · rfl

end

/-! ## What a firing routes -/

section

variable (env : FiringEnv) (draws : Draws) (net : PetriNet) (t : Transition) (b : TokenBinding)

/-- The outputs of a firing that `route_output_tokens` has routed, none where the call does not get
as far or a stored effect is replayed. -/
def routedOutputs : Option Routed :=
  if skips env t.id then none
  else
    match t.effectHandlerId, env.executionMode with
    | none, _ => (routeScript env draws net t b).toOption
    | some _, .replay => none
    | some handlerId, .live =>
      match effectReply env t handlerId b with
      | none => none
      | some (.ok output) => (routeOutput env draws net t b output).toOption
      | some (.error e) =>
        if (t.outputPort "_error").isSome then
          (routeError env draws net t handlerId b e).toOption
        else none

/-- The error a pure transition fails with after it is bound. -/
def scriptFailure : Option ServiceError :=
  if skips env t.id then none
  else
    match t.effectHandlerId, routeScript env draws net t b with
    | none, .error e => some e
    | _, _ => none

/-- No token is sent over a bridge unless the marking stays as it is, and a pure transition that
fails permanently has bound at most one token. -/
def Untorn (m : Marking) : Prop :=
  (∀ routed, routedOutputs env draws net t b = some routed →
    routed.bridgeOut = [] ∨
      (m.removeTokens b.consumedTokens).addTokens routed.produced = m) ∧
  (∀ e, scriptFailure env draws net t b = some e → e.isPermanent →
    b.consumedTokens.length ≤ 1)

end

/-! ## Firings -/

section

variable {σ : Type} (st : Store σ DomainEvent PersistedEvent) (s : FiringState) (db : σ)
  {env : FiringEnv} {draws : Draws} {net : PetriNet} {t : Transition} {b : TokenBinding}
  {m : Marking}

theorem recordFiring_untorn_iff {record : DomainEvent} {routed : Routed}
    (hrecord : record.Records b.consumedTokens routed.produced) : AllOrNothingAtEach m b.consumedTokens routed
        ((recordFiring t.id draws record routed.bridgeOut).written st s db) ↔ routed.bridgeOut = [] ∨
        (m.removeTokens b.consumedTokens).addTokens routed.produced = m := by
  obtain ⟨seq, _, hwritten, -⟩ := recordFiring_spec st s db t.id draws record routed.bridgeOut
  rw [hwritten]
  exact forall_take_record hrecord

theorem fireScript_untorn_iff (hskip : skips env t.id = false) (hpure : t.effectHandlerId = none)
    (hheld : m.Holds b.consumedTokens) :
    AllOrNothingAtEach m b.consumedTokens ((routedOutputs env draws net t b).getD ⟨[], []⟩)
        ((fireScript env draws net t b).written st s db) ↔ Untorn env draws net t b m := by
  unfold fireScript Untorn routedOutputs scriptFailure
  simp only [hskip, hpure, Bool.false_eq_true, if_false]
  cases routeScript env draws net t b with
  | ok routed =>
    have hrecord : (DomainEvent.transitionFired t.id (some t.name) b.consumedTokens routed.produced
        b.readTokens t.processStepStarted t.processStepCompleted).Records b.consumedTokens
        routed.produced := ⟨rfl, rfl, rfl, fun _ => rfl⟩
    simpa [Except.toOption] using recordFiring_untorn_iff st s db hrecord
  | error e =>
    obtain ⟨reason, hwritten, -⟩ := consume_spec st s db b.consumedTokens e
    dsimp only
    rw [hwritten]
    cases hperm : e.isPermanent with
    | true => simpa [Except.toOption, hperm] using forall_take_drop hheld
    | false =>
      simpa [Except.toOption, hperm] using forall_take_nil

theorem settleEffect_untorn_iff {handlerId : String} (hskip : skips env t.id = false)
    (heffect : t.effectHandlerId = some handlerId) (hlive : env.executionMode = .live)
    {reply : Except EffectError EffectOutput} (hreply : effectReply env t handlerId b = some reply) :
    AllOrNothingAtEach m b.consumedTokens ((routedOutputs env draws net t b).getD ⟨[], []⟩)
        ((settleEffect env draws net t handlerId b reply).written st s db) ↔ Untorn env draws net t b m := by
  have hone : ∀ {e : DomainEvent} {x : ServiceError} {routed : Routed},
      AllOrNothingAtEach m b.consumedTokens routed
        ((write e >>= fun _ => (.fail x : Firing PersistedEvent)).written st s db) := by
    intro e x routed
    rw [written_write_bind]
    exact forall_take_of_length_le_one (le_refl 1)
  unfold settleEffect Untorn routedOutputs scriptFailure
  simp only [hskip, heffect, hlive, hreply, Bool.false_eq_true, if_false]
  cases reply with
  | ok output =>
    dsimp only
    cases routeOutput env draws net t b output with
    | ok routed =>
      have hrecord : (DomainEvent.effectCompleted t.id (some t.name) b.consumedTokens routed.produced
          handlerId output.result b.readTokens t.processStepStarted
          t.processStepCompleted).Records b.consumedTokens routed.produced :=
        ⟨rfl, rfl, rfl, fun _ => rfl⟩
      simpa [Except.toOption] using recordFiring_untorn_iff st s db hrecord
    | error e => simpa [Except.toOption] using hone
  | error e =>
    dsimp only
    by_cases hport : (t.outputPort "_error").isSome
    · simp only [hport, if_true]
      cases routeError env draws net t handlerId b e with
      | ok routed =>
        have hrecord : (effectFailedEvent t handlerId b routed.produced e.display
            e.isRetryable).Records b.consumedTokens routed.produced :=
          ⟨rfl, rfl, rfl, fun _ => rfl⟩
        simpa [Except.toOption] using recordFiring_untorn_iff st s db hrecord
      | error e' =>
        simpa [Except.toOption] using forall_take_nil
    · simp only [hport]
      simpa [Except.toOption] using hone

theorem untorn_of_none (hrouted : routedOutputs env draws net t b = none)
    (hfailure : scriptFailure env draws net t b = none) : Untorn env draws net t b m := by
  constructor
  · intro routed h
    rw [hrouted] at h
    cases h
  · intro e h
    rw [hfailure] at h
    cases h

theorem fireBound_untorn_iff (hheld : m.Holds b.consumedTokens) :
    AllOrNothingAtEach m b.consumedTokens ((routedOutputs env draws net t b).getD ⟨[], []⟩)
        ((fireBound env draws net t b).written st s db) ↔ Untorn env draws net t b m := by
  unfold fireBound
  cases hskip : skips env t.id with
  | true =>
    rw [if_pos rfl]
    refine iff_of_true (forall_take_of_length_le_one (executeSkip_length st s db draws net t b))
      (untorn_of_none ?_ ?_)
    · rw [routedOutputs, if_pos hskip]
    · rw [scriptFailure, if_pos hskip]
  | false =>
    rw [if_neg (by simp)]
    cases heffect : t.effectHandlerId with
    | none => exact fireScript_untorn_iff st s db hskip heffect hheld
    | some handlerId =>
      have hfailure : scriptFailure env draws net t b = none := by
        simp [scriptFailure, hskip, heffect]
      cases hmode : env.executionMode with
      | replay =>
        refine iff_of_true (forall_take_of_length_le_one (fireReplay_length st s db t handlerId))
          (untorn_of_none ?_ hfailure)
        simp [routedOutputs, hskip, heffect, hmode]
      | live =>
        obtain ⟨notes, hnotes, hlive⟩ := fireLive_spec st s db env draws net t handlerId b
        dsimp only
        cases hreply : effectReply env t handlerId b with
        | none =>
          rw [hreply] at hlive
          rw [hlive.1, ← List.append_nil notes]
          refine iff_of_true ((forall_take_notes hnotes).mpr forall_take_nil)
            (untorn_of_none ?_ hfailure)
          simp [routedOutputs, hskip, heffect, hmode, hreply]
        | some reply =>
          rw [hreply] at hlive
          obtain ⟨s', db', hwritten, -⟩ := hlive
          rw [hwritten, forall_take_notes hnotes]
          exact settleEffect_untorn_iff st s' db' hskip heffect hmode hreply

end

/-- At every append that a call could find refused, the log is as it was for the marking, or holds
the consumption and all outputs of the firing. -/
def FiringAllOrNothing {σ : Type} (st : Store σ DomainEvent PersistedEvent) (s : FiringState)
    (db : σ) (refusal : EventStoreError) (env : FiringEnv) (draws : Draws) (marking : Marking)
    (tid : TransitionId) : Prop :=
  ∀ net t b, Bound env marking tid net t b →
    ∀ n < ((fireTransition env draws marking tid).written st s db).length,
      AllOrNothing marking b.consumedTokens ((routedOutputs env draws net t b).getD ⟨[], []⟩)
        ((fireTransition env draws marking tid).writtenUntil st (.eventStore refusal) n s db)

/-- **A firing is all or nothing under a failing store exactly when it is `Untorn`**: for every net,
marking and transition, every store, and every refused append. -/
theorem firing_allOrNothing_iff {σ : Type} (st : Store σ DomainEvent PersistedEvent)
    (s : FiringState) (db : σ) (refusal : EventStoreError) (env : FiringEnv) (draws : Draws)
    (marking : Marking) (tid : TransitionId) : FiringAllOrNothing st s db refusal env draws marking tid ↔
      ∀ net t b, Bound env marking tid net t b → Untorn env draws net t b marking := by
  refine forall_congr' fun net => forall_congr' fun t => forall_congr' fun b =>
    forall_congr' fun hb => ?_
  rw [← fireBound_untorn_iff st s db (holds_of_findValidBinding hb.binding), ← hb.fireTransition_eq draws]
  refine forall_congr' fun n => forall_congr' fun _ => ?_
  rw [writtenUntil_eq]

/-! ## A torn firing -/

/-- One transition that sends a token from `inbox` to another net. -/
def sendNet : PetriNet :=
  (((PetriNet.new.addPlace (.internal "inbox")).addPlace
    (.bridgeOut "outbox" "remote" "in")).addTransition
      { Transition.new "send" "" with inputPorts := [.new "in"], outputPorts := [.new "out"] })
    |>.addArc (.input ⟨0⟩ ⟨"inbox"⟩ ⟨"send"⟩ "in")
    |>.addArc (.output ⟨1⟩ ⟨"send"⟩ "out" ⟨"outbox"⟩)

/-- Every script returns one value on the port `out`. -/
def sendExecutor : TransitionExecutor where
  evaluateGuard _ _ := .ok true
  evaluatePriority _ _ := none
  executeScript _ _ := .ok (HashMap.ofPairs [("out", .null)])

/-- **The token is consumed and never sent**: the append of `TokenBridgedOut`, after
`TransitionFired`, is refused. -/
theorem firing_torn : ¬ FiringAllOrNothing logStore ⟨.new, 0⟩ [] .timeout (.plain sendNet sendExecutor) .plain
      (Marking.new.addToken ⟨"inbox"⟩ (.new ⟨0⟩ ⟨0⟩ .unit)) ⟨"send"⟩ := by
  intro h
  rcases h _ _ _ ⟨rfl, rfl, rfl⟩ 1 (by decide) with hsame | ⟨-, -, hsent⟩
  · exact absurd hsame (by decide)
  · exact absurd hsent (by decide)

end Mekhan

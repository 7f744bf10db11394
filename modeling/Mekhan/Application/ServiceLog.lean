import Mekhan.Application.FiringTrace
import Mekhan.Application.Service

/-!
# The log of a service

What the operations of a service do to its log and to the idempotency index: only an injection appends
an event under a key, and the ring that lookups read is the one that the log fills.
-/

namespace Mekhan

open Infra

/-! ## The index and the log -/

def Log.ring (l : Log) : BoundedDedup :=
  l.history.foldl absorbDedup (BoundedFifo.withCap l.store.dedupCap)

/-- The store stands for the history, and that fills this ring. -/
structure Log.Fills (l : Log) (ring : BoundedDedup) : Prop where
  represents : l.store.inner.RepresentsDedup l.store.dedupCap l.history
  ring_eq : l.ring = ring

section Fills

variable (fmt : EventFormat) (clock : Nat → DateTime) {l : Log} {ring : BoundedDedup}

theorem Log.Fills.append (h : l.Fills ring) (event : DomainEvent) :
    (l.append fmt clock event).2.Fills (absorbDedup ring (l.append fmt clock event).1) where
  represents := MemoryEventStore.append_representsDedup h.represents _ event
  ring_eq := by
    show (l.history ++ [_]).foldl absorbDedup _ = _
    rw [List.foldl_append, List.foldl_cons, List.foldl_nil]
    exact congrArg (absorbDedup · _) h.ring_eq

variable {seed : BoundedDedup} {e : PersistedEvent}

theorem absorbDedup_of_none (h : e.event.dedupKey? = none) : absorbDedup seed e = seed := by
  rw [absorbDedup, h]

theorem absorbDedup_of_some {key : DedupKey}
    (h : e.event.dedupKey? = some key) : absorbDedup seed e = seed.insert key e := by
  rw [absorbDedup, h]

theorem Log.Fills.append_unkeyed (h : l.Fills ring) {event : DomainEvent}
    (hevent : event.dedupKey? = none) : (l.append fmt clock event).2.Fills ring := by
  have happend := h.append fmt clock event
  rwa [absorbDedup_of_none hevent] at happend

theorem Log.fills_reset (l : Log) : l.reset.Fills (BoundedFifo.withCap l.store.dedupCap) where
  represents := Checkpoint.empty ..
  ring_eq := rfl

end Fills

/-! ## Evaluation leaves the index alone -/

theorem dedupKey?_of_isFiringEvent {e : DomainEvent} (h : Firing.isFiringEvent e) : e.dedupKey? = none := by
  cases e with
  | tokenCreated => exact absurd h (by simp [Firing.isFiringEvent, DomainEvent.isNote])
  | _ => rfl

namespace Engine

/-! ### What evaluation does to the log

Everything an evaluation appends is without a key, so it keeps whatever such appends keep. -/

variable (fmt : EventFormat) (env : FiringEnv) (d : EvalDraws) {I : Log → Prop}
  (hI : ∀ clock event l, event.dedupKey? = none → I l → I (l.append fmt clock event).2)
  {e : Engine}

include hI

theorem fire_keeps (clock : Nat → DateTime) (draws : Draws) (marking : Marking)
    (tid : TransitionId) (h : I e.log) : I (e.fire fmt env clock draws marking tid).2.log := by
  refine Journal.Writes.store_invariant ?_ (Firing.fireTransition_writes marking tid) h
  intro event l hevent hl
  exact hI clock event l (dedupKey?_of_isFiringEvent hevent) hl

omit hI in
theorem select_log (phase : SelectPhase) (marking : Marking) :
    (e.select env phase marking).2.log = e.log := by
  unfold select
  split
  · rfl
  · cases phase <;> rfl

omit hI in
theorem advance_select_keeps (phase : SelectPhase) (h : I e.log) :
    I ((e.advance env.topology).2.select env phase (e.advance env.topology).1).2.log := by
  rw [select_log]
  exact h

theorem drainLoop_keeps : ∀ (steps : Nat) (fired : List PersistedEvent) (e : Engine),
    I e.log → I (drainLoop fmt env d steps fired e).2.log
  | 0, _, _, h => h
  | steps + 1, fired, e, h => by
    have hselect := advance_select_keeps env .finalizing h
    unfold drainLoop
    dsimp only
    split
    · next tid e' heq =>
      rw [heq] at hselect
      have hfire := fire_keeps fmt env hI d.clock (d.finalizerDraws steps)
        (e.advance env.topology).1 tid hselect
      split
      · next event e'' heq' =>
        rw [heq'] at hfire
        exact drainLoop_keeps steps _ e'' hfire
      · next err e'' heq' =>
        rw [heq'] at hfire
        exact hfire
    · next r e' _ heq =>
      rw [heq] at hselect
      exact hselect

theorem settleFailure_keeps (acc : EvaluateResult) (tid : TransitionId) (idxBefore : Nat)
    (err : ServiceError) (h : I e.log) : I (settleFailure fmt env d acc tid idxBefore err e).2.log := by
  have hdrain := drainLoop_keeps fmt env d hI maxFinalizerSteps [] e h
  unfold settleFailure
  split
  · exact hdrain
  · split
    · exact h
    · exact hdrain
    · exact h

theorem evaluateLoop_keeps : ∀ (steps : Nat) (acc : EvaluateResult) (e : Engine),
    I e.log → I (evaluateLoop fmt env d steps acc e).2.log
  | 0, _, _, h => h
  | steps + 1, acc, e, h => by
    have hselect := advance_select_keeps env .normal h
    unfold evaluateLoop
    dsimp only
    split
    · next err e' heq =>
      rw [heq] at hselect
      exact hselect
    · next e' heq =>
      rw [heq] at hselect
      exact hselect
    · next tid e' heq =>
      rw [heq] at hselect
      have hfire := fire_keeps fmt env hI d.clock (d.draws acc.stepsExecuted)
        (e.advance env.topology).1 tid hselect
      split
      · next event e'' heq' =>
        rw [heq'] at hfire
        exact evaluateLoop_keeps steps _ e'' hfire
      · next err e'' heq' =>
        rw [heq'] at hfire
        exact settleFailure_keeps fmt env d hI acc tid _ err hfire

end Engine

namespace Service

/-- The operations that create no token from outside. -/
def Op.evaluates : Op → Bool
  | .createTokenWithMeta .. => false
  | _ => true

/-- **An operation that creates no token from outside keeps what appends without a key keep.** -/
theorem perform_keeps {fmt : EventFormat} {I : Log → Prop} {s : Service} {op : Op}
    (hI : ∀ clock event l, event.dedupKey? = none → I l → I (l.append fmt clock event).2)
    (hop : op.evaluates = true) (h : I s.engine.log) : I (s.perform fmt op).2.engine.log := by
  cases op with
  | createTokenWithMeta r fresh => exact absurd hop (by simp [Op.evaluates])
  | evaluateUntilQuiescent d maxSteps =>
    exact Engine.evaluateLoop_keeps fmt s.firingEnv d hI maxSteps _ _ h
  | fireTransition clock draws tid => exact Engine.fire_keeps fmt s.firingEnv hI clock draws _ tid h
  | drainFinalizers d => exact Engine.drainLoop_keeps fmt s.firingEnv d hI _ _ _ h
  | getMarking => exact h

theorem dedupIndex_perform {fmt : EventFormat} (s : Service) {op : Op} (hop : op.evaluates = true) :
    (s.perform fmt op).2.dedupIndex = s.dedupIndex := by
  cases op with
  | createTokenWithMeta r fresh => exact absurd hop (by simp [Op.evaluates])
  | _ => rfl

/-! ## The ring of a service -/

/-- The log fills the ring that the lookups read. -/
def Reflects (s : Service) : Prop := s.engine.log.Fills s.ring

section Reflects

variable {fmt : EventFormat} {s t : Service}

theorem Reflects.of_fills (h : t.engine.log.Fills s.ring) (hindex : t.dedupIndex = s.dedupIndex) :
    t.Reflects := by
  suffices hring : t.ring = s.ring by
    rw [Reflects, hring]
    exact h
  cases hcell : s.dedupIndex.cell with
  | some r => rw [ring, ring, hindex, DedupIndex.ensure, DedupIndex.ensure, hcell]
  | none =>
    -- Not seeded: the ring is what the store would seed it with now.
    rw [ring, hindex, DedupIndex.ensure, hcell]
    exact h.represents.dedupSeedFull_eq.trans h.ring_eq

theorem Reflects.append_unkeyed (h : s.Reflects) (clock : Nat → DateTime) {event : DomainEvent}
    (hevent : event.dedupKey? = none) : (s.append fmt clock event).2.Reflects :=
  .of_fills (Log.Fills.append_unkeyed fmt clock h hevent) rfl

theorem Reflects.createUnseen (h : s.Reflects) (r : TokenRequest) (fresh : Fresh)
    (hseeded : r.dedupKey? ≠ none → s.dedupIndex = ⟨some s.ring⟩) :
    (s.createUnseen fmt r fresh).2.Reflects := by
  unfold Service.createUnseen
  split
  · exact h
  · next event hevent =>
    have hkey := dedupKey?_tokenCreatedEvent hevent
    dsimp only
    split
    · next hnone => exact h.append_unkeyed _ (hkey.trans hnone)
    · next key hsome =>
      have happend := Log.Fills.append fmt (fun _ => fresh.appendedAt) h event
      rw [absorbDedup_of_some (hkey.trans hsome)] at happend
      have hindex := hseeded (by simp [hsome])
      show Log.Fills _ ((DedupIndex.ensure s.dedupIndex _).insert key _)
      rw [hindex]
      exact happend

theorem Reflects.createTokenWithMeta (h : s.Reflects) (r : TokenRequest) (fresh : Fresh) :
    (s.createTokenWithMeta fmt r fresh).2.Reflects := by
  unfold Service.createTokenWithMeta
  split
  · next hnone => exact h.createUnseen r fresh (absurd hnone)
  · dsimp only
    split
    · exact h
    · exact createUnseen (s := { s with dedupIndex := ⟨some s.ring⟩ }) h r fresh fun _ => rfl

theorem Reflects.perform (h : s.Reflects) (op : Op) : (s.perform fmt op).2.Reflects := by
  cases hop : op.evaluates with
  | true =>
    have hfills : (s.perform fmt op).2.engine.log.Fills s.ring :=
      perform_keeps (I := (Log.Fills · s.ring))
        (fun clock _ _ hevent hl => hl.append_unkeyed fmt clock hevent) hop h
    exact .of_fills hfills (s.dedupIndex_perform hop)
  | false =>
    cases op with
    | createTokenWithMeta r fresh => exact h.createTokenWithMeta r fresh
    | _ => exact absurd hop (by simp [Op.evaluates])

theorem Reflects.performAll : ∀ (ops : List Op) {s : Service}, s.Reflects → (s.performAll fmt ops).2.Reflects
  | [], _, h => h
  | op :: ops, _, h => performAll ops (h.perform op)

theorem createTokenWithMeta_of_hit {r : TokenRequest} {key : DedupKey} {e : PersistedEvent}
    (fresh : Fresh) (hkey : r.dedupKey? = some key) (hget : s.ring.get key = some e) :
    s.createTokenWithMeta fmt r fresh = (.ok e, { s with dedupIndex := ⟨some s.ring⟩ }) := by
  unfold createTokenWithMeta
  simp only [hkey, hget]

/-- **An injection appends nothing, or one event under its key that the ring does not have.** -/
theorem history_createTokenWithMeta (fmt : EventFormat) (s : Service) (r : TokenRequest) (fresh : Fresh) :
    (s.createTokenWithMeta fmt r fresh).2.engine.log.history = s.engine.log.history ∨
      ∃ e, (s.createTokenWithMeta fmt r fresh).2.engine.log.history = s.engine.log.history ++ [e] ∧
        e.event.dedupKey? = r.dedupKey? ∧ ∀ key, r.dedupKey? = some key → s.ring.get key = none := by
  have hunseen : ∀ t : Service, t.engine.log.history = s.engine.log.history →
      (t.createUnseen fmt r fresh).2.engine.log.history = s.engine.log.history ∨
        ∃ e, (t.createUnseen fmt r fresh).2.engine.log.history = s.engine.log.history ++ [e] ∧
          e.event.dedupKey? = r.dedupKey? := by
    intro t ht
    unfold createUnseen
    split
    · exact Or.inl ht
    · next event hevent =>
      refine Or.inr ⟨(t.append fmt (fun _ => fresh.appendedAt) event).1, ?_,
        dedupKey?_tokenCreatedEvent hevent⟩
      rw [← ht]
      dsimp only
      split <;> rfl
  cases hkey : r.dedupKey? with
  | none =>
    have hcreate : s.createTokenWithMeta fmt r fresh = s.createUnseen fmt r fresh := by
      simp only [createTokenWithMeta, hkey]
    rw [hcreate, ← hkey]
    rcases hunseen s rfl with h | ⟨e, h, he⟩
    · exact Or.inl h
    · exact Or.inr ⟨e, h, he, fun key hsome => absurd (hkey.symm.trans hsome) (by simp)⟩
  | some key =>
    cases hget : s.ring.get key with
    | some existing =>
      rw [createTokenWithMeta_of_hit fresh hkey hget]
      exact Or.inl rfl
    | none =>
      have hcreate : s.createTokenWithMeta fmt r fresh =
          createUnseen fmt r fresh { s with dedupIndex := ⟨some s.ring⟩ } := by
        simp only [createTokenWithMeta, hkey, hget]
      rw [hcreate, ← hkey]
      rcases hunseen { s with dedupIndex := ⟨some s.ring⟩ } rfl with h | ⟨e, h, he⟩
      · exact Or.inl h
      · refine Or.inr ⟨e, h, he, fun key' hsome => ?_⟩
        obtain rfl := Option.some.inj (hkey.symm.trans hsome)
        exact hget

theorem Reflects.createTokenWithMeta_logged (h : s.Reflects) {r : TokenRequest} {fresh : Fresh}
    {key : DedupKey} {e : PersistedEvent} (hkey : r.dedupKey? = some key)
    (hres : (s.createTokenWithMeta fmt r fresh).1 = .ok e) :
    e ∈ (s.createTokenWithMeta fmt r fresh).2.engine.log.history ∧ e.event.dedupKey? = some key := by
  cases hget : s.ring.get key with
  | some existing =>
    rw [createTokenWithMeta_of_hit fresh hkey hget] at hres ⊢
    cases hres
    rw [← h.ring_eq] at hget
    rcases get_foldl_absorbDedup_some hget with hfound | hempty
    · exact hfound
    · cases hempty
  | none =>
    simp only [Service.createTokenWithMeta, hget, Service.createUnseen, hkey] at hres ⊢
    split at hres
    · cases hres
    · next event hevent =>
      cases hres
      exact ⟨List.mem_append_right _ (List.mem_singleton_self _),
        (dedupKey?_tokenCreatedEvent hevent).trans hkey⟩

end Reflects

end Service

end Mekhan

import Mekhan.Application.TokenManager
import Mekhan.Infra.Runs

/-!
# Concurrent token injection

`create_token_with_meta` of `application/src/service.rs` looks its key up in the idempotency index,
appends, and records the event in the index, and each of these awaits: other calls run in between.
The system here is any number of calls that carry one key.
-/

namespace Mekhan

open Infra

/-- Where a call stands between two awaits. -/
inductive CreateState where
  | start
  | ensured
  | missed
  | appended (event : PersistedEvent)
  | returned (result : Except ServiceError PersistedEvent)

/-- Between a missed lookup and the record of the event. -/
def CreateState.inFlight : CreateState → Prop
  | .missed | .appended _ => True
  | _ => False

/-- What the calls share: one key, and the topology and schemas they are checked against. -/
structure InjectionEnv where
  fmt : EventFormat
  topology : Option PetriNet
  /-- The registry, when injection schemas are validated. -/
  schemaRegistry : Option SchemaRegistry
  key : DedupKey
  request : Nat → TokenRequest
  sameKey : ∀ i, (request i).dedupKey? = some key

/-- The store, the index and the calls in flight. -/
structure InjectionSystem where
  store : MemoryEventStore
  index : DedupIndex
  history : List PersistedEvent
  calls : Nat → CreateState

namespace InjectionSystem

/-- A service whose store has loaded a history and whose index is not seeded yet. -/
def init (fmt : EventFormat) (tailCapBytes dedupCap : Nat)
    (loads : List (PersistedEvent × Nat)) : InjectionSystem where
  store := (MemoryEventStore.withCaps tailCapBytes dedupCap).loadAll fmt loads
  index := .new
  history := loads.map (·.1)
  calls := fun _ => .start

/-- The ring a lookup reads, seeded now if it has not been. -/
def ring (s : InjectionSystem) : BoundedDedup := s.index.ensure s.store.inner

def setCall (s : InjectionSystem) (i : Nat) (c : CreateState) : InjectionSystem :=
  { s with calls := Function.update s.calls i c }

/-- The next step of call `i`. -/
def step (env : InjectionEnv) (s : InjectionSystem) (a : Nat × Fresh) : Option InjectionSystem :=
  match s.calls a.1 with
  | .start => some ({ s with index := ⟨some s.ring⟩ }.setCall a.1 .ensured)
  | .ensured =>
    match s.ring.get env.key with
    | some existing => some (s.setCall a.1 (.returned (.ok existing)))
    | none => some (s.setCall a.1 .missed)
  | .missed =>
    match tokenCreatedEvent env.topology env.schemaRegistry (env.request a.1) a.2 with
    | .error e => some (s.setCall a.1 (.returned (.error e)))
    | .ok event =>
      let (persisted, store) := s.store.append env.fmt a.2.appendedAt event
      some ({ s with store := store, history := s.history ++ [persisted] }.setCall a.1
        (.appended persisted))
  | .appended event =>
    some ({ s with index := s.index.insert s.store.inner env.key event }.setCall a.1
      (.returned (.ok event)))
  | .returned _ => none

def keyed (s : InjectionSystem) (key : DedupKey) : List PersistedEvent :=
  s.history.filter fun e => e.event.dedupKey? = some key

/-- At most one event with the key is in the log, and every call that succeeded returned it. -/
def AtMostOnce (s : InjectionSystem) (key : DedupKey) : Prop :=
  (s.keyed key).length ≤ 1 ∧ ∀ i e, s.calls i = .returned (.ok e) → s.keyed key = [e]

/-- A lookup happens only while no other call is between its missed lookup and its record. -/
def LooksUpAlone (s : InjectionSystem) (a : Nat × Fresh) : Prop :=
  s.calls a.1 = .ensured → ∀ j, j ≠ a.1 → ¬ (s.calls j).inFlight

/-! ## The invariant -/

/-- Where the injection under a key stands. -/
inductive Phase (key : DedupKey) (s : InjectionSystem) : Prop where
  | absent (log : s.keyed key = []) (index : s.ring.get key = none)
      (calls : ∀ i e, s.calls i ≠ .appended e ∧ s.calls i ≠ .returned (.ok e))
  | unrecorded (e : PersistedEvent) (log : s.keyed key = [e])
      (writer : ∃ i, s.calls i = .appended e)
      (calls : ∀ i x, s.calls i ≠ .returned (.ok x))
  | recorded (e : PersistedEvent) (log : s.keyed key = [e]) (index : s.ring.get key = some e)
      (idle : ∀ i, ¬ (s.calls i).inFlight)
      (calls : ∀ i x, s.calls i = .returned (.ok x) → x = e)

/-- One call at a time is in flight, and the index knows what was injected. -/
structure Inv (key : DedupKey) (s : InjectionSystem) : Prop where
  alone : ∀ i j, (s.calls i).inFlight → (s.calls j).inFlight → i = j
  seeded : ∀ i, s.calls i ≠ .start → s.index.cell ≠ none
  phase : Phase key s

theorem Phase.atMostOnce {key : DedupKey} {s : InjectionSystem} (h : Phase key s) : s.AtMostOnce key := by
  cases h with
  | absent log index calls =>
    exact ⟨by simp [log], fun i e he => absurd he (calls i e).2⟩
  | unrecorded e log writer calls => exact ⟨by simp [log], fun i x hx => absurd hx (calls i x)⟩
  | recorded e log index idle calls =>
    refine ⟨by simp [log], fun i x hx => ?_⟩
    rw [calls i x hx]
    exact log

theorem inv_init {fmt : EventFormat} {tailCapBytes dedupCap : Nat}
    {loads : List (PersistedEvent × Nat)} {key : DedupKey}
    (hnew : ∀ e ∈ loads, e.1.event.dedupKey? ≠ some key) :
    (init fmt tailCapBytes dedupCap loads).Inv key := by
  have hnone : ∀ e ∈ loads.map (·.1), e.event.dedupKey? ≠ some key := by
    intro e he
    obtain ⟨l, hl, rfl⟩ := List.mem_map.mp he
    exact hnew l hl
  refine ⟨fun i j h => absurd h (by simp [init, CreateState.inFlight]),
    fun i h => absurd rfl h, .absent ?_ ?_ fun i e => by simp [init]⟩
  · refine List.filter_eq_nil_iff.mpr fun e he => ?_
    simpa using hnone e he
  · have hempty : (MemoryEventStore.withCaps tailCapBytes dedupCap).inner.RepresentsDedup dedupCap
        [] := Checkpoint.empty ..
    have hdedup := MemoryEventStore.loadAll_representsDedup hempty fmt loads
    rw [ring, init, DedupIndex.ensure, DedupIndex.new, hdedup.dedupSeedFull_eq]
    exact get_foldl_absorbDedup (BoundedFifo.get_withCap ..) hnone

theorem setCall_calls (s : InjectionSystem) (i j : Nat) (c : CreateState) :
    (s.setCall i c).calls j = if j = i then c else s.calls j := by
  simp [setCall, Function.update_apply]

variable {env : InjectionEnv} {s s' : InjectionSystem} {i : Nat} {fresh : Fresh}

/-! ## One step -/

theorem alone_setCall (h : ∀ i j, (s.calls i).inFlight → (s.calls j).inFlight → i = j)
    {c : CreateState} (hc : c.inFlight → ∀ j, j ≠ i → ¬ (s.calls j).inFlight) :
    ∀ j k, ((s.setCall i c).calls j).inFlight → ((s.setCall i c).calls k).inFlight → j = k := by
  intro j k hj hk
  rw [setCall_calls] at hj hk
  split at hj <;> split at hk
  · next hji hki => rw [hji, hki]
  · next hji hki => exact absurd hk (hc hj k hki)
  · next hji hki => exact absurd hj (hc hk j hji)
  · exact h j k hj hk

theorem seeded_setCall (h : s.index.cell ≠ none) {c : CreateState} :
    ∀ j, (s.setCall i c).calls j ≠ .start → (s.setCall i c).index.cell ≠ none :=
  fun _ _ => h

theorem inv_step_start (hs : s.Inv env.key) (hst : s.calls i = .start) :
    ({ s with index := ⟨some s.ring⟩ }.setCall i .ensured).Inv env.key := by
  refine ⟨alone_setCall hs.alone (fun h => h.elim), seeded_setCall (by simp), ?_⟩
  have hcalls : ∀ {j c}, ({ s with index := ⟨some s.ring⟩ }.setCall i .ensured).calls j = c →
      c ≠ .ensured → s.calls j = c := by
    intro j c hj hc
    rw [setCall_calls] at hj
    split at hj
    · exact absurd hj.symm hc
    · exact hj
  cases hs.phase with
  | absent log index calls =>
    refine .absent log index fun j e => ⟨fun h => ?_, fun h => ?_⟩
    · exact (calls j e).1 (hcalls h (by simp))
    · exact (calls j e).2 (hcalls h (by simp))
  | unrecorded e log writer calls =>
    obtain ⟨w, hw⟩ := writer
    refine .unrecorded e log ⟨w, ?_⟩ fun j x h => calls j x (hcalls h (by simp))
    rw [setCall_calls, if_neg (by rintro rfl; exact absurd (hst.symm.trans hw) (by simp))]
    exact hw
  | recorded e log index idle calls =>
    refine .recorded e log index (fun j hj => ?_) fun j x h => calls j x (hcalls h (by simp))
    rw [setCall_calls] at hj
    split at hj
    · exact hj
    · exact idle j hj

theorem inv_step_ensured (hs : s.Inv env.key) (hst : s.calls i = .ensured)
    (halone : ∀ j, j ≠ i → ¬ (s.calls j).inFlight)
    (h : step env s (i, fresh) = some s') : s'.Inv env.key := by
  have hseed : s.index.cell ≠ none := hs.seeded i (by simp [hst])
  simp only [step, hst] at h
  cases hs.phase with
  | absent log index calls =>
    rw [index] at h
    cases h
    refine ⟨alone_setCall hs.alone (fun _ => halone), seeded_setCall hseed,
      .absent log index fun j e => ?_⟩
    rw [setCall_calls]
    split
    · simp
    · exact calls j e
  | unrecorded e log writer calls =>
    obtain ⟨w, hw⟩ := writer
    have hwi : w ≠ i := by
      rintro rfl
      exact absurd (hst.symm.trans hw) (by simp)
    exact absurd (hw ▸ trivial : (s.calls w).inFlight) (halone w hwi)
  | recorded e log index idle calls =>
    rw [index] at h
    cases h
    refine ⟨alone_setCall hs.alone (fun h => h.elim), seeded_setCall hseed,
      .recorded e log index (fun j hj => ?_) fun j x hx => ?_⟩
    · rw [setCall_calls] at hj
      split at hj
      · exact hj
      · exact idle j hj
    · rw [setCall_calls] at hx
      split at hx
      · exact (Except.ok.inj (CreateState.returned.inj hx)).symm
      · exact calls j x hx

theorem inv_step_missed (hs : s.Inv env.key) (hst : s.calls i = .missed)
    (h : step env s (i, fresh) = some s') : s'.Inv env.key := by
  have hseed : s.index.cell ≠ none := hs.seeded i (by simp [hst])
  have hflight : (s.calls i).inFlight := hst ▸ trivial
  have hothers : ∀ j, j ≠ i → ¬ (s.calls j).inFlight :=
    fun j hj hf => hj (hs.alone j i hf hflight)
  simp only [step, hst] at h
  cases hs.phase with
  | absent log index calls =>
    split at h
    · cases h
      refine ⟨alone_setCall hs.alone (fun h => h.elim), seeded_setCall hseed,
        .absent log index fun j e => ?_⟩
      rw [setCall_calls]
      split
      · simp
      · exact calls j e
    · next event hev =>
      cases h
      refine ⟨alone_setCall hs.alone (fun _ => hothers), seeded_setCall hseed,
        .unrecorded (s.store.append env.fmt fresh.appendedAt event).1 ?_ ⟨i, ?_⟩ fun j x hx => ?_⟩
      · have hkey : event.dedupKey? = some env.key :=
          (dedupKey?_tokenCreatedEvent hev).trans (env.sameKey i)
        show List.filter _ (s.history ++ [_]) = _
        rw [List.filter_append]
        show s.keyed env.key ++ _ = _
        rw [log, List.nil_append, List.filter_singleton]
        simp [MemoryEventStore.append, PersistedEvent.new, hkey]
      · rw [setCall_calls, if_pos rfl]
      · rw [setCall_calls] at hx
        split at hx
        · cases hx
        · exact absurd hx (calls j x).2
  | unrecorded e log writer calls =>
    obtain ⟨w, hw⟩ := writer
    obtain rfl := hs.alone w i (hw ▸ trivial) hflight
    exact absurd (hst.symm.trans hw) (by simp)
  | recorded e log index idle calls => exact absurd hflight (idle i)

theorem inv_step_appended {e : PersistedEvent} (hs : s.Inv env.key)
    (hst : s.calls i = .appended e) (h : step env s (i, fresh) = some s') : s'.Inv env.key := by
  have hflight : (s.calls i).inFlight := hst ▸ trivial
  have hothers : ∀ j, j ≠ i → ¬ (s.calls j).inFlight :=
    fun j hj hf => hj (hs.alone j i hf hflight)
  simp only [step, hst] at h
  cases h
  refine ⟨alone_setCall hs.alone (fun h => h.elim), seeded_setCall (by simp [DedupIndex.insert]), ?_⟩
  cases hs.phase with
  | absent log index calls => exact absurd hst (calls i e).1
  | unrecorded x log writer calls =>
    obtain ⟨w, hw⟩ := writer
    obtain rfl := hs.alone w i (hw ▸ trivial) hflight
    obtain rfl := CreateState.appended.inj (hst.symm.trans hw)
    refine .recorded e log (BoundedFifo.get_insert_self ..) (fun j hj => ?_) fun j x hx => ?_
    · rw [setCall_calls] at hj
      split at hj
      · exact hj
      · next hji => exact hothers j hji hj
    · rw [setCall_calls] at hx
      split at hx
      · exact (Except.ok.inj (CreateState.returned.inj hx)).symm
      · exact absurd hx (calls j x)
  | recorded x log index idle calls => exact absurd hflight (idle i)

theorem inv_step {a : Nat × Fresh} (hs : s.Inv env.key) (ha : s.LooksUpAlone a)
    (h : step env s a = some s') : s'.Inv env.key := by
  obtain ⟨i, fresh⟩ := a
  cases hst : s.calls i with
  | start =>
    simp only [step, hst] at h
    cases h
    exact inv_step_start hs hst
  | ensured => exact inv_step_ensured hs hst (ha hst) h
  | missed => exact inv_step_missed hs hst h
  | appended e => exact inv_step_appended hs hst h
  | returned r => exact absurd h (by simp [step, hst])

end InjectionSystem

open InjectionSystem

/-- **Injection is at-most-once while lookups do not overlap a creation.** From a log without the
key, in every run whose lookups all happen while no other call is between its missed lookup and its
record, at most one event with the key is ever in the log, and every call that succeeds returns it. -/
theorem createToken_at_most_once (env : InjectionEnv) (tailCapBytes dedupCap : Nat)
    (loads : List (PersistedEvent × Nat)) (run : List (Nat × Fresh)) (s : InjectionSystem)
    (hnew : ∀ e ∈ loads, e.1.event.dedupKey? ≠ some env.key)
    (halone : Along (step env) LooksUpAlone (init env.fmt tailCapBytes dedupCap loads) run)
    (h : exec (step env) (init env.fmt tailCapBytes dedupCap loads) run = some s) : s.AtMostOnce env.key := by
  have hinv : s.Inv env.key :=
    exec_invariant_along (fun _ _ _ hs ha h => inv_step hs ha h) (inv_init hnew) halone h
  exact hinv.phase.atMostOnce

/-- Calls that all inject the message `m1` at the place `inbox`. -/
def redelivery : InjectionEnv where
  fmt := .plain
  topology := some (PetriNet.new.addPlace (.signal "inbox"))
  schemaRegistry := none
  key := (⟨"inbox"⟩, "m1")
  request _ := ⟨⟨"inbox"⟩, .unit, none, none, some "m1"⟩
  sameKey _ := by decide

def freshNr (n : Nat) : Fresh := ⟨⟨n⟩, ⟨0⟩, ⟨""⟩, ⟨0⟩⟩

/-- One call runs to its end, then the redelivery looks up. -/
def oneAfterTheOther : List (Nat × Fresh) :=
  [(0, freshNr 0), (0, freshNr 0), (0, freshNr 0), (0, freshNr 0), (1, freshNr 1), (1, freshNr 1)]

theorem oneAfterTheOther_alone :
    Along (step redelivery) LooksUpAlone (init redelivery.fmt 100 8 []) oneAfterTheOther := by
  refine along_cons (fun h => ?_) rfl (along_cons (fun _ j hj => ?_) rfl (along_cons (fun h => ?_)
    rfl (along_cons (fun h => ?_) rfl (along_cons (fun h => ?_) rfl (along_cons (fun _ j hj => ?_)
    rfl trivial)))))
  · exact absurd h (by simp [init])
  · simp [setCall_calls, hj, init, CreateState.inFlight]
  · exact absurd h (by simp [setCall_calls])
  · exact absurd h (by simp [setCall_calls])
  · exact absurd h (by simp [setCall_calls, init])
  · simp only [setCall_calls, hj, if_false]
    by_cases hj0 : j = 0 <;> simp [hj0, init, CreateState.inFlight]

theorem createToken_at_most_once_redelivery :
    ∃ s, exec (step redelivery) (init redelivery.fmt 100 8 []) oneAfterTheOther = some s ∧
      (s.keyed redelivery.key).length = 1 ∧ s.AtMostOnce redelivery.key :=
  ⟨_, rfl, by decide, createToken_at_most_once redelivery 100 8 [] oneAfterTheOther _ (by simp)
    oneAfterTheOther_alone rfl⟩

/-- **The lookup and the append race.** Two calls look up before either appends; both append. -/
theorem createToken_races : ∃ s, exec (step redelivery) (init redelivery.fmt 100 8 [])
        [(0, freshNr 0), (1, freshNr 1), (0, freshNr 0), (1, freshNr 1), (0, freshNr 0),
          (1, freshNr 1)] = some s ∧ (s.keyed redelivery.key).length = 2 ∧ ¬ s.AtMostOnce redelivery.key := by
  refine ⟨_, rfl, by decide, fun h => ?_⟩
  exact absurd h.1 (by decide)

end Mekhan

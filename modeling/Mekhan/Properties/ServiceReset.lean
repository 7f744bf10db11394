import Mekhan.Application.ServiceLog

/-!
# Clearing and resetting a service

`clear` and `reset` of `application/src/service.rs` drop the log, the marking cache and the replay
cursor, and `clear` the schemas. The idempotency index, the dispatch options, the net parameters and
the defer budgets stay.
-/

namespace Mekhan

open Infra

namespace Service

variable (fmt : EventFormat)

/-- A newly constructed service with the same wiring. -/
def fresh (s : Service) : Service :=
  .new s.config s.engine.log.store.tailCapBytes s.engine.log.store.dedupCap

/-- The two services answer every sequence of operations with the same results and the same log. -/
def SameRuns (s t : Service) : Prop :=
  ∀ ops, (s.performAll fmt ops).1 = (t.performAll fmt ops).1 ∧
    (s.performAll fmt ops).2.engine.log = (t.performAll fmt ops).2.engine.log

/-- After any operations, an injection under a key returns only what is in the log under it. -/
def ReturnsLogged (s : Service) : Prop :=
  ∀ ops r fresh key e, r.dedupKey? = some key →
    (((s.performAll fmt ops).2).createTokenWithMeta fmt r fresh).1 = .ok e →
      e ∈ (((s.performAll fmt ops).2).createTokenWithMeta fmt r fresh).2.engine.log.history ∧
        e.event.dedupKey? = some key

/-- **A service that is cleared or reset is like a new one**, loaded with the same net: `clear` with
any net, `reset` with the net, the initial tokens and the schemas it has. -/
structure Forgets (s : Service) : Prop where
  clear : ∀ clock net,
    SameRuns fmt (s.clear.initializeNet fmt clock net) (s.fresh.initializeNet fmt clock net) ∧
      ReturnsLogged fmt (s.clear.initializeNet fmt clock net)
  reset : ∀ clock mint net, s.topology = some net →
    SameRuns fmt (s.reset fmt clock mint)
        (createInitialTokens fmt clock mint 0 s.initialTokens
          ({ s.fresh with schemaRegistry := s.schemaRegistry }.initializeNet fmt clock net)) ∧
      ReturnsLogged fmt (s.reset fmt clock mint)

/-- What `clear` and `reset` do not touch is as in a new service. -/
structure NothingLeftBehind (s : Service) : Prop where
  dedupIndex : ∀ ring, s.dedupIndex.cell = some ring →
    ring = BoundedFifo.withCap s.engine.log.store.dedupCap
  dispatchOptions : s.dispatchOptions = .default
  netParameters : s.netParameters = none
  budgets : s.engine.firing.budgets = .new

end Service

/-! ## Engines that differ in a stale memo -/

namespace Engine

variable (fmt : EventFormat) (env : FiringEnv) (d : EvalDraws) {e : Engine}

/-- Two engines that agree, up to a memo that the next advance rebuilds. -/
structure Alike (e e' : Engine) : Prop where
  log : e.log = e'.log
  cachedState : e.cachedState = e'.cachedState
  firing : e.firing = e'.firing
  memo : e.cachedState = none ∨ e.bindingMemo = e'.bindingMemo

variable {e' : Engine}

theorem Alike.refl (e : Engine) : Alike e e := ⟨rfl, rfl, rfl, Or.inr rfl⟩

theorem Alike.advance_eq (h : Alike e e') (net : PetriNet) :
    e.advance (some net) = e'.advance (some net) := by
  obtain ⟨log, cachedState, memo, firing⟩ := e
  obtain ⟨log', cachedState', memo', firing'⟩ := e'
  obtain ⟨rfl, rfl, rfl, hmemo⟩ := h
  rcases hmemo with hnone | hmemo
  · obtain rfl : cachedState = none := hnone
    rfl
  · obtain rfl : memo = memo' := hmemo
    rfl

variable {net : PetriNet}

theorem Alike.drainFinalizers_eq (h : Alike e e') (hnet : env.topology = some net) :
    e.drainFinalizers fmt env d = e'.drainFinalizers fmt env d := by
  show drainLoop fmt env d (63 + 1) [] e = drainLoop fmt env d (63 + 1) [] e'
  unfold drainLoop
  rw [hnet, h.advance_eq net]

theorem Alike.evaluateUntilQuiescent (h : Alike e e') (hnet : env.topology = some net) (maxSteps : Nat) :
    (e.evaluateUntilQuiescent fmt env d maxSteps).1 = (e'.evaluateUntilQuiescent fmt env d maxSteps).1 ∧
      Alike (e.evaluateUntilQuiescent fmt env d maxSteps).2
        (e'.evaluateUntilQuiescent fmt env d maxSteps).2 := by
  cases maxSteps with
  | zero => exact ⟨rfl, h⟩
  | succ steps =>
    have heq : e.evaluateUntilQuiescent fmt env d (steps + 1) =
        e'.evaluateUntilQuiescent fmt env d (steps + 1) := by
      unfold Engine.evaluateUntilQuiescent evaluateLoop
      rw [hnet, h.advance_eq net]
    rw [heq]
    exact ⟨rfl, .refl _⟩

end Engine

namespace Service

theorem Reflects.returnsLogged {fmt : EventFormat} {s : Service} (h : s.Reflects) : ReturnsLogged fmt s :=
  fun ops _ _ _ _ hkey hres => (h.performAll ops).createTokenWithMeta_logged hkey hres

/-! ## Services that differ in what they do not show -/

/-- Two services on one net that agree, whatever their indexes are, up to a stale memo. -/
structure Agree (net : PetriNet) (s t : Service) : Prop where
  config : s.config = t.config
  topology : s.topology = some net
  topology' : t.topology = some net
  schemaRegistry : s.schemaRegistry = t.schemaRegistry
  netParameters : s.netParameters = t.netParameters
  dispatchOptions : s.dispatchOptions = t.dispatchOptions
  engine : s.engine.Alike t.engine

/-- Two services that agree and whose indexes stand for their logs. -/
structure Alike (net : PetriNet) (s t : Service) : Prop extends Agree net s t where
  reflects : s.Reflects
  reflects' : t.Reflects

variable {fmt : EventFormat} {net : PetriNet} {s t : Service}

namespace Agree

theorem firingEnv_eq (h : Agree net s t) : s.firingEnv = t.firingEnv := by
  unfold firingEnv
  rw [h.config, h.topology, h.topology', h.schemaRegistry, h.netParameters, h.dispatchOptions]

theorem injectionRegistry_eq (h : Agree net s t) : s.injectionRegistry = t.injectionRegistry := by
  unfold injectionRegistry
  rw [h.config, h.schemaRegistry]

theorem append_fst (h : Agree net s t) (fmt : EventFormat) (clock : Nat → DateTime) (event : DomainEvent) :
    (s.append fmt clock event).1 = (t.append fmt clock event).1 :=
  congrArg (fun l : Log => (l.append fmt clock event).1) h.engine.log

theorem append (h : Agree net s t) (fmt : EventFormat) (clock : Nat → DateTime) (event : DomainEvent) :
    Agree net (s.append fmt clock event).2 (t.append fmt clock event).2 where
  config := h.config
  topology := h.topology
  topology' := h.topology'
  schemaRegistry := h.schemaRegistry
  netParameters := h.netParameters
  dispatchOptions := h.dispatchOptions
  engine := ⟨congrArg (fun l : Log => (l.append fmt clock event).2) h.engine.log,
    h.engine.cachedState, h.engine.firing, h.engine.memo⟩

theorem setIndex (h : Agree net s t) (i j : DedupIndex) :
    Agree net { s with dedupIndex := i } { t with dedupIndex := j } :=
  ⟨h.config, h.topology, h.topology', h.schemaRegistry, h.netParameters, h.dispatchOptions, h.engine⟩

theorem onEngine {α : Type} {f g : Engine → α × Engine} (h : Agree net s t)
    (hengine : (f s.engine).1 = (g t.engine).1 ∧ (f s.engine).2.Alike (g t.engine).2) :
    (s.onEngine f).1 = (t.onEngine g).1 ∧ Agree net (s.onEngine f).2 (t.onEngine g).2 :=
  ⟨hengine.1, h.config, h.topology, h.topology', h.schemaRegistry, h.netParameters,
    h.dispatchOptions, hengine.2⟩

theorem onEngine_of_eq {α : Type} {f g : Engine → α × Engine} (h : Agree net s t)
    (heq : f s.engine = g t.engine) :
    (s.onEngine f).1 = (t.onEngine g).1 ∧ Agree net (s.onEngine f).2 (t.onEngine g).2 :=
  h.onEngine (heq ▸ ⟨rfl, .refl _⟩)

theorem createUnseen (h : Agree net s t) (r : TokenRequest) (fresh : Fresh) :
    (s.createUnseen fmt r fresh).1 = (t.createUnseen fmt r fresh).1 ∧
      Agree net (s.createUnseen fmt r fresh).2 (t.createUnseen fmt r fresh).2 := by
  have hevent : tokenCreatedEvent s.topology s.injectionRegistry r fresh =
      tokenCreatedEvent t.topology t.injectionRegistry r fresh := by
    rw [h.topology, h.topology', h.injectionRegistry_eq]
  unfold Service.createUnseen
  rw [hevent]
  cases tokenCreatedEvent t.topology t.injectionRegistry r fresh with
  | error err => exact ⟨rfl, h⟩
  | ok event =>
    have hfst := h.append_fst fmt (fun _ => fresh.appendedAt) event
    have happend := h.append fmt (fun _ => fresh.appendedAt) event
    cases r.dedupKey? with
    | none => exact ⟨congrArg Except.ok hfst, happend⟩
    | some key => exact ⟨congrArg Except.ok hfst, happend.setIndex _ _⟩

theorem evaluateUntilQuiescent (h : Agree net s t) (d : EvalDraws) (maxSteps : Nat) :
    (s.evaluateUntilQuiescent fmt d maxSteps).1 = (t.evaluateUntilQuiescent fmt d maxSteps).1 ∧
      Agree net (s.evaluateUntilQuiescent fmt d maxSteps).2 (t.evaluateUntilQuiescent fmt d maxSteps).2 := by
  unfold Service.evaluateUntilQuiescent
  rw [h.firingEnv_eq]
  exact h.onEngine (h.engine.evaluateUntilQuiescent fmt t.firingEnv d h.topology' maxSteps)

theorem drainFinalizers (h : Agree net s t) (d : EvalDraws) :
    (s.drainFinalizers fmt d).1 = (t.drainFinalizers fmt d).1 ∧
      Agree net (s.drainFinalizers fmt d).2 (t.drainFinalizers fmt d).2 := by
  unfold Service.drainFinalizers
  rw [h.firingEnv_eq]
  exact h.onEngine_of_eq (h.engine.drainFinalizers_eq fmt t.firingEnv d h.topology')

theorem getMarking (h : Agree net s t) :
    s.getMarking.1 = t.getMarking.1 ∧ Agree net s.getMarking.2 t.getMarking.2 := by
  unfold Service.getMarking
  rw [h.topology, h.topology']
  exact h.onEngine_of_eq (h.engine.advance_eq net)

theorem fireTransition (h : Agree net s t) (clock : Nat → DateTime) (draws : Draws) (tid : TransitionId) :
    (s.fireTransition fmt clock draws tid).1 = (t.fireTransition fmt clock draws tid).1 ∧
      Agree net (s.fireTransition fmt clock draws tid).2 (t.fireTransition fmt clock draws tid).2 := by
  unfold Service.fireTransition
  rw [h.firingEnv_eq, h.topology, h.topology']
  refine h.onEngine_of_eq ?_
  dsimp only
  rw [h.engine.advance_eq net]

end Agree

namespace Alike

theorem ring_eq (h : Alike net s t) : s.ring = t.ring := by
  rw [← h.reflects.ring_eq, ← h.reflects'.ring_eq, h.engine.log]

theorem append_unkeyed (h : Alike net s t) (clock : Nat → DateTime) {event : DomainEvent}
    (hevent : event.dedupKey? = none) : Alike net (s.append fmt clock event).2 (t.append fmt clock event).2 :=
  ⟨h.toAgree.append fmt clock event, h.reflects.append_unkeyed clock hevent,
    h.reflects'.append_unkeyed clock hevent⟩

theorem createInitialTokens (clock : Nat → DateTime) (mint : Nat → TokenId × DateTime) :
    ∀ (tokens : List (PlaceId × TokenColor)) (i : Nat) {s t : Service}, Alike net s t →
      Alike net (createInitialTokens fmt clock mint i tokens s)
        (createInitialTokens fmt clock mint i tokens t)
  | [], _, _, _, h => h
  | _ :: tokens, i, _, _, h =>
    createInitialTokens clock mint tokens (i + 1) (h.append_unkeyed clock rfl)

theorem createTokenWithMeta (h : Alike net s t) (r : TokenRequest) (fresh : Fresh) :
    (s.createTokenWithMeta fmt r fresh).1 = (t.createTokenWithMeta fmt r fresh).1 ∧
      Agree net (s.createTokenWithMeta fmt r fresh).2 (t.createTokenWithMeta fmt r fresh).2 := by
  unfold Service.createTokenWithMeta
  cases r.dedupKey? with
  | none => exact h.toAgree.createUnseen r fresh
  | some key =>
    have hseeded : Agree net { s with dedupIndex := ⟨some t.ring⟩ }
        { t with dedupIndex := ⟨some t.ring⟩ } := h.toAgree.setIndex _ _
    simp only [h.ring_eq]
    cases t.ring.get key with
    | some existing => exact ⟨rfl, hseeded⟩
    | none => exact hseeded.createUnseen r fresh

theorem perform (h : Alike net s t) (op : Op) : (s.perform fmt op).1 = (t.perform fmt op).1 ∧
      Alike net (s.perform fmt op).2 (t.perform fmt op).2 := by
  suffices hagree : (s.perform fmt op).1 = (t.perform fmt op).1 ∧
      Agree net (s.perform fmt op).2 (t.perform fmt op).2 from
    ⟨hagree.1, hagree.2, h.reflects.perform op, h.reflects'.perform op⟩
  cases op with
  | createTokenWithMeta r fresh =>
    exact (h.createTokenWithMeta r fresh).imp_left (congrArg OpResult.event)
  | evaluateUntilQuiescent d maxSteps =>
    exact (h.toAgree.evaluateUntilQuiescent d maxSteps).imp_left (congrArg OpResult.evaluated)
  | fireTransition clock draws tid =>
    exact (h.toAgree.fireTransition clock draws tid).imp_left (congrArg OpResult.event)
  | drainFinalizers d => exact (h.toAgree.drainFinalizers d).imp_left (congrArg OpResult.drained)
  | getMarking => exact h.toAgree.getMarking.imp_left (congrArg OpResult.marking)

/-- **Services that are alike stay alike** and answer every sequence of operations the same way. -/
theorem performAll : ∀ (ops : List Op) {s t : Service}, Alike net s t →
    (s.performAll fmt ops).1 = (t.performAll fmt ops).1 ∧
      Alike net (s.performAll fmt ops).2 (t.performAll fmt ops).2
  | [], _, _, h => ⟨rfl, h⟩
  | op :: ops, _, _, h => by
    obtain ⟨hres, hnext⟩ := h.perform op
    obtain ⟨hrest, hend⟩ := performAll ops hnext
    exact ⟨congrArg₂ List.cons hres hrest, hend⟩

theorem sameRuns (h : Alike net s t) : SameRuns fmt s t :=
  fun ops => ⟨(h.performAll ops).1, (h.performAll ops).2.engine.log⟩

end Alike

/-! ## Clearing and resetting -/

theorem NothingLeftBehind.forget_alike (h : s.NothingLeftBehind) (net : PetriNet)
    (registry : Option SchemaRegistry) :
    Alike net { s.forget with topology := some net, schemaRegistry := registry }
      { s.fresh with topology := some net, schemaRegistry := registry } where
  config := rfl
  topology := rfl
  topology' := rfl
  schemaRegistry := rfl
  netParameters := h.netParameters
  dispatchOptions := h.dispatchOptions
  engine := ⟨rfl, rfl, congrArg (FiringState.mk · 0) h.budgets, Or.inl rfl⟩
  reflects := by
    have hring : s.forget.ring = BoundedFifo.withCap s.engine.log.store.dedupCap := by
      cases hcell : s.dedupIndex.cell with
      | none => rw [ring, forget, DedupIndex.ensure, hcell]; rfl
      | some r => rw [ring, forget, DedupIndex.ensure, hcell]; exact h.dedupIndex r hcell
    show s.engine.log.reset.Fills s.forget.ring
    rw [hring]
    exact s.engine.log.fills_reset
  reflects' := s.engine.log.fills_reset

theorem reset_eq (hnet : s.topology = some net) (clock : Nat → DateTime) (mint : Nat → TokenId × DateTime) :
    s.reset fmt clock mint = Service.createInitialTokens fmt clock mint 0 s.initialTokens
      ({ s.forget with topology := some net }.append fmt clock (.netInitialized net)).2 := by
  obtain ⟨config, engine, topology⟩ := s
  obtain rfl : topology = some net := hnet
  rfl

end Service

open Service

/-- **A cleared or reset service is like a new one when nothing is left in what it keeps**: an index
without entries, default dispatch options, no parameters and no defer counts. -/
theorem service_forgets (fmt : EventFormat) (s : Service) (h : s.NothingLeftBehind) : s.Forgets fmt where
  clear clock net := by
    have halike : Alike net (s.clear.initializeNet fmt clock net)
        (s.fresh.initializeNet fmt clock net) :=
      (h.forget_alike net none).append_unkeyed clock rfl
    exact ⟨halike.sameRuns, halike.reflects.returnsLogged⟩
  reset clock mint net hnet := by
    have halike : Alike net (s.reset fmt clock mint)
        (createInitialTokens fmt clock mint 0 s.initialTokens
          ({ s.fresh with schemaRegistry := s.schemaRegistry }.initializeNet fmt clock net)) := by
      rw [reset_eq hnet]
      exact ((h.forget_alike net s.schemaRegistry).append_unkeyed clock rfl).createInitialTokens
        clock mint s.initialTokens 0
    exact ⟨halike.sameRuns, halike.reflects.returnsLogged⟩

/-! ## An index that is kept -/

/-- A new service on a net with one place `inbox`, after one injection with this dedup id. -/
def injectedOnce (dedupId : Option String) : Service :=
  (((Service.new .plain 100 8).initializeNet .plain (fun _ => ⟨0⟩)
    (PetriNet.new.addPlace (.signal "inbox"))).createTokenWithMeta .plain
      ⟨⟨"inbox"⟩, .unit, none, none, dedupId⟩ ⟨⟨1⟩, ⟨0⟩, ⟨""⟩, ⟨0⟩⟩).2

theorem service_forgets_unkeyed :
    (injectedOnce none).engine.log.history.length = 2 ∧ (injectedOnce none).Forgets .plain :=
  ⟨rfl, service_forgets .plain _
    ⟨fun ring h => absurd h.symm (Option.some_ne_none ring), rfl, rfl, rfl⟩⟩

theorem not_forgets_of_indexed {fmt : EventFormat} {s : Service} {ring : BoundedDedup}
    {p : PlaceId} {dedupId : String} {e : PersistedEvent}
    (hcell : s.dedupIndex.cell = some ring) (hget : ring.get (p, dedupId) = some e)
    (hid : dedupId ≠ "") : ¬ s.Forgets fmt := by
  intro h
  let t := s.clear.initializeNet fmt (fun _ => ⟨0⟩) .new
  have hring : t.ring = ring := by
    show DedupIndex.ensure s.dedupIndex _ = ring
    rw [DedupIndex.ensure, hcell]
  have hkey : (⟨p, .unit, none, none, some dedupId⟩ : TokenRequest).dedupKey? =
      some (p, dedupId) := if_neg hid
  -- The lookup comes before the check of the place, so any net will do.
  have hhit : t.createTokenWithMeta fmt ⟨p, .unit, none, none, some dedupId⟩
      ⟨⟨1⟩, ⟨0⟩, ⟨""⟩, ⟨0⟩⟩ = (.ok e, { t with dedupIndex := ⟨some t.ring⟩ }) :=
    createTokenWithMeta_of_hit _ hkey (hring ▸ hget)
  obtain ⟨hmem, hlogged⟩ := (h.clear (fun _ => ⟨0⟩) .new).2 [] _ _ _ e hkey (congrArg Prod.fst hhit)
  rw [performAll, hhit] at hmem
  -- The log holds the initialisation alone.
  have hinit : e.event = .netInitialized .new := by
    rw [List.mem_singleton.mp hmem]
    rfl
  rw [hinit] at hlogged
  exact absurd hlogged.symm (Option.some_ne_none _)

/-- **The index survives a `clear`**: the message `m1` is injected, the service is cleared and loaded
again, and the redelivered message is answered with the event of the run before. -/
theorem clear_keepsIndex : ¬ (injectedOnce (some "m1")).Forgets .plain := by
  have hid : "m1" ≠ "" := by decide
  exact not_forgets_of_indexed (p := ⟨"inbox"⟩) rfl rfl hid

end Mekhan

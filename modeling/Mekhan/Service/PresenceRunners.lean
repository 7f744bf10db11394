import Mekhan.Service.PresenceCore

/-!
# The runner presence controller

`service/src/presence/runners.rs`: the subscriber that handles the heartbeats one after the other
(`handle_presence`) and the sweep that expires runners, beside the presence pool they drive. Between
any two steps of the handler the sweep, the engine and the claimants may take theirs.

A runner goes by the text of its id. What the database and the clock answer is part of the action
that asks; whether a runner's time to live is over is left open. The advisory facets of an entry
(backends, host, alias) and the fleet mirror are left out.
-/

namespace Mekhan

open Infra

/-! ## Injections -/

def acquireInjection (runnerId : String) (slot : Nat) (epoch : Int) (executorNamespace : String)
    (caps : Json) : PoolInjection :=
  let unitId := runnerId ++ "#" ++ toString slot ++ "@" ++ toString epoch
  { sourceNetId := "mekhan-presence-controller"
    sourcePlaceName := "presence"
    tokenColor := [("unit_id", .str unitId), ("runner_id", .str runnerId),
      ("executor_namespace", .str executorNamespace), ("caps", caps)]
    signalKey := "presence-acquire-" ++ unitId
    dedupId := "presence-acquire:" ++ unitId }

/-- `expire_signal`: the runner, and nothing of the unit it is to reap. -/
def expireSignal (runnerId : String) (nowMs : Int) : PoolSignal where
  source := "presence"
  signalKey := "presence-expire-" ++ runnerId ++ "-" ++ toString nowMs
  payload := [("runner_id", .str runnerId)]

/-- `count_units_in_marking`: the runner's tokens in `pool` and `in_use`. -/
def countUnitsInMarking (marking : PoolMarking) (runnerId : String) : Nat :=
  ([PoolPlace.pool, .inUse].map fun place =>
    marking.countP fun x => x.1 = place ∧ (Rhai.prop x.2 "runner_id").asStr? = some runnerId).sum

def slotsToReconcile (existing targetC : Nat) : Nat :=
  ((growSlots false existing targetC).map fun r => r.2 - r.1).getD 0

theorem slotsToReconcile_eq (existing targetC : Nat) :
    slotsToReconcile existing targetC = targetC - existing := by
  by_cases h : targetC ≤ existing
  · simp only [slotsToReconcile, growSlots, h, or_true, if_true, Option.map_none, Option.getD_none]
    omega
  · simp [slotsToReconcile, growSlots, h]

/-- The acquires for `need` slots, one injection each. -/
def mintSlots (runnerId : String) (need : Nat) (epoch : Int) (caps : Json) : List PoolInjection :=
  (List.range need).map fun slot =>
    acquireInjection runnerId slot epoch ("runner-jobs/" ++ runnerId) caps

/-! ## The controller -/

/-- `PresenceEntry`, as far as admission reads it. -/
structure PresenceEntry where
  /-- The entry has a pool net id; a liveness-only entry has none. -/
  pooled : Bool
  concurrency : Nat
  present : Bool

/-- What `load_live_runner` and `resolve_pool_net_id` answer for a runner. -/
inductive RunnerRow where
  | unknown
  | poolLess
  | pooled (capabilities : Json)

/-- How far the subscriber is with the heartbeat it handles. -/
inductive Handler where
  | idle
  /-- Before the engine is asked for the runner's units. On the absent→present edge the runner's
  capabilities are loaded already. -/
  | counting (runnerId : String) (concurrency : Nat) (edge : Option Json)
  | injecting (runnerId : String) (concurrency : Nat) (edge : Bool) (rest : List PoolInjection)

structure RunnerPool extends PoolBus where
  entries : HashMap String PresenceEntry
  handler : Handler
  /-- The expire signals the sweep has still to publish. -/
  expiring : List PoolSignal

inductive RunnerAction where
  /-- A heartbeat is taken up; `row` is asked only for a runner that is not present. -/
  | heartbeat (runnerId : String) (concurrency : Nat) (row : RunnerRow)
  /-- The engine's answer comes back, or an error; `capabilities` is the row of a present runner. -/
  | count (readable : Bool) (capabilities : Option Json) (epoch : Int)
  /-- The next acquire is published, or the publish fails. -/
  | acquire (stored : Bool)
  | commit
  /-- The sweep finds the runner past its time to live. -/
  | sweep (runnerId : String) (nowMs : Int)
  /-- The next expire signal is published, or the publish fails. -/
  | expire (stored : Bool)
  | deliver (message : PoolMessage)
  | pool (a : PoolNet.Action)

namespace RunnerPool

def init (cap : Nat) : RunnerPool where
  toPoolBus := .init cap
  entries := ∅
  handler := .idle
  expiring := []

/-- The acquires the handler has still to publish. -/
def minting (s : RunnerPool) : List PoolInjection :=
  match s.handler with
  | .injecting _ _ _ rest => rest
  | _ => []

/-- Only the controller admits units and expires them. -/
def ofOthers : PoolNet.Action → Bool
  | .arrive .presenceAcquire _ => false
  | .arrive .presenceExpired _ => false
  | _ => true

/-- `handle_presence` on the absent→present edge, up to the engine read. -/
def onAbsent (s : RunnerPool) (runnerId : String) (concurrency : Nat) (row : RunnerRow) :
    RunnerPool :=
  match row with
  | .unknown => s
  | .poolLess => { s with entries := s.entries.insert runnerId ⟨false, 0, true⟩ }
  | .pooled capabilities =>
    { s with handler := .counting runnerId concurrency (some capabilities) }

/-- `handle_presence` up to the engine read. -/
def handlePresence (s : RunnerPool) (runnerId : String) (concurrency : Nat) (row : RunnerRow) :
    RunnerPool :=
  match s.entries.lookup runnerId with
  | some entry =>
    if entry.present then
      { s with
        entries := s.entries.insert runnerId { entry with concurrency := concurrency }
        handler := if entry.pooled then .counting runnerId concurrency none else .idle }
    -- Known but absent: it was reaped, and comes back like a new runner.
    else s.onAbsent runnerId concurrency row
  | none => s.onAbsent runnerId concurrency row

/-- `count_runner_units` and the slots that follow from it. An error counts as a full pool. -/
def missingSlots (s : RunnerPool) (runnerId : String) (concurrency : Nat) (readable : Bool)
    (capabilities : Option Json) (epoch : Int) : List PoolInjection :=
  let existing := if readable then countUnitsInMarking s.marking runnerId else concurrency
  match capabilities with
  | some caps => mintSlots runnerId (slotsToReconcile existing concurrency) epoch caps
  | none => []

/-- The reap order of the sweep: one signal for each slot of the entry. -/
def expireEntry (runnerId : String) (entry : PresenceEntry) (nowMs : Int) : List PoolSignal :=
  if entry.pooled then
    List.replicate entry.concurrency (expireSignal runnerId nowMs)
  else []

def step (acceptance : Acceptance) (s : RunnerPool) : RunnerAction → Option RunnerPool
  | .heartbeat runnerId concurrency row =>
    match s.handler with
    | .idle => some (s.handlePresence runnerId concurrency row)
    | _ => none
  | .count readable capabilities epoch =>
    match s.handler with
    | .counting runnerId concurrency edge =>
      let found := s.missingSlots runnerId concurrency readable (edge.or capabilities) epoch
      some { s with handler := .injecting runnerId concurrency edge.isSome found }
    | _ => none
  | .acquire stored =>
    match s.handler with
    | .injecting runnerId concurrency edge (inj :: rest) =>
      some { s with
        handler := .injecting runnerId concurrency edge rest
        inFlight := if stored then .acquire inj :: s.inFlight else s.inFlight }
    | _ => none
  | .commit =>
    match s.handler with
    | .injecting runnerId concurrency edge [] =>
      some { s with
        handler := .idle
        entries := if edge then s.entries.insert runnerId ⟨true, concurrency, true⟩ else s.entries }
    | _ => none
  | .sweep runnerId nowMs =>
    match s.entries.lookup runnerId with
    | some entry =>
      if entry.present then
        some { s with
          entries := s.entries.insert runnerId { entry with present := false, concurrency := 0 }
          expiring := s.expiring ++ expireEntry runnerId entry nowMs }
      else none
    | none => none
  | .expire stored =>
    match s.expiring with
    | sig :: rest =>
      some { s with
        expiring := rest
        inFlight := if stored then .expire sig :: s.inFlight else s.inFlight }
    | [] => none
  | .deliver message =>
    (s.toPoolBus.deliver message).map fun bus => { s with toPoolBus := bus }
  | .pool a =>
    if ofOthers a then
      (PoolNet.step (.presence acceptance) s.marking a).map fun marking =>
        { s with marking := marking }
    else none

/-! ## What a step does -/

/-- The tokens on their way to the net: in flight, or still to be published. -/
def awayOf (inFlight : List PoolMessage) (minting : List PoolInjection)
    (expiring : List PoolSignal) : PoolMarking :=
  ↑(inFlight.map PoolMessage.token) + ↑(minting.map fun inj => (PoolMessage.acquire inj).token) +
    ↑(expiring.map fun sig => (PoolMessage.expire sig).token)

def away (s : RunnerPool) : PoolMarking := awayOf s.inFlight s.minting s.expiring

section

variable (inFlight : List PoolMessage) (minting : List PoolInjection) (expiring : List PoolSignal)

theorem awayOf_minting : awayOf inFlight minting expiring =
    awayOf inFlight [] expiring + ↑(minting.map fun inj => (PoolMessage.acquire inj).token) := by
  simp only [awayOf, List.map_nil, Multiset.coe_nil, add_zero]
  exact add_right_comm ..

theorem awayOf_cons_minting (inj : PoolInjection) : awayOf inFlight (inj :: minting) expiring =
    (PoolMessage.acquire inj).token ::ₘ awayOf inFlight minting expiring := by
  simp only [awayOf, List.map_cons, ← Multiset.cons_coe, Multiset.add_cons, Multiset.cons_add]

theorem awayOf_cons_expiring (sig : PoolSignal) : awayOf inFlight minting (sig :: expiring) =
    (PoolMessage.expire sig).token ::ₘ awayOf inFlight minting expiring := by
  simp only [awayOf, List.map_cons, ← Multiset.cons_coe, Multiset.add_cons]

theorem awayOf_cons_inFlight (message : PoolMessage) : awayOf (message :: inFlight) minting expiring =
      message.token ::ₘ awayOf inFlight minting expiring := by
  simp only [awayOf, List.map_cons, ← Multiset.cons_coe, Multiset.cons_add]

theorem awayOf_append_expiring (added : List PoolSignal) : awayOf inFlight minting (expiring ++ added) =
      awayOf inFlight minting expiring + ↑(added.map fun sig => (PoolMessage.expire sig).token) := by
  simp only [awayOf, List.map_append, ← Multiset.coe_add, add_assoc]

theorem awayOf_perm {inFlight inFlight' : List PoolMessage} (h : inFlight.Perm inFlight') :
    awayOf inFlight minting expiring = awayOf inFlight' minting expiring := by
  rw [awayOf, awayOf, Multiset.coe_eq_coe.mpr (h.map _)]

end

/-- What a step can do to the net, to the tokens on their way to it and to the handler. -/
inductive Stepped (acceptance : Acceptance) (s s' : RunnerPool) : RunnerAction → Prop
  | heartbeat {runnerId : String} {concurrency : Nat} {row : RunnerRow}
      (hmarking : s'.marking = s.marking) (haway : s'.away = s.away)
      (hhandler : s'.handler = .idle ∨
        ∃ edge, s'.handler = .counting runnerId concurrency edge) :
      Stepped acceptance s s' (.heartbeat runnerId concurrency row)
  | count {readable : Bool} {capabilities : Option Json} {epoch : Int} {runnerId : String}
      {concurrency : Nat} {edge : Option Json} {found : List PoolInjection}
      (hcounting : s.handler = .counting runnerId concurrency edge)
      (hfound : found =
        s.missingSlots runnerId concurrency readable (edge.or capabilities) epoch)
      (hmarking : s'.marking = s.marking)
      (haway : s'.away = s.away + ↑(found.map fun inj => (PoolMessage.acquire inj).token))
      (hhandler : s'.handler = .injecting runnerId concurrency edge.isSome found) :
      Stepped acceptance s s' (.count readable capabilities epoch)
  | acquire {stored : Bool} {inj : PoolInjection} (hmarking : s'.marking = s.marking)
      (haway : s'.away = s.away ∨ s.away = (PoolMessage.acquire inj).token ::ₘ s'.away)
      (hhandler : ∃ runnerId concurrency edge rest,
        s'.handler = .injecting runnerId concurrency edge rest) :
      Stepped acceptance s s' (.acquire stored)
  | commit (hmarking : s'.marking = s.marking) (haway : s'.away = s.away)
      (hhandler : s'.handler = .idle) : Stepped acceptance s s' .commit
  | sweep {runnerId : String} {nowMs : Int} {entry : PresenceEntry}
      (hentry : s.entries.lookup runnerId = some entry) (hmarking : s'.marking = s.marking)
      (haway : s'.away = s.away +
        ↑((expireEntry runnerId entry nowMs).map fun sig => (PoolMessage.expire sig).token))
      (hhandler : s'.handler = s.handler) : Stepped acceptance s s' (.sweep runnerId nowMs)
  | expire {stored : Bool} {sig : PoolSignal} {rest : List PoolSignal}
      (hexpiring : s.expiring = sig :: rest) (hmarking : s'.marking = s.marking)
      (haway : s'.away = s.away ∨
        stored = false ∧ s.away = (PoolMessage.expire sig).token ::ₘ s'.away)
      (hhandler : s'.handler = s.handler) : Stepped acceptance s s' (.expire stored)
  | deliver {message : PoolMessage}
      (hmarking : s'.marking = message.token ::ₘ s.marking ∨
        s'.marking = s.marking ∧ message.dedupId ≠ none)
      (haway : s.away = message.token ::ₘ s'.away) (hhandler : s'.handler = s.handler) :
      Stepped acceptance s s' (.deliver message)
  | pool {a : PoolNet.Action} (hothers : ofOthers a = true)
      (hmarking : PoolNet.step (.presence acceptance) s.marking a = some s'.marking)
      (haway : s'.away = s.away) (hhandler : s'.handler = s.handler) :
      Stepped acceptance s s' (.pool a)

theorem handlePresence_cases (s : RunnerPool) (hidle : s.handler = .idle) (runnerId : String)
    (concurrency : Nat) (row : RunnerRow) :
    (s.handlePresence runnerId concurrency row).toPoolBus = s.toPoolBus ∧
      (s.handlePresence runnerId concurrency row).expiring = s.expiring ∧
      ((s.handlePresence runnerId concurrency row).handler = .idle ∨
        ∃ edge, (s.handlePresence runnerId concurrency row).handler =
          .counting runnerId concurrency edge) := by
  have habsent : (s.onAbsent runnerId concurrency row).toPoolBus = s.toPoolBus ∧
      (s.onAbsent runnerId concurrency row).expiring = s.expiring ∧
      ((s.onAbsent runnerId concurrency row).handler = .idle ∨
        ∃ edge, (s.onAbsent runnerId concurrency row).handler =
          .counting runnerId concurrency edge) := by
    cases row with
    | unknown => exact ⟨rfl, rfl, Or.inl hidle⟩
    | poolLess => exact ⟨rfl, rfl, Or.inl hidle⟩
    | pooled capabilities => exact ⟨rfl, rfl, Or.inr ⟨some capabilities, rfl⟩⟩
  unfold handlePresence
  split
  · next entry hentry =>
    split
    · refine ⟨rfl, rfl, ?_⟩
      show (if entry.pooled then _ else _) = _ ∨ _
      cases entry.pooled with
      | true => exact Or.inr ⟨none, rfl⟩
      | false => exact Or.inl rfl
    · exact habsent
  · exact habsent

theorem stepped {acceptance : Acceptance} {s s' : RunnerPool} {a : RunnerAction}
    (h : step acceptance s a = some s') : Stepped acceptance s s' a := by
  cases a with
  | heartbeat runnerId concurrency row =>
    simp only [step] at h
    split at h
    · next hidle =>
      cases h
      obtain ⟨hbus, hexpiring, hhandler⟩ := handlePresence_cases s hidle runnerId concurrency row
      refine .heartbeat (congrArg PoolBus.marking hbus) ?_ hhandler
      have hminting : (s.handlePresence runnerId concurrency row).minting = s.minting := by
        rcases hhandler with hh | ⟨edge, hh⟩ <;> rw [minting, minting, hidle, hh]
      rw [away, away, hbus, hminting, hexpiring]
    · cases h
  | count readable capabilities epoch =>
    simp only [step] at h
    split at h
    · next runnerId concurrency edge hcounting =>
      cases h
      refine .count hcounting rfl rfl ?_ rfl
      have hminting : s.minting = [] := by rw [minting, hcounting]
      rw [away, away, hminting]
      exact awayOf_minting ..
    · cases h
  | acquire stored =>
    simp only [step] at h
    split at h
    · next runnerId concurrency edge inj rest hinjecting =>
      cases h
      have hminting : s.minting = inj :: rest := by rw [minting, hinjecting]
      have haway : s.away = (PoolMessage.acquire inj).token ::ₘ awayOf s.inFlight rest s.expiring := by
        rw [away, hminting, awayOf_cons_minting]
      refine @Stepped.acquire _ _ _ _ inj rfl ?_ ⟨runnerId, concurrency, edge, rest, rfl⟩
      rw [haway]
      cases stored with
      | true => exact Or.inl (awayOf_cons_inFlight ..)
      | false => exact Or.inr rfl
    · cases h
  | commit =>
    simp only [step] at h
    split at h
    · next runnerId concurrency edge hinjecting =>
      cases h
      refine .commit rfl ?_ rfl
      simp only [away, minting, hinjecting]
    · cases h
  | sweep runnerId nowMs =>
    simp only [step] at h
    split at h
    · next entry hentry =>
      split at h
      · cases h
        refine .sweep hentry rfl ?_ rfl
        exact awayOf_append_expiring ..
      · cases h
    · cases h
  | expire stored =>
    simp only [step] at h
    split at h
    · next sig rest hexpiring =>
      cases h
      have haway : s.away = (PoolMessage.expire sig).token ::ₘ awayOf s.inFlight s.minting rest := by
        rw [away, hexpiring, awayOf_cons_expiring]
      refine .expire hexpiring rfl ?_ rfl
      rw [haway]
      cases stored with
      | true => exact Or.inl (awayOf_cons_inFlight ..)
      | false => exact Or.inr ⟨rfl, rfl⟩
    · cases h
  | deliver message =>
    obtain ⟨bus, hbus, rfl⟩ := Option.map_eq_some_iff.mp h
    obtain ⟨hmem, hflight, hmarking⟩ := PoolBus.deliver_cases hbus
    refine .deliver (hmarking.imp id fun ⟨hkept, id, hid, _⟩ => ⟨hkept, by simp [hid]⟩) ?_ rfl
    rw [away, awayOf_perm _ _ (List.perm_cons_erase hmem), awayOf_cons_inFlight, ← hflight]
    rfl
  | pool a =>
    simp only [step] at h
    split at h
    · next hothers =>
      obtain ⟨marking, hmarking, rfl⟩ := Option.map_eq_some_iff.mp h
      exact .pool hothers hmarking rfl rfl
    · cases h

end RunnerPool

end Mekhan

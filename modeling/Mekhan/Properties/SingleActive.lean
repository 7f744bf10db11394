import Mekhan.Infra.Runs
import Mekhan.Triggers.Coalesce

/-!
# One active instance, and no fire forgotten

With `SingleActiveCoalesce` never more than one of the instances that fires spawned is to run (`alone`).
What was coalesced is meant to be made up for by one follow-up with the most recent token, and a failed
launch to leave the trigger as it was. That goes wrong in five ways: a failed launch that is not rolled back
clears its mark while its instance is there; a spawn that fails before its launch leaves its mark for ever; a
failed launch forgets what was coalesced meanwhile; a failed look-up of the ended instance's row leaves the
mark; and the follow-up goes through the payload mapping again, with the token for its payload.
-/

namespace Mekhan

namespace SingleActive

open Infra Triggers

variable {eval : List (String × Json) → String → Except String Json} {impl : MapImpl}
  {targets : String → Option TriggerTarget} {d d' : Dispatcher}

/-! ## The property -/

/-- No launch is in progress, no instance is running, and every notification is handled. -/
structure Quiescent (d : Dispatcher) : Prop where
  spawns : ∀ spawn ∈ d.spawns, (spawn.phase = .returned ∨ spawn.phase = .failed) ∧ spawn.row ≠ some .running
  notifications : d.notifications = []
  followUps : d.followUps = []

/-- The most recent coalesced fire was followed by a spawn with its token. -/
def Dispatched (log : List GateEvent) : Prop :=
  ∀ later nodeId token earlier, log = later ++ .coalesced nodeId token :: earlier →
    (∀ n t, .coalesced n t ∉ later) → ∃ i, .spawned i token ∈ later

/-- No two spawned instances run at a time. -/
def Alone (d : Dispatcher) : Prop :=
  ∀ (i j : Nat) (s t : Spawn), d.spawns[i]? = some s → d.spawns[j]? = some t →
    s.row = some .running → t.row = some .running → i = j

/-- What a template in single-active mode promises. -/
structure SingleActiveCoalesce (d : Dispatcher) : Prop where
  alone : Alone d
  settled : Quiescent d → d.concurrency.activeInstanceId = none ∧ Dispatched d.log

/-- A failed launch is rolled back. -/
def RolledBack (_ : Dispatcher) : DispatcherAction → Prop
  | .launchFails _ rolledBack => rolledBack = true
  | _ => True

/-- What a step has to meet: the bindings of a spawn are prepared; a failed launch is rolled back, and nothing
was coalesced when it is unwound; the row of an ended instance is looked up; and a follow-up is admitted, with
a token that the mapping leaves as it is. -/
def MadeUp (eval : List (String × Json) → String → Except String Json) (impl : MapImpl)
    (targets : String → Option TriggerTarget) (d : Dispatcher) : DispatcherAction → Prop
  | .prepare _ succeeds => succeeds = true
  | .launchFails _ rolledBack => rolledBack = true
  | .unwind i => d.concurrency.activeInstanceId = some i → d.concurrency.dirty = false
  | .onInstanceTerminal i succeeds => d.concurrency.activeInstanceId = some i → succeeds = true
  | .followUp nodeId token admitted => admitted = true ∧ fireToken eval impl targets nodeId token = some token
  | _ => True

/-! ## One at a time -/

/-- The instance is being launched or runs. -/
def Busy (spawn : Spawn) : Prop :=
  spawn.phase = .preparing ∨ spawn.phase = .launching ∨ spawn.row = some .running

/-- What is busy is marked active, only a created instance has a row, and what has been notified of is
not busy. -/
structure Marked (d : Dispatcher) : Prop where
  active : ∀ (i : Nat) (s : Spawn), d.spawns[i]? = some s → Busy s → d.concurrency.activeInstanceId = some i
  rows : ∀ (i : Nat) (s : Spawn), d.spawns[i]? = some s → s.row ≠ none → s.phase = .created ∨ s.phase = .returned
  ended : ∀ i ∈ d.notifications, ∃ s, d.spawns[i]? = some s ∧ ¬ Busy s

theorem Marked.alone (h : Marked d) : Alone d := by
  intro i j s t hs ht hsrow htrow
  have hi := h.active i s hs (.inr (.inr hsrow))
  have hj := h.active j t ht (.inr (.inr htrow))
  exact Option.some.inj (hi.symm.trans hj)

theorem marked_initial : Marked Dispatcher.initial where
  active i s hs := absurd hs (by simp [Dispatcher.initial])
  rows i s hs := absurd hs (by simp [Dispatcher.initial])
  ended i hi := absurd hi List.not_mem_nil

variable {i : Nat} {s spawn t : Spawn} {nodeId : String} {token : Json}

variable {j : Nat} {l : List Spawn} {act : DispatcherAction}

theorem getElem?_setSpawn (hspawn : d.spawns[i]? = some spawn)
    (ht : (d.setSpawn i s).spawns[j]? = some t) : (j = i ∧ t = s) ∨ (j ≠ i ∧ d.spawns[j]? = some t) := by
  unfold Dispatcher.setSpawn at ht
  dsimp only at ht
  rw [List.getElem?_set] at ht
  rw [if_pos (List.getElem?_eq_some_iff.mp hspawn).1] at ht
  split at ht
  case isTrue heq =>
    exact .inl ⟨heq.symm, (Option.some.inj ht).symm⟩
  case isFalse hne => exact .inr ⟨fun h => hne h.symm, ht⟩

theorem getElem?_setSpawn_self (hspawn : d.spawns[i]? = some spawn) :
    (d.setSpawn i s).spawns[i]? = some s := by
  unfold Dispatcher.setSpawn
  dsimp only
  rw [List.getElem?_set_self (List.getElem?_eq_some_iff.mp hspawn).1]

theorem getElem?_setSpawn_ne (hne : j ≠ i) : (d.setSpawn i s).spawns[j]? = d.spawns[j]? := by
  unfold Dispatcher.setSpawn
  dsimp only
  rw [List.getElem?_set_ne (Ne.symm hne)]

theorem Marked.setSpawn (h : Marked d) (hspawn : d.spawns[i]? = some spawn)
    (hbusy : Busy s → Busy spawn) (hrows : s.row ≠ none → s.phase = .created ∨ s.phase = .returned) :
    Marked (d.setSpawn i s) := by
  constructor
  case active =>
    intro j t ht htbusy
    rcases getElem?_setSpawn hspawn ht with ⟨rfl, rfl⟩ | ⟨-, hold⟩
    · exact h.active j spawn hspawn (hbusy htbusy)
    · exact h.active j t hold htbusy
  case rows =>
    intro j t ht
    rcases getElem?_setSpawn hspawn ht with ⟨-, rfl⟩ | ⟨-, hold⟩
    · exact hrows
    · exact h.rows j t hold
  case ended =>
    intro j hj
    obtain ⟨t, ht, hnot⟩ := h.ended j hj
    by_cases heq : j = i
    · subst heq
      obtain rfl : spawn = t := Option.some.inj (hspawn.symm.trans ht)
      exact ⟨s, getElem?_setSpawn_self hspawn, fun hs => hnot (hbusy hs)⟩
    · exact ⟨t, (getElem?_setSpawn_ne heq).trans ht, hnot⟩

theorem fireSpawn_of_active {active : Nat}
    (h : d.concurrency.activeInstanceId = some active) : d.fireSpawn nodeId token =
      { d with concurrency := ⟨some active, true, some (nodeId, token)⟩, log := .coalesced nodeId token :: d.log } := by
  unfold Dispatcher.fireSpawn
  rw [h]

theorem fireSpawn_of_none (h : d.concurrency.activeInstanceId = none) : d.fireSpawn nodeId token = { d with
        concurrency := { d.concurrency with activeInstanceId := some d.spawns.length }
        spawns := d.spawns ++ [⟨nodeId, token, .preparing, none⟩]
        log := .spawned d.spawns.length token :: d.log } := by
  unfold Dispatcher.fireSpawn
  rw [h]

theorem getElem?_concat (h : (l ++ [t])[i]? = some s) : l[i]? = some s ∨ (i = l.length ∧ s = t) := by
  rcases Nat.lt_trichotomy i l.length with hlt | rfl | hgt
  · exact .inl (by rwa [List.getElem?_append_left hlt] at h)
  · refine .inr ⟨rfl, ?_⟩
    rw [List.getElem?_concat_length] at h
    exact (Option.some.inj h).symm
  · rw [List.getElem?_eq_none (by rw [List.length_append, List.length_singleton]; omega)] at h
    cases h

theorem getElem?_concat_of_some (h : l[i]? = some s) : (l ++ [t])[i]? = some s := by
  rw [List.getElem?_append_left (List.getElem?_eq_some_iff.mp h).1]
  exact h

theorem Marked.fireSpawn (h : Marked d) (nodeId : String) (token : Json) :
    Marked (d.fireSpawn nodeId token) := by
  cases hactive : d.concurrency.activeInstanceId with
  | some active =>
    rw [fireSpawn_of_active hactive]
    exact ⟨fun i s hs hbusy => hactive.symm.trans (h.active i s hs hbusy), h.rows, h.ended⟩
  | none =>
    rw [fireSpawn_of_none hactive]
    constructor
    case active =>
      intro i s hs hbusy
      rcases getElem?_concat hs with hold | ⟨rfl, -⟩
      · exact absurd (hactive.symm.trans (h.active i s hold hbusy)) nofun
      · rfl
    case rows =>
      intro i s hs
      rcases getElem?_concat hs with hold | ⟨-, rfl⟩
      · exact h.rows i s hold
      · exact fun hrow => absurd rfl hrow
    case ended =>
      intro i hi
      obtain ⟨s, hs, hnot⟩ := h.ended i hi
      exact ⟨s, getElem?_concat_of_some hs, hnot⟩

theorem Marked.clearActive (h : Marked d) (hidle : ∀ s, d.spawns[i]? = some s → ¬ Busy s) :
    Marked { d with concurrency := Dispatcher.clearActive d.concurrency i } := by
  refine ⟨fun j s hs hbusy => ?_, h.rows, h.ended⟩
  have hj := h.active j s hs hbusy
  show (Dispatcher.clearActive d.concurrency i).activeInstanceId = some j
  unfold Dispatcher.clearActive
  split
  case isFalse => exact hj
  case isTrue hi =>
    obtain rfl : i = j := Option.some.inj (hi.symm.trans hj)
    exact absurd hbusy (hidle s hs)

theorem closeActive_active (c : CoalesceState) : (Dispatcher.closeActive c).1.activeInstanceId = none := by
  unfold Dispatcher.closeActive
  split <;> rfl

theorem marked_step (h : Marked d) (hcond : RolledBack d act) (hs : d.step eval impl targets act = some d') : Marked d' := by
  cases act with
  | fire nodeId eventPayload =>
    obtain ⟨token, -, rfl⟩ := Option.map_eq_some_iff.mp hs
    exact h.fireSpawn nodeId token
  | prepare i succeeds =>
    obtain ⟨spawn, hspawn, hs⟩ := Option.bind_eq_some_iff.mp hs
    split at hs
    case h_2 => cases hs
    case h_1 hphase =>
      cases hs
      refine h.setSpawn hspawn (fun _ => .inl hphase) fun hrow => ?_
      exact absurd (h.rows i spawn hspawn hrow) (by rw [hphase]; nofun)
  | create i =>
    obtain ⟨spawn, hspawn, hs⟩ := Option.bind_eq_some_iff.mp hs
    split at hs
    case h_2 => cases hs
    case h_1 hphase =>
      cases hs
      exact h.setSpawn hspawn (fun _ => .inr (.inl hphase)) fun _ => .inl rfl
  | launched i =>
    obtain ⟨spawn, hspawn, hs⟩ := Option.bind_eq_some_iff.mp hs
    split at hs
    case h_2 => cases hs
    case h_1 hphase =>
      cases hs
      refine h.setSpawn hspawn (fun hbusy => ?_) fun _ => .inr rfl
      rcases hbusy with hnot | hnot | hrow
      · cases hnot
      · cases hnot
      · exact .inr (.inr hrow)
  | launchFails i rolledBack =>
    obtain ⟨spawn, hspawn, hs⟩ := Option.bind_eq_some_iff.mp hs
    obtain rfl : rolledBack = true := hcond
    have hidle : ¬ Busy { spawn with phase := .failing, row := none } := by
      rintro (hnot | hnot | hnot) <;> cases hnot
    split at hs
    case h_3 => cases hs
    all_goals
      cases hs
      exact h.setSpawn hspawn (fun hbusy => absurd hbusy hidle) fun hrow => absurd rfl hrow
  | unwind i =>
    obtain ⟨spawn, hspawn, hs⟩ := Option.bind_eq_some_iff.mp hs
    split at hs
    case h_2 => cases hs
    case h_1 hphase =>
      cases hs
      have hrow : spawn.row = none := by
        by_contra hsome
        exact absurd (h.rows i spawn hspawn hsome) (by rw [hphase]; nofun)
      have hidle : ¬ Busy { spawn with phase := .failed } := by
        rintro (hnot | hnot | hnot)
        · cases hnot
        · cases hnot
        · exact absurd (hrow.symm.trans hnot) nofun
      have hset : Marked (d.setSpawn i { spawn with phase := .failed }) :=
        h.setSpawn hspawn (fun hbusy => absurd hbusy hidle) fun hsome => absurd hrow hsome
      refine hset.clearActive fun s hs => ?_
      obtain rfl := Option.some.inj ((getElem?_setSpawn_self hspawn).symm.trans hs)
      exact hidle
  | terminate i =>
    obtain ⟨spawn, hspawn, hs⟩ := Option.bind_eq_some_iff.mp hs
    split at hs
    case h_2 => cases hs
    case h_1 hrow =>
      cases hs
      have hphase := h.rows i spawn hspawn (by rw [hrow]; nofun)
      have hidle : ¬ Busy { spawn with row := some .terminal } := by
        rintro (hnot | hnot | hnot)
        · exact absurd hphase (by rw [show spawn.phase = .preparing from hnot]; nofun)
        · exact absurd hphase (by rw [show spawn.phase = .launching from hnot]; nofun)
        · cases hnot
      have hset : Marked (d.setSpawn i { spawn with row := some .terminal }) :=
        h.setSpawn hspawn (fun hbusy => absurd hbusy hidle) fun _ => hphase
      refine ⟨hset.active, hset.rows, fun j hj => ?_⟩
      rcases List.mem_append.mp hj with hold | hnew
      · exact hset.ended j hold
      · obtain rfl := List.mem_singleton.mp hnew
        exact ⟨_, getElem?_setSpawn_self hspawn, hidle⟩
  | onInstanceTerminal i succeeds =>
    unfold Dispatcher.step at hs
    dsimp only at hs
    split at hs
    case isFalse => cases hs
    case isTrue hmem =>
      have hrest : Marked { d with notifications := d.notifications.erase i } :=
        ⟨h.active, h.rows, fun j hj => h.ended j (List.mem_of_mem_erase hj)⟩
      split at hs
      case isFalse =>
        cases hs
        exact hrest
      case isTrue hfound =>
        cases hs
        have hactive := (Bool.and_eq_true_iff.mp hfound).2
        obtain ⟨s, hspawn, hidle⟩ := h.ended i hmem
        refine ⟨fun j t ht hbusy => ?_, hrest.rows, hrest.ended⟩
        have hj := h.active j t ht hbusy
        obtain rfl : i = j := Option.some.inj ((of_decide_eq_true hactive).symm.trans hj)
        obtain rfl : s = t := Option.some.inj (hspawn.symm.trans ht)
        exact absurd hbusy hidle
  | followUp nodeId payload admitted =>
    unfold Dispatcher.step at hs
    dsimp only at hs
    split at hs
    case isFalse => cases hs
    case isTrue =>
      have hrest : Marked { d with followUps := d.followUps.erase (nodeId, payload) } :=
        ⟨h.active, h.rows, h.ended⟩
      split at hs
      case h_1 token _ =>
        cases hs
        exact hrest.fireSpawn nodeId token
      case h_2 =>
        cases hs
        exact hrest

/-! ## Nothing forgotten -/

/-- The most recent coalesced fire, as long as no spawn had its token since. -/
def owed : List GateEvent → Option (String × Json)
  | [] => none
  | .coalesced nodeId token :: _ => some (nodeId, token)
  | .spawned _ token :: log => (owed log).filter fun fire => fire.2 ≠ token

theorem dispatched_of_owed : ∀ {log : List GateEvent}, owed log = none → Dispatched log
  | [], _ => by
    intro later nodeId token earlier heq
    exact absurd heq (by simp)
  | .coalesced _ _ :: _, h => by cases h
  | .spawned i t :: log, h => by
    intro later nodeId token earlier heq hlater
    cases later with
    | nil => cases heq
    | cons e later =>
      cases heq
      have hrest : ∀ n t, .coalesced n t ∉ later := fun n t hmem => hlater n t (List.mem_cons_of_mem _ hmem)
      by_cases hsame : token = t
      · exact ⟨i, hsame ▸ List.mem_cons_self ..⟩
      · have hlast : ∀ (l : List GateEvent), (∀ n t, .coalesced n t ∉ l) →
            (∀ j, .spawned j token ∉ l) → owed (l ++ .coalesced nodeId token :: earlier) = some (nodeId, token) := by
          intro l
          induction l with
          | nil => exact fun _ _ => rfl
          | cons e l ih =>
            intro hnone hspawn
            have hl := ih (fun n t hmem => hnone n t (List.mem_cons_of_mem _ hmem))
              fun j hmem => hspawn j (List.mem_cons_of_mem _ hmem)
            cases e with
            | coalesced n t => exact absurd List.mem_cons_self (hnone n t)
            | spawned j t' =>
              have hne : token ≠ t' := fun heq => hspawn j (heq ▸ List.mem_cons_self ..)
              show (owed (l ++ _)).filter _ = _
              rw [hl]
              simp [Option.filter, hne]
        by_contra hnone
        have howed := hlast later hrest fun j hmem => hnone ⟨j, List.mem_cons_of_mem _ hmem⟩
        have hfilter : (owed (later ++ .coalesced nodeId token :: earlier)).filter (fun fire => fire.2 ≠ t) = none := h
        rw [howed] at hfilter
        simp [Option.filter, hsame] at hfilter

/-- The instance is to be unwound or notified of. -/
def Awaited (d : Dispatcher) (a : Nat) (s : Spawn) : Prop :=
  Busy s ∨ s.phase = .failing ∨ (s.row = some .terminal ∧ a ∈ d.notifications)

/-- What is owed is on record behind an active instance, or on its way to the gate; and the active mark
is of an instance that will be unwound or notified of. -/
structure Remembered (d : Dispatcher) : Prop where
  mark : ∀ a, d.concurrency.activeInstanceId = some a → ∃ s, d.spawns[a]? = some s ∧
    Awaited d a s
  fire : ∀ fire ∈ owed d.log, (d.concurrency.activeInstanceId ≠ none ∧ d.concurrency.dirty = true ∧
    d.concurrency.lastSkipped = some fire) ∨ fire ∈ d.followUps

theorem remembered_initial : Remembered Dispatcher.initial where
  mark a ha := by cases ha
  fire f hf := by cases hf

theorem Remembered.settled (h : Remembered d) (hquiet : Quiescent d) :
    d.concurrency.activeInstanceId = none ∧ Dispatched d.log := by
  have hnone : d.concurrency.activeInstanceId = none := by
    by_contra hsome
    obtain ⟨a, ha⟩ := Option.ne_none_iff_exists'.mp hsome
    obtain ⟨s, hs, hcase⟩ := h.mark a ha
    obtain ⟨hphase, hrow⟩ := hquiet.spawns s (List.mem_of_getElem? hs)
    rcases hcase with (hbusy | hbusy | hbusy) | hfailing | ⟨-, hnotified⟩
    · rcases hphase with hp | hp <;> cases hbusy.symm.trans hp
    · rcases hphase with hp | hp <;> cases hbusy.symm.trans hp
    · exact hrow hbusy
    · rcases hphase with hp | hp <;> cases hfailing.symm.trans hp
    · rw [hquiet.notifications] at hnotified
      cases hnotified
  refine ⟨hnone, dispatched_of_owed ?_⟩
  by_contra hsome
  obtain ⟨fire, hfire⟩ := Option.ne_none_iff_exists'.mp hsome
  rcases h.fire fire hfire with ⟨hactive, -⟩ | hmem
  · exact hactive hnone
  · rw [hquiet.followUps] at hmem
    cases hmem

theorem Remembered.setSpawn (h : Remembered d) (hspawn : d.spawns[i]? = some spawn)
    (hawaited : Awaited d i spawn → Awaited d i s) : Remembered (d.setSpawn i s) := by
  refine ⟨fun a ha => ?_, h.fire⟩
  obtain ⟨t, ht, hcase⟩ := h.mark a ha
  by_cases heq : a = i
  · subst heq
    obtain rfl : spawn = t := Option.some.inj (hspawn.symm.trans ht)
    exact ⟨s, getElem?_setSpawn_self hspawn, hawaited hcase⟩
  · exact ⟨t, (getElem?_setSpawn_ne heq).trans ht, hcase⟩

/-- A fire at the gate: a coalesced one is remembered, and a spawned one is awaited. What is owed with
nothing active is on its way, unless it is this fire. -/
theorem Remembered.fireSpawn
    (hmark : ∀ a, d.concurrency.activeInstanceId = some a → ∃ s, d.spawns[a]? = some s ∧ Awaited d a s)
    (hfire : ∀ fire ∈ owed d.log, (d.concurrency.activeInstanceId ≠ none ∧ d.concurrency.dirty = true ∧
      d.concurrency.lastSkipped = some fire) ∨ fire ∈ d.followUps ∨ fire.2 = token) :
    Remembered (d.fireSpawn nodeId token) := by
  cases hactive : d.concurrency.activeInstanceId with
  | some active =>
    rw [fireSpawn_of_active hactive]
    refine ⟨fun a ha => hmark a (hactive.trans ha), fun fire hmem => .inl ⟨nofun, rfl, ?_⟩⟩
    exact hmem
  | none =>
    rw [fireSpawn_of_none hactive]
    constructor
    case mark =>
      intro a ha
      cases ha
      exact ⟨_, List.getElem?_concat_length, .inl (.inl rfl)⟩
    case fire =>
      intro fire hmem
      obtain ⟨howed, hne⟩ := Option.mem_filter_iff.mp hmem
      rcases hfire fire howed with ⟨hsome, -⟩ | hway | hsame
      · exact absurd hactive hsome
      · exact .inr hway
      · exact absurd hsame (of_decide_eq_true hne)

theorem remembered_step (hmarked : Marked d) (h : Remembered d)
    (hcond : MadeUp eval impl targets d act) (hs : d.step eval impl targets act = some d') :
    Remembered d' := by
  cases act with
  | fire nodeId eventPayload =>
    obtain ⟨token, -, rfl⟩ := Option.map_eq_some_iff.mp hs
    exact Remembered.fireSpawn h.mark fun fire hmem => (h.fire fire hmem).imp_right .inl
  | prepare i succeeds =>
    obtain ⟨spawn, hspawn, hs⟩ := Option.bind_eq_some_iff.mp hs
    split at hs
    case h_2 => cases hs
    case h_1 hphase =>
      cases hs
      obtain rfl : succeeds = true := hcond
      exact h.setSpawn hspawn fun _ => .inl (.inr (.inl rfl))
  | create i =>
    obtain ⟨spawn, hspawn, hs⟩ := Option.bind_eq_some_iff.mp hs
    split at hs
    case h_2 => cases hs
    case h_1 hphase =>
      cases hs
      exact h.setSpawn hspawn fun _ => .inl (.inr (.inr rfl))
  | launched i =>
    obtain ⟨spawn, hspawn, hs⟩ := Option.bind_eq_some_iff.mp hs
    split at hs
    case h_2 => cases hs
    case h_1 hphase =>
      cases hs
      refine h.setSpawn hspawn fun hcase => ?_
      rcases hcase with (hnot | hnot | hrow) | hnot | hended
      · cases hphase.symm.trans hnot
      · cases hphase.symm.trans hnot
      · exact .inl (.inr (.inr hrow))
      · cases hphase.symm.trans hnot
      · exact .inr (.inr hended)
  | launchFails i rolledBack =>
    obtain ⟨spawn, hspawn, hs⟩ := Option.bind_eq_some_iff.mp hs
    split at hs
    case h_3 => cases hs
    all_goals
      cases hs
      exact h.setSpawn hspawn fun _ => .inr (.inl rfl)
  | unwind i =>
    obtain ⟨spawn, hspawn, hs⟩ := Option.bind_eq_some_iff.mp hs
    split at hs
    case h_2 => cases hs
    case h_1 hphase =>
      cases hs
      show Remembered { d.setSpawn i _ with concurrency := Dispatcher.clearActive d.concurrency i }
      by_cases hi : d.concurrency.activeInstanceId = some i
      · have hclear : Dispatcher.clearActive d.concurrency i = { d.concurrency with activeInstanceId := none } :=
          if_pos hi
        rw [hclear]
        refine ⟨fun a ha => (by cases ha), fun fire hmem => ?_⟩
        rcases h.fire fire hmem with ⟨-, hdirty, -⟩ | hway
        · exact absurd ((hcond hi).symm.trans hdirty) (by decide)
        · exact .inr hway
      · have hclear : Dispatcher.clearActive d.concurrency i = d.concurrency := if_neg hi
        rw [hclear]
        refine ⟨fun a ha => ?_, h.fire⟩
        obtain ⟨t, ht, hcase⟩ := h.mark a ha
        have hne : a ≠ i := fun heq => hi (heq ▸ ha)
        exact ⟨t, (getElem?_setSpawn_ne hne).trans ht, hcase⟩
  | terminate i =>
    obtain ⟨spawn, hspawn, hs⟩ := Option.bind_eq_some_iff.mp hs
    split at hs
    case h_2 => cases hs
    case h_1 hrow =>
      cases hs
      refine ⟨fun a ha => ?_, h.fire⟩
      by_cases heq : a = i
      · subst heq
        exact ⟨_, getElem?_setSpawn_self hspawn,
          .inr (.inr ⟨rfl, List.mem_append_right _ (List.mem_singleton_self _)⟩)⟩
      · obtain ⟨t, ht, hcase⟩ := h.mark a ha
        refine ⟨t, (getElem?_setSpawn_ne heq).trans ht, ?_⟩
        exact hcase.imp_right fun hcase => hcase.imp_right fun hended =>
          ⟨hended.1, List.mem_append_left _ hended.2⟩
  | onInstanceTerminal i succeeds =>
    unfold Dispatcher.step at hs
    dsimp only at hs
    split at hs
    case isFalse => cases hs
    case isTrue hmem =>
      -- the notification of another instance is still there
      have hothers : ∀ a, a ≠ i → ∀ s, Awaited d a s →
          Awaited { d with notifications := d.notifications.erase i } a s := fun a hne s hcase =>
        hcase.imp_right fun hcase => hcase.imp_right fun hended =>
          ⟨hended.1, (List.mem_erase_of_ne hne).mpr hended.2⟩
      split at hs
      case isFalse hfound =>
        cases hs
        refine ⟨fun a ha => ?_, h.fire⟩
        obtain ⟨s, hspawn, hcase⟩ := h.mark a ha
        refine ⟨s, hspawn, ?_⟩
        by_cases heq : a = i
        · subst heq
          obtain ⟨t, ht, hidle⟩ := hmarked.ended a hmem
          obtain rfl : s = t := Option.some.inj (hspawn.symm.trans ht)
          rcases hcase with hbusy | hfailing | ⟨hrow, -⟩
          · exact absurd hbusy hidle
          · exact .inr (.inl hfailing)
          · refine absurd ?_ hfound
            rw [hcond ha, ha, hspawn]
            simp [hrow]
        · exact hothers a heq s hcase
      case isTrue hfound =>
        cases hs
        refine ⟨fun a ha => ?_, fun fire hmem' => ?_⟩
        · exact absurd ((closeActive_active d.concurrency).symm.trans ha) nofun
        · rcases h.fire fire hmem' with ⟨-, hdirty, hlast⟩ | hway
          · refine .inr (List.mem_append_right _ ?_)
            unfold Dispatcher.closeActive
            rw [if_pos hdirty, hlast]
            exact List.mem_singleton_self _
          · exact .inr (List.mem_append_left _ hway)
  | followUp nodeId payload admitted =>
    obtain ⟨rfl, htoken⟩ := hcond
    unfold Dispatcher.step at hs
    dsimp only at hs
    split at hs
    case isFalse => cases hs
    case isTrue =>
      rw [if_pos rfl, htoken] at hs
      cases hs
      refine Remembered.fireSpawn h.mark fun fire hmem => ?_
      rcases h.fire fire hmem with hbehind | hway
      · exact .inl hbehind
      · by_cases heq : fire = (nodeId, payload)
        · exact .inr (.inr (heq ▸ rfl))
        · exact .inr (.inl ((List.mem_erase_of_ne heq).mpr hway))

theorem MadeUp.rolledBack (h : MadeUp eval impl targets d act) : RolledBack d act := by
  cases act with
  | launchFails i rolledBack => exact h
  | _ => trivial

/-- **A run whose spawns are prepared, whose failed launches are rolled back and forget nothing, and whose
follow-ups are admitted with the token that was coalesced keeps the promise of the policy.** -/
theorem single_active (eval : List (String × Json) → String → Except String Json) (impl : MapImpl)
    (targets : String → Option TriggerTarget) {run : List DispatcherAction}
    (hrun : Along (Dispatcher.step eval impl targets) (MadeUp eval impl targets) .initial run)
    (hend : exec (Dispatcher.step eval impl targets) .initial run = some d) : SingleActiveCoalesce d := by
  have hinv := exec_invariant_along (I := fun d => Marked d ∧ Remembered d)
    (fun _ _ _ h hcond hs => ⟨marked_step h.1 hcond.rolledBack hs, remembered_step h.1 h.2 hcond hs⟩)
    ⟨marked_initial, remembered_initial⟩ hrun hend
  exact ⟨hinv.1.alone, hinv.2.settled⟩

/-- **No two spawned instances ever run at a time** where failed launches are rolled back. -/
theorem alone_throughout (eval : List (String × Json) → String → Except String Json) (impl : MapImpl)
    (targets : String → Option TriggerTarget) {run : List DispatcherAction}
    (hrun : Along (Dispatcher.step eval impl targets) RolledBack .initial run) :
    Throughout (Dispatcher.step eval impl targets) Alone .initial run :=
  throughout_of_invariant_along (fun _ _ _ => marked_step) (fun _ => Marked.alone) marked_initial hrun

/-! ## Runs -/

/-- Expressions that name a variable of the scope. -/
def byName (scope : List (String × Json)) (expression : String) : Except String Json :=
  match scope.lookup expression with
  | some v => .ok v
  | none => .error ("Variable not found: " ++ expression)

def forwarded (_ : String) : Option TriggerTarget := some ⟨[], true, fun _ => true⟩

/-- A field of the token from a variable of another name. -/
def renamed (_ : String) : Option TriggerTarget := some ⟨[⟨"who", "name"⟩], false, fun _ => true⟩

def named (name : String) : Json := .obj [("name", .str name)]

def launches (i : Nat) : List DispatcherAction := [.prepare i true, .create i, .launched i]

/-- The end of an instance, and that it is notified of. -/
def ends (i : Nat) : List DispatcherAction := [.terminate i, .onInstanceTerminal i true]

instance (d : Dispatcher) (act : DispatcherAction) : Decidable (MadeUp eval impl targets d act) := by
  cases act <;> unfold MadeUp <;> infer_instance

instance (d : Dispatcher) (act : DispatcherAction) : Decidable (RolledBack d act) := by
  cases act <;> unfold RolledBack <;> infer_instance

/-- A fire, another while the first one's instance runs, and its follow-up. -/
def followedUp : List DispatcherAction :=
  [.fire "t" (named "a")] ++ launches 0 ++ [.fire "t" (named "b")] ++ ends 0 ++
    [.followUp "t" (named "b") true] ++ launches 1 ++ ends 1

theorem single_active_followedUp : ∃ d, exec (Dispatcher.step byName .btree forwarded) .initial followedUp = some d ∧
    SingleActiveCoalesce d ∧ d.log.length = 3 := by
  have hrun : Along (Dispatcher.step byName .btree forwarded) (MadeUp byName .btree forwarded) .initial followedUp := by
    decide
  exact ⟨_, rfl, single_active byName .btree forwarded hrun rfl, rfl⟩

/-- A launch that fails when its instance is created, with a fire coalesced meanwhile; the next fire runs, and
the token that is lost is never made up for. -/
def retried : List DispatcherAction :=
  [.fire "t" (named "a"), .prepare 0 true, .create 0, .fire "t" (named "b"), .launchFails 0 true, .unwind 0,
    .fire "t" (named "c")] ++ launches 1

theorem alone_throughout_retried : Throughout (Dispatcher.step byName .btree forwarded) Alone .initial retried ∧
    (exec (Dispatcher.step byName .btree forwarded) .initial retried).isSome = true :=
  ⟨alone_throughout byName .btree forwarded (by decide), rfl⟩

/-- Bindings that cannot be prepared block the trigger; a failed launch, and a mapping that is not the
identity on its tokens, each lose the fire that was coalesced; and a launch whose roll-back fails lets a second
instance run beside the first. -/
theorem not_made_up : (∃ d, exec (Dispatcher.step byName .btree forwarded) .initial
      [.fire "t" (named "a"), .prepare 0 false] = some d ∧ ¬ SingleActiveCoalesce d) ∧
    (∃ d, exec (Dispatcher.step byName .btree forwarded) .initial
      [.fire "t" (named "a"), .prepare 0 true, .fire "t" (named "b"), .launchFails 0 true, .unwind 0] = some d ∧
        ¬ SingleActiveCoalesce d) ∧ (∃ d, exec (Dispatcher.step byName .btree renamed) .initial
      ([.fire "t" (named "a")] ++ launches 0 ++ [.fire "t" (named "b")] ++ ends 0 ++
        [.followUp "t" (.obj [("who", .str "b")]) true]) = some d ∧ ¬ SingleActiveCoalesce d) ∧
    ∃ d, exec (Dispatcher.step byName .btree forwarded) .initial
      ([.fire "t" (named "a"), .prepare 0 true, .create 0, .launchFails 0 false, .unwind 0,
        .fire "t" (named "b")] ++ launches 1) = some d ∧ ¬ SingleActiveCoalesce d := by
  refine ⟨⟨_, rfl, fun h => ?_⟩, ⟨_, rfl, fun h => ?_⟩, ⟨_, rfl, fun h => ?_⟩, ⟨_, rfl, fun h => ?_⟩⟩
  · have hsettled := h.settled ⟨by decide, rfl, rfl⟩
    exact absurd hsettled.1 nofun
  · have hsettled := h.settled ⟨by decide, rfl, rfl⟩
    obtain ⟨i, hi⟩ := hsettled.2 [] _ _ _ rfl fun _ _ => List.not_mem_nil
    cases hi
  · have hsettled := h.settled ⟨by decide, rfl, rfl⟩
    obtain ⟨i, hi⟩ := hsettled.2 [] _ _ _ rfl fun _ _ => List.not_mem_nil
    cases hi
  · exact absurd (h.alone 0 1 _ _ rfl rfl rfl rfl) (by decide)

end SingleActive

end Mekhan

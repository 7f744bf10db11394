import Mekhan.Infra.Runs
import Mekhan.Yjs.Room
import Mathlib.Data.Finset.Insert
import Mathlib.Data.Finset.Lattice.Basic

/-!
# Edits of a room

A call that reads the state of a room, merges its update and writes the result back loses what another
call has written in between. The database has every update, so what is lost in the room is there again
when it is next loaded, but until then every client that joins gets the document without it.
-/

namespace Mekhan

namespace RoomEdits

open Infra Yjs

variable {α V : Type} [SemilatticeSup α] [OrderBot α] {diff : V → α → α}

def received (room : YjsRoom α V) : List α := room.calls.filterMap fun call => call.message.update?

/-- A call has returned `Ok`. -/
def Returned : Phase α → Prop
  | .returned _ => True
  | _ => False

/-- Every call has returned `Ok`. -/
def AllReturned (room : YjsRoom α V) : Prop := ∀ call ∈ room.calls, Returned call.phase

instance (phase : Phase α) : Decidable (Returned phase) := by
  cases phase <;> unfold Returned <;> infer_instance

instance (room : YjsRoom α V) : Decidable (AllReturned room) :=
  inferInstanceAs (Decidable (∀ call ∈ room.calls, Returned call.phase))

/-- The room is the join of what there was and of every update, and the join of what is in the
database. -/
structure EditsKept (stored : List α) (room : YjsRoom α V) : Prop where
  state : room.state = (↑(stored ++ received room) : Multiset α).sup
  persisted : room.state = (room.persisted : Multiset α).sup

/-- All that is in the room is in the state that a call read before it merged, or in its own update. -/
def HasAll (room : YjsRoom α V) (call : RoomCall α V) : Prop :=
  match call.phase, call.message.update? with
  | .merged base _, some u => room.state ≤ base ⊔ u
  | _, _ => True

/-- When a call writes the state back, nothing is in the room that it has not seen. -/
def WritesAll (room : YjsRoom α V) : RoomAction α V → Prop
  | .writeState i => ∀ call ∈ room.calls[i]?, HasAll room call
  | _ => True

/-! ## What the room keeps -/

/-- A call has written its update to the room. -/
def Written : Phase α → Prop
  | .written | .stored | .returned _ => True
  | _ => False

/-- A call has stored its update in the database. -/
def Stored : Phase α → Prop
  | .stored | .returned _ => True
  | _ => False

/-- What a call carries is of the updates up to `all`, and its own update is in what it merged. -/
def Carries (all : α) (call : RoomCall α V) : Prop :=
  match call.phase with
  | .merging base => base ≤ all
  | .merged base new => base ≤ all ∧ ∃ u, call.message.update? = some u ∧ new = base ⊔ u
  | _ => True

/-- The join of what there was and of what the room received. -/
def everything (stored : List α) (room : YjsRoom α V) : α := (↑(stored ++ received room) : Multiset α).sup

/-- The room's state is made of stored and received edits alone. -/
structure Inv (stored : List α) (room : YjsRoom α V) : Prop where
  below : room.state ≤ everything stored room
  initial : ∀ u ∈ stored, u ≤ room.state
  written : ∀ call ∈ room.calls, Written call.phase → ∀ u, call.message.update? = some u → u ≤ room.state
  carries : ∀ call ∈ room.calls, Carries (everything stored room) call
  database : ∀ u ∈ room.persisted, u ∈ stored ++ received room
  kept : ∀ u ∈ stored, u ∈ room.persisted
  stored : ∀ call ∈ room.calls, Stored call.phase → ∀ u, call.message.update? = some u → u ∈ room.persisted

variable {stored : List α} {room room' : YjsRoom α V}

variable {call : RoomCall α V} {i : Nat} {u : α} {phase : Phase α}

theorem le_everything (h : u ∈ stored ++ received room) : u ≤ everything stored room :=
  Multiset.le_sup (Multiset.mem_coe.mpr h)

theorem everything_le {x : α} (h : ∀ u ∈ stored ++ received room, u ≤ x) : everything stored room ≤ x :=
  Multiset.sup_le.mpr fun u hu => h u (Multiset.mem_coe.mp hu)

omit [SemilatticeSup α] [OrderBot α] in
theorem mem_received (hcall : call ∈ room.calls)
    (hu : call.message.update? = some u) : u ∈ received room := List.mem_filterMap.mpr ⟨call, hcall, hu⟩

theorem Inv.editsKept (h : Inv stored room) (hall : AllReturned room) : EditsKept stored room := by
  have hphase : ∀ call ∈ room.calls, Written call.phase ∧ Stored call.phase := by
    intro call hcall
    have hreturned := hall call hcall
    unfold Returned at hreturned
    split at hreturned
    case h_1 hphase => exact hphase ▸ ⟨trivial, trivial⟩
    case h_2 => exact hreturned.elim
  have hstate : everything stored room ≤ room.state := by
    refine everything_le fun u hu => ?_
    rcases List.mem_append.mp hu with hold | hnew
    · exact h.initial u hold
    · obtain ⟨call, hcall, hcu⟩ := List.mem_filterMap.mp hnew
      exact h.written call hcall (hphase call hcall).1 u hcu
  refine ⟨le_antisymm h.below hstate, le_antisymm ?_ ?_⟩
  · refine h.below.trans (everything_le fun u hu => Multiset.le_sup (Multiset.mem_coe.mpr ?_))
    rcases List.mem_append.mp hu with hold | hnew
    · exact h.kept u hold
    · obtain ⟨call, hcall, hcu⟩ := List.mem_filterMap.mp hnew
      exact h.stored call hcall (hphase call hcall).2 u hcu
  · refine Multiset.sup_le.mpr fun u hu => ?_
    exact (le_everything (h.database u (Multiset.mem_coe.mp hu))).trans hstate

/-! ## Steps -/

theorem inv_fromDoc (stored : List α) : Inv stored (YjsRoom.fromDoc (V := V) stored) where
  below := Multiset.sup_le.mpr fun _ hu => le_everything (List.mem_append_left _ (Multiset.mem_coe.mp hu))
  initial _ hu := Multiset.le_sup (Multiset.mem_coe.mpr hu)
  written _ hcall := absurd hcall List.not_mem_nil
  carries _ hcall := absurd hcall List.not_mem_nil
  database _ hu := List.mem_append_left _ hu
  kept _ hu := hu
  stored _ hcall := absurd hcall List.not_mem_nil

omit [SemilatticeSup α] [OrderBot α] in
theorem mem_setPhase {call' : RoomCall α V} (h : call' ∈ (room.setPhase i call phase).calls) :
    call' ∈ room.calls ∨ call' = { call with phase } := List.mem_or_eq_of_mem_set h

omit [SemilatticeSup α] [OrderBot α] in
theorem received_setPhase (hcall : room.calls[i]? = some call)
    (phase : Phase α) : received (room.setPhase i call phase) = received room := by
  have hmessages : (room.calls.set i { call with phase }).map RoomCall.message = room.calls.map RoomCall.message := by
    rw [List.map_set]
    have hget : (room.calls.map RoomCall.message)[i]? = some call.message := by
      rw [List.getElem?_map, hcall, Option.map_some]
    obtain ⟨hlt, heq⟩ := List.getElem?_eq_some_iff.mp hget
    rw [← heq, List.set_getElem_self]
  have hcomp : ∀ calls : List (RoomCall α V), calls.filterMap (fun call => call.message.update?) =
      (calls.map RoomCall.message).filterMap RoomMessage.update? := by
    intro calls
    rw [List.filterMap_map]
    rfl
  unfold received YjsRoom.setPhase
  dsimp only
  rw [hcomp, hcomp, hmessages]

theorem Inv.setPhase (h : Inv stored room) (hcall : room.calls[i]? = some call)
    (hwritten : Written phase → Written call.phase ∨ call.message.update? = none)
    (hstored : Stored phase → Stored call.phase ∨ call.message.update? = none)
    (hcarries : Carries (everything stored room) { call with phase }) :
    Inv stored (room.setPhase i call phase) := by
  have hreceived := received_setPhase hcall phase
  have hall : everything stored (room.setPhase i call phase) = everything stored room := by
    unfold everything
    rw [hreceived]
  have hmem : call ∈ room.calls := List.mem_of_getElem? hcall
  constructor
  case below => exact hall ▸ h.below
  case initial => exact h.initial
  case written =>
    intro call' hcall' hphase u hu
    rcases mem_setPhase hcall' with hold | rfl
    · exact h.written call' hold hphase u hu
    · rcases hwritten hphase with hbefore | hnone
      · exact h.written call hmem hbefore u hu
      · exact absurd (hnone.symm.trans hu) nofun
  case carries =>
    intro call' hcall'
    rw [hall]
    rcases mem_setPhase hcall' with hold | rfl
    · exact h.carries call' hold
    · exact hcarries
  case database =>
    rw [hreceived]
    exact h.database
  case kept => exact h.kept
  case stored =>
    intro call' hcall' hphase u hu
    rcases mem_setPhase hcall' with hold | rfl
    · exact h.stored call' hold hphase u hu
    · rcases hstored hphase with hbefore | hnone
      · exact h.stored call hmem hbefore u hu
      · exact absurd (hnone.symm.trans hu) nofun

theorem Inv.writeState {base new : α} (h : Inv stored room)
    (hcall : room.calls[i]? = some call) (hphase : call.phase = .merged base new)
    (hu : call.message.update? = some u) (hbelow : room.state ≤ base ⊔ u) :
    Inv stored { room.setPhase i call .written with state := new } := by
  have hmem : call ∈ room.calls := List.mem_of_getElem? hcall
  have hcarries := h.carries call hmem
  unfold Carries at hcarries
  rw [hphase] at hcarries
  obtain ⟨hbase, v, hv, rfl⟩ := hcarries
  obtain rfl : v = u := Option.some.inj (hv.symm.trans hu)
  have hreceived := received_setPhase hcall (.written : Phase α)
  have hall : everything stored { room.setPhase i call .written with state := base ⊔ v } =
      everything stored room := congrArg (fun r => (↑(stored ++ r) : Multiset α).sup) hreceived
  constructor
  case below =>
    rw [hall]
    exact sup_le hbase (le_everything (List.mem_append_right _ (mem_received hmem hu)))
  case initial => exact fun w hw => (h.initial w hw).trans hbelow
  case written =>
    intro call' hcall' hphase' w hw
    rcases mem_setPhase hcall' with hold | rfl
    · exact (h.written call' hold hphase' w hw).trans hbelow
    · obtain rfl : v = w := Option.some.inj (hu.symm.trans hw)
      exact le_sup_right
  case carries =>
    intro call' hcall'
    rw [hall]
    rcases mem_setPhase hcall' with hold | rfl
    · exact h.carries call' hold
    · trivial
  case database => exact hreceived ▸ h.database
  case kept => exact h.kept
  case stored =>
    intro call' hcall' hphase' w hw
    rcases mem_setPhase hcall' with hold | rfl
    · exact h.stored call' hold hphase' w hw
    · exact hphase'.elim

theorem Inv.storeUpdate (h : Inv stored room)
    (hcall : room.calls[i]? = some call) (hphase : call.phase = .written)
    (hu : call.message.update? = some u) (hcarries : Carries (everything stored room) { call with phase }) :
    Inv stored { room.setPhase i call phase with persisted := room.persisted ++ [u] } := by
  have hmem : call ∈ room.calls := List.mem_of_getElem? hcall
  have hreceived := received_setPhase hcall phase
  have hall : everything stored { room.setPhase i call phase with persisted := room.persisted ++ [u] } =
      everything stored room := congrArg (fun r => (↑(stored ++ r) : Multiset α).sup) hreceived
  constructor
  case below => exact hall ▸ h.below
  case initial => exact h.initial
  case written =>
    intro call' hcall' hphase' w hw
    rcases mem_setPhase hcall' with hold | rfl
    · exact h.written call' hold hphase' w hw
    · exact h.written call hmem (hphase ▸ trivial) w hw
  case carries =>
    intro call' hcall'
    rw [hall]
    rcases mem_setPhase hcall' with hold | rfl
    · exact h.carries call' hold
    · exact hcarries
  case database =>
    intro w hw
    have hsame : stored ++ received room = stored ++ received (room.setPhase i call phase) := by
      rw [hreceived]
    refine hsame ▸ ?_
    rcases List.mem_append.mp hw with hold | hnew
    · exact h.database w hold
    · obtain rfl := List.mem_singleton.mp hnew
      exact List.mem_append_right _ (mem_received hmem hu)
  case kept => exact fun w hw => List.mem_append_left _ (h.kept w hw)
  case stored =>
    intro call' hcall' hphase' w hw
    rcases mem_setPhase hcall' with hold | rfl
    · exact List.mem_append_left _ (h.stored call' hold hphase' w hw)
    · obtain rfl : u = w := Option.some.inj (hu.symm.trans hw)
      exact List.mem_append_right _ (List.mem_singleton_self u)

omit [OrderBot α] in
theorem Carries.mono {all all' : α} (h : Carries all call) (hle : all ≤ all') : Carries all' call := by
  unfold Carries at h ⊢
  split at h
  case h_1 => exact h.trans hle
  case h_2 => exact ⟨h.1.trans hle, h.2⟩
  case h_3 => trivial

theorem Inv.handleMessage (h : Inv stored room) (hwritten : ¬ Written call.phase)
    (hstored : ¬ Stored call.phase) (hcarries : ∀ all, Carries all call) :
    Inv stored { room with calls := room.calls ++ [call] } := by
  have hsub : ∀ u ∈ stored ++ received room,
      u ∈ stored ++ received { room with calls := room.calls ++ [call] } := by
    intro u hu
    unfold received
    rw [List.filterMap_append, ← List.append_assoc]
    exact List.mem_append_left _ hu
  have hle : everything stored room ≤ everything stored { room with calls := room.calls ++ [call] } :=
    everything_le fun u hu => le_everything (hsub u hu)
  constructor
  case below => exact h.below.trans hle
  case initial => exact h.initial
  case written =>
    intro call' hcall' hphase
    rcases List.mem_append.mp hcall' with hold | hnew
    · exact h.written call' hold hphase
    · exact absurd (List.mem_singleton.mp hnew ▸ hphase) hwritten
  case carries =>
    intro call' hcall'
    rcases List.mem_append.mp hcall' with hold | hnew
    · exact (h.carries call' hold).mono hle
    · obtain rfl := List.mem_singleton.mp hnew
      exact hcarries _
  case database => exact fun u hu => hsub u (h.database u hu)
  case kept => exact h.kept
  case stored =>
    intro call' hcall' hphase
    rcases List.mem_append.mp hcall' with hold | hnew
    · exact h.stored call' hold hphase
    · exact absurd (List.mem_singleton.mp hnew ▸ hphase) hstored

theorem inv_step {act : RoomAction α V} (h : Inv stored room) (hcond : WritesAll room act)
    (hs : room.step diff act = some room') : Inv stored room' := by
  cases act with
  | addClient clientId =>
    cases hs
    exact ⟨h.below, h.initial, h.written, h.carries, h.database, h.kept, h.stored⟩
  | removeClient clientId =>
    cases hs
    exact ⟨h.below, h.initial, h.written, h.carries, h.database, h.kept, h.stored⟩
  | handleMessage clientId message =>
    cases hs
    cases message with
    | invalid => exact h.handleMessage id id fun _ => trivial
    | syncStep1 stateVector => exact h.handleMessage id id fun _ => trivial
    | syncStep2 u => exact h.handleMessage id id fun _ => trivial
    | update u => exact h.handleMessage id id fun _ => trivial
  | readState i =>
    obtain ⟨call, hcall, hs⟩ := Option.bind_eq_some_iff.mp hs
    split at hs
    case h_1 hphase =>
      cases hs
      exact h.setPhase hcall False.elim False.elim h.below
    case h_2 => cases hs
  | merge i succeeds =>
    obtain ⟨call, hcall, hs⟩ := Option.bind_eq_some_iff.mp hs
    split at hs
    case h_2 => cases hs
    case h_1 base hphase =>
      cases hs
      have hbase := h.carries call (List.mem_of_getElem? hcall)
      unfold Carries at hbase
      rw [hphase] at hbase
      cases succeeds with
      | false => exact h.setPhase hcall False.elim False.elim trivial
      | true =>
        -- only the answer to a state vector is given at once, and that call brings no update
        obtain ⟨clientId, message, phase⟩ := call
        cases message with
        | syncStep1 stateVector => exact h.setPhase hcall (fun _ => .inr rfl) (fun _ => .inr rfl) trivial
        | syncStep2 u => exact h.setPhase hcall False.elim False.elim ⟨hbase, u, rfl, rfl⟩
        | update u => exact h.setPhase hcall False.elim False.elim ⟨hbase, u, rfl, rfl⟩
        | invalid => exact h.setPhase hcall False.elim False.elim trivial
  | writeState i =>
    obtain ⟨call, hcall, hs⟩ := Option.bind_eq_some_iff.mp hs
    split at hs
    case h_2 => cases hs
    case h_1 base new hphase =>
      cases hs
      have hcarries := h.carries call (List.mem_of_getElem? hcall)
      unfold Carries at hcarries
      rw [hphase] at hcarries
      obtain ⟨-, u, hu, -⟩ := hcarries
      have hbelow : HasAll room call := hcond call hcall
      unfold HasAll at hbelow
      rw [hphase, hu] at hbelow
      exact h.writeState hcall hphase hu hbelow
  | storeUpdate i succeeds =>
    obtain ⟨call, hcall, hs⟩ := Option.bind_eq_some_iff.mp hs
    split at hs
    case h_3 => cases hs
    case h_1 u hphase hmessage =>
      have hu : call.message.update? = some u := hmessage ▸ rfl
      cases succeeds with
      | true =>
        cases hs
        exact h.storeUpdate hcall hphase hu trivial
      | false =>
        cases hs
        exact h.setPhase hcall False.elim False.elim trivial
    case h_2 u hphase hmessage =>
      have hu : call.message.update? = some u := hmessage ▸ rfl
      cases succeeds with
      | true =>
        cases hs
        exact h.storeUpdate hcall hphase hu trivial
      | false =>
        cases hs
        exact h.setPhase hcall False.elim False.elim trivial
  | broadcast i =>
    obtain ⟨call, hcall, hs⟩ := Option.bind_eq_some_iff.mp hs
    split at hs
    case h_2 => cases hs
    case h_1 u hphase hmessage =>
      cases hs
      have hafter : Inv stored (room.setPhase i call (.returned none)) :=
        h.setPhase hcall (fun _ => .inl (hphase ▸ trivial)) (fun _ => .inl (hphase ▸ trivial)) trivial
      exact ⟨hafter.below, hafter.initial, hafter.written, hafter.carries, hafter.database, hafter.kept,
        hafter.stored⟩

/-- **A room whose calls write back all that is in it has kept every edit when they have returned.** -/
theorem edits_kept (stored : List α) {run : List (RoomAction α V)}
    (hrun : Along (YjsRoom.step diff) WritesAll (YjsRoom.fromDoc stored) run)
    (hend : exec (YjsRoom.step diff) (YjsRoom.fromDoc stored) run = some room)
    (hall : AllReturned room) : EditsKept stored room :=
  (exec_invariant_along (fun _ _ _ h hcond hs => inv_step h hcond hs) (inv_fromDoc stored) hrun hend).editsKept
    hall

/-! ## Two editors -/

/-- The steps of a call that brings an update, from the read to the last. -/
def completes (i : Nat) : List (RoomAction α V) :=
  [.merge i true, .writeState i, .storeUpdate i true, .broadcast i]

def inTurn : List (RoomAction (Finset Nat) Unit) :=
  [.addClient 1, .addClient 2, .handleMessage 1 (.update {1}), .readState 0] ++ completes 0 ++
    [.handleMessage 2 (.update {2}), .readState 1] ++ completes 1

/-- Two clients edit at once: both calls read the state before either writes it. -/
def atOnce : List (RoomAction (Finset Nat) Unit) :=
  [.addClient 1, .addClient 2, .handleMessage 1 (.update {1}), .handleMessage 2 (.update {2}), .readState 0,
    .readState 1] ++ completes 0 ++ completes 1

/-- A state vector of nothing, to which the difference is the whole state. -/
def whole (_ : Unit) (state : Finset Nat) : Finset Nat := state

instance (room : YjsRoom (Finset Nat) Unit) (call : RoomCall (Finset Nat) Unit) : Decidable (HasAll room call) := by
  unfold HasAll
  split <;> infer_instance

instance (room : YjsRoom (Finset Nat) Unit) (act : RoomAction (Finset Nat) Unit) :
    Decidable (WritesAll room act) := by
  cases act <;> unfold WritesAll <;> infer_instance

theorem edits_kept_inTurn : ∃ room, exec (YjsRoom.step whole) (YjsRoom.fromDoc []) inTurn = some room ∧
    EditsKept [] room ∧ room.state = {1, 2} := by
  have hrun : Along (YjsRoom.step whole) WritesAll (YjsRoom.fromDoc []) inTurn := by decide
  exact ⟨_, rfl, edits_kept [] hrun rfl (by decide), by decide⟩

/-- The second call writes what it made of the state without the first edit. -/
theorem edits_lost_atOnce : ∃ room, exec (YjsRoom.step whole) (YjsRoom.fromDoc []) atOnce = some room ∧
    AllReturned room ∧ ¬ EditsKept [] room := by
  refine ⟨_, rfl, ?_, ?_⟩
  · decide
  · intro h
    exact absurd h.persisted (by decide)

end RoomEdits

end Mekhan

import Mekhan.Infra.Runs
import Mekhan.Yjs.Room

/-!
# One live room for a document

A handler that leaves as the last counts the clients of its room and then evicts the room of the document,
whoever is in it by then. A client that was given the room in between joins a room that the manager no
longer has, and the next client gets another one: both edit, and neither sees the other.
-/

namespace Mekhan

namespace LiveRoom

open Infra Yjs YjsManager

variable {D U : Type}

/-- A client of the document is in the room that the manager has. -/
def InLiveRoom (m : YjsManager D U) (socket : Socket D) : Prop :=
  ∀ room ∈ socket.phase.room?, m.rooms socket.docId = some room

/-- Every client is in the room that the manager has for its document. -/
def OneLiveRoom (m : YjsManager D U) : Prop := ∀ socket ∈ m.sockets, InLiveRoom m socket

/-- An update that is broadcast reaches every other client of the document. -/
def ReachesAll [DecidableEq D] (m : YjsManager D U) : Prop :=
  ∀ i update m', step m (.broadcast i update) = some m' → ∀ sender ∈ m.sockets[i]?,
    ∀ j, j ≠ i → ∀ other ∈ m.sockets[j]?, other.docId = sender.docId → other.phase.room?.isSome →
      (j, update) ∈ m'.sent

/-- A client is in a room, or about to join it. -/
def Uses : SocketPhase → Prop
  | .given _ | .joined _ _ => True
  | _ => False

/-- The room of a document is evicted when no client of the document is in a room or about to join one. -/
def EvictsUnused (m : YjsManager D U) : ManagerAction D U → Prop
  | .removeRoomIfEmpty i => ∀ socket ∈ m.sockets[i]?, ∀ other ∈ m.sockets,
    other.docId = socket.docId → ¬ Uses other.phase
  | _ => True

/-! ## What a handler knows of the manager -/

/-- The room that a client is in or about to join. -/
def roomOf : SocketPhase → Option Nat
  | .given room | .joined room _ => some room
  | _ => none

variable {phase : SocketPhase}

theorem uses_iff : Uses phase ↔ ∃ room, roomOf phase = some room := by
  cases phase <;> simp [Uses, roomOf]

theorem roomOf_of_room? {room : Nat} (h : room ∈ phase.room?) : roomOf phase = some room := by
  cases phase with
  | joined r synced => exact h
  | _ => cases h

/-- The manager has the room that a client is in or about to join. -/
def Inv (m : YjsManager D U) : Prop :=
  ∀ socket ∈ m.sockets, ∀ room, roomOf socket.phase = some room → m.rooms socket.docId = some room

variable {m m' : YjsManager D U} {i : Nat} {socket : Socket D}

theorem Inv.oneLiveRoom (h : Inv m) : OneLiveRoom m :=
  fun socket hsocket room hroom => h socket hsocket room (roomOf_of_room? hroom)

theorem mem_clients {room : Nat} : i ∈ m.clients room ↔ ∃ socket, m.sockets[i]? = some socket ∧
    socket.phase.room? = some room := by
  simp only [clients, List.mem_filter, List.mem_range, decide_eq_true_eq, Option.bind_eq_some_iff]
  constructor
  · exact fun h => h.2
  · rintro ⟨socket, hsocket, hroom⟩
    exact ⟨(List.getElem?_eq_some_iff.mp hsocket).1, socket, hsocket, hroom⟩

theorem OneLiveRoom.reachesAll [DecidableEq D] (h : OneLiveRoom m) : ReachesAll m := by
  intro i update m' hs sender hsender j hj other hother hdoc hroom
  obtain ⟨socket, hsocket, hs⟩ := Option.bind_eq_some_iff.mp hs
  obtain rfl : socket = sender := Option.some.inj (hsocket.symm.trans hsender)
  split at hs
  case h_2 => cases hs
  case h_1 room hphase =>
    cases hs
    obtain ⟨room', hroom'⟩ := Option.isSome_iff_exists.mp hroom
    -- both are in the room that the manager has
    have hmine := h socket (List.mem_of_getElem? hsocket) room (by rw [hphase]; rfl)
    have htheirs := h other (List.mem_of_getElem? hother) room' hroom'
    rw [hdoc, hmine] at htheirs
    cases htheirs
    refine List.mem_append_right _ (List.mem_map.mpr ⟨j, ?_, rfl⟩)
    rw [List.mem_filter]
    exact ⟨mem_clients.mpr ⟨other, hother, hroom'⟩, by simpa using hj⟩

theorem Inv.setPhase (h : Inv m)
    (hphase : ∀ room, roomOf phase = some room → m.rooms socket.docId = some room) :
    Inv (m.setPhase i socket phase) := by
  intro other hother room hroom
  rcases List.mem_or_eq_of_mem_set hother with hold | rfl
  · exact h other hold room hroom
  · exact hphase room hroom

variable [DecidableEq D]

theorem Inv.update {new : Option Nat} {nextRoom : Nat} (h : Inv m)
    (hunused : ∀ other ∈ m.sockets, other.docId = socket.docId → ¬ Uses other.phase)
    (hphase : ∀ room, roomOf phase = some room → new = some room) :
    Inv { m.setPhase i socket phase with rooms := Function.update m.rooms socket.docId new, nextRoom } := by
  intro other hother room hroom
  show Function.update m.rooms socket.docId new other.docId = some room
  rcases List.mem_or_eq_of_mem_set hother with hold | rfl
  · have hdoc : other.docId ≠ socket.docId := fun hdoc => hunused other hold hdoc (uses_iff.mpr ⟨room, hroom⟩)
    rw [Function.update_of_ne hdoc]
    exact h other hold room hroom
  · rw [Function.update_self]
    exact hphase room hroom

theorem inv_step {act : ManagerAction D U} (h : Inv m) (hcond : EvictsUnused m act) (hs : step m act = some m') :
    Inv m' := by
  cases act with
  | connect docId =>
    cases hs
    intro other hother room hroom
    rcases List.mem_append.mp hother with hold | hnew
    · exact h other hold room hroom
    · rw [List.mem_singleton.mp hnew] at hroom
      cases hroom
  | getRoom i =>
    obtain ⟨socket, hsocket, hs⟩ := Option.bind_eq_some_iff.mp hs
    split at hs
    case h_2 => cases hs
    case h_1 =>
      split at hs
      case h_1 room hroom =>
        cases hs
        exact h.setPhase fun _ hgiven => hgiven ▸ hroom
      case h_2 =>
        cases hs
        exact h.setPhase fun _ hgiven => by cases hgiven
  | insertRoom i succeeds =>
    obtain ⟨socket, hsocket, hs⟩ := Option.bind_eq_some_iff.mp hs
    split at hs
    case h_2 => cases hs
    case h_1 =>
      cases succeeds with
      | false =>
        cases hs
        exact h.setPhase fun _ hgiven => by cases hgiven
      | true =>
        simp only [if_true] at hs
        split at hs
        case h_1 room hroom =>
          cases hs
          exact h.setPhase fun _ hgiven => hgiven ▸ hroom
        case h_2 hnone =>
          cases hs
          refine h.update (fun other hother hdoc huses => ?_) fun _ hgiven => hgiven
          -- a client that has a room has that of the manager, and there is none
          obtain ⟨room, hroom⟩ := uses_iff.mp huses
          have := h other hother room hroom
          rw [hdoc, hnone] at this
          cases this
  | addClient i =>
    obtain ⟨socket, hsocket, hs⟩ := Option.bind_eq_some_iff.mp hs
    split at hs
    case h_2 => cases hs
    case h_1 room hphase =>
      cases hs
      have hroom := h socket (List.mem_of_getElem? hsocket) room (by rw [hphase]; rfl)
      exact h.setPhase fun _ hjoined => hjoined ▸ hroom
  | initialSync i succeeds =>
    obtain ⟨socket, hsocket, hs⟩ := Option.bind_eq_some_iff.mp hs
    split at hs
    case h_2 => cases hs
    case h_1 room hphase =>
      cases hs
      have hroom := h socket (List.mem_of_getElem? hsocket) room (by rw [hphase]; rfl)
      cases succeeds with
      | true => exact h.setPhase fun _ hjoined => hjoined ▸ hroom
      | false => exact h.setPhase fun _ hjoined => by cases hjoined
  | broadcast i update =>
    obtain ⟨socket, hsocket, hs⟩ := Option.bind_eq_some_iff.mp hs
    split at hs
    case h_2 => cases hs
    case h_1 =>
      cases hs
      exact h
  | removeClient i =>
    obtain ⟨socket, hsocket, hs⟩ := Option.bind_eq_some_iff.mp hs
    split at hs
    case h_2 => cases hs
    case h_1 =>
      cases hs
      refine h.setPhase fun room hroom => ?_
      split at hroom <;> cases hroom
  | removeRoomIfEmpty i =>
    obtain ⟨socket, hsocket, hs⟩ := Option.bind_eq_some_iff.mp hs
    split at hs
    case h_2 => cases hs
    case h_1 =>
      cases hs
      exact h.update (hcond socket hsocket) fun _ hgiven => by cases hgiven

/-- **Where rooms are evicted only when no client of the document is in one or about to join one, every
client is in the room of the manager, and an update reaches all other clients of the document.** -/
theorem one_live_room {run : List (ManagerAction D U)} (hrun : Along step EvictsUnused new run)
    (hend : exec step new run = some m) : OneLiveRoom m ∧ ReachesAll m := by
  have hnew : Inv (new : YjsManager D U) := fun _ h => by cases h
  have hinv := exec_invariant_along (fun _ _ _ h hcond hs => inv_step h hcond hs) hnew hrun hend
  exact ⟨hinv.oneLiveRoom, hinv.oneLiveRoom.reachesAll⟩

/-! ## Two clients, one after the other -/

/-- A client connects to the only document and joins a room that is not there. -/
def opens (i : Nat) : List (ManagerAction Unit Nat) :=
  [.connect (), .getRoom i, .insertRoom i true, .addClient i, .initialSync i true]

/-- The last client leaves before the next one connects. -/
def inTurn : List (ManagerAction Unit Nat) :=
  opens 0 ++ [.removeClient 0, .removeRoomIfEmpty 0] ++ opens 1 ++
    [.connect (), .getRoom 2, .addClient 2, .initialSync 2 true]

/-- The second client is given the room between the count of the first and its eviction; a third one
comes after it. -/
def inBetween : List (ManagerAction Unit Nat) :=
  opens 0 ++ [.removeClient 0, .connect (), .getRoom 1, .removeRoomIfEmpty 0, .addClient 1,
    .initialSync 1 true] ++ opens 2

instance (phase : SocketPhase) : Decidable (Uses phase) := by
  cases phase <;> unfold Uses <;> infer_instance

instance (m : YjsManager Unit Nat) (act : ManagerAction Unit Nat) : Decidable (EvictsUnused m act) := by
  cases act <;> unfold EvictsUnused <;> infer_instance

theorem one_live_room_inTurn : ∃ m, exec step new inTurn = some m ∧ OneLiveRoom m ∧ ReachesAll m := by
  have hrun : Along step EvictsUnused new inTurn := by decide
  exact ⟨_, rfl, one_live_room hrun rfl⟩

/-- The second client stays in the room that was evicted, and what the third one writes does not reach
it. -/
theorem two_rooms_inBetween : ∃ m, exec step new inBetween = some m ∧ ¬ OneLiveRoom m ∧ ¬ ReachesAll m := by
  refine ⟨_, rfl, ?_, ?_⟩
  · intro h
    have := h ⟨(), .joined 0 true⟩ (by decide) 0 rfl
    revert this
    decide
  · intro h
    have := h 2 7 _ rfl ⟨(), .joined 1 true⟩ rfl 1 (by decide) ⟨(), .joined 0 true⟩ rfl rfl rfl
    revert this
    decide

end LiveRoom

end Mekhan

import Mathlib.Data.Multiset.Lattice

/-!
# A collaborative room

`service/src/yjs/room.rs`. A document is an element of a join semilattice, the empty one its least
element; `apply_update` of the library is the join, and the encoding of a state loses nothing.

`handle_message` holds no lock from end to end: it reads the state, merges on another thread, writes the
state back, stores the update and broadcasts it. Between any two of these other calls may run.
-/

namespace Mekhan

namespace Yjs

/-- A message of a client, by its first byte. -/
inductive RoomMessage (α V : Type) where
  | syncStep1 (stateVector : V)
  | syncStep2 (update : α)
  | update (update : α)
  /-- An empty message, or one of another type. -/
  | invalid

variable {α V : Type}

def RoomMessage.update? : RoomMessage α V → Option α
  | syncStep2 u | update u => some u
  | syncStep1 _ | invalid => none

inductive Phase (α : Type) where
  | received
  | merging (base : α)
  /-- It is about to write the state that it made of the one it read. -/
  | merged (base new : α)
  | written
  | stored
  | returned (response : Option α)
  | failed

structure RoomCall (α V : Type) where
  clientId : Nat
  message : RoomMessage α V
  phase : Phase α

structure YjsRoom (α V : Type) where
  state : α
  clients : List Nat
  calls : List (RoomCall α V)
  persisted : List α
  sent : List (Nat × α)

inductive RoomAction (α V : Type) where
  | addClient (clientId : Nat)
  | removeClient (clientId : Nat)
  | handleMessage (clientId : Nat) (message : RoomMessage α V)
  | readState (call : Nat)
  /-- The blocking task; it fails on bytes that it cannot decode. -/
  | merge (call : Nat) (succeeds : Bool)
  | writeState (call : Nat)
  | storeUpdate (call : Nat) (succeeds : Bool)
  | broadcast (call : Nat)

namespace YjsRoom

variable [SemilatticeSup α] [OrderBot α] (diff : V → α → α)

/-- `from_doc`, of the document that the stored updates make. -/
def fromDoc (stored : List α) : YjsRoom α V := ⟨(stored : Multiset α).sup, [], [], stored, []⟩

def setPhase (room : YjsRoom α V) (i : Nat) (call : RoomCall α V) (phase : Phase α) : YjsRoom α V :=
  { room with calls := room.calls.set i { call with phase } }

/-- What the blocking task makes of the state that was read: the difference to a state vector, or the
state with the update. -/
def mergeResult (base : α) : RoomMessage α V → Phase α
  | .syncStep1 stateVector => .returned (some (diff stateVector base))
  | .syncStep2 u | .update u => .merged base (base ⊔ u)
  | .invalid => .failed

def step (room : YjsRoom α V) : RoomAction α V → Option (YjsRoom α V)
  | .addClient clientId => some { room with clients := clientId :: room.clients.erase clientId }
  | .removeClient clientId => some { room with clients := room.clients.erase clientId }
  | .handleMessage clientId message =>
    let phase := match message with
      | .invalid => Phase.failed
      | _ => .received
    some { room with calls := room.calls ++ [⟨clientId, message, phase⟩] }
  | .readState i => room.calls[i]?.bind fun call =>
    match call.phase with
    | .received => some (room.setPhase i call (.merging room.state))
    | _ => none
  | .merge i succeeds => room.calls[i]?.bind fun call =>
    match call.phase with
    | .merging base =>
      some (room.setPhase i call (if succeeds then mergeResult diff base call.message else .failed))
    | _ => none
  | .writeState i => room.calls[i]?.bind fun call =>
    match call.phase with
    | .merged _ new => some { room.setPhase i call .written with state := new }
    | _ => none
  | .storeUpdate i succeeds => room.calls[i]?.bind fun call =>
    match call.phase, call.message with
    | .written, .syncStep2 u =>
      if succeeds then
        some { room.setPhase i call (.returned none) with persisted := room.persisted ++ [u] }
      else some (room.setPhase i call .failed)
    | .written, .update u =>
      if succeeds then some { room.setPhase i call .stored with persisted := room.persisted ++ [u] }
      else some (room.setPhase i call .failed)
    | _, _ => none
  | .broadcast i => room.calls[i]?.bind fun call =>
    match call.phase, call.message with
    | .stored, .update u =>
      some { room.setPhase i call (.returned none) with
        sent := room.sent ++ (room.clients.filter (· ≠ call.clientId)).map fun client => (client, u) }
    | _, _ => none

end YjsRoom

end Yjs

end Mekhan

/-!
## The rooms of the manager

`service/src/yjs/manager.rs` and the socket handler of `service/src/handlers/yjs_sync.rs`. A room is known
by a number, which a new room takes from a counter; the clients of a room are those whose handler has
added them to it and not removed them. What is in a room is modelled in `Mekhan.Yjs.Room`.

Between two `await`s of a handler the other handlers may run: it asks for the room, joins it, and when it
leaves it counts who remains before it asks the manager to evict the room.
-/

namespace Mekhan

namespace Yjs

variable {D U : Type}

/-- How far the handler of a socket has come. -/
inductive SocketPhase where
  | connecting
  /-- The room was not there and is being made from the database. -/
  | loading
  /-- `get_or_create_room` has returned this room. -/
  | given (room : Nat)
  /-- The client is in the room; `synced` once the initial sync is sent. -/
  | joined (room : Nat) (synced : Bool)
  /-- It has left a room in which no client remained. -/
  | evicting
  | disconnected
  deriving DecidableEq

structure Socket (D : Type) where
  docId : D
  phase : SocketPhase
  deriving DecidableEq

def SocketPhase.room? : SocketPhase → Option Nat
  | joined room _ => some room
  | _ => none

structure YjsManager (D U : Type) where
  rooms : D → Option Nat
  nextRoom : Nat
  sockets : List (Socket D)
  sent : List (Nat × U)

inductive ManagerAction (D U : Type) where
  | connect (docId : D)
  | getRoom (socket : Nat)
  /-- The end of the slow path; the database may fail. -/
  | insertRoom (socket : Nat) (succeeds : Bool)
  | addClient (socket : Nat)
  | initialSync (socket : Nat) (succeeds : Bool)
  | broadcast (socket : Nat) (update : U)
  | removeClient (socket : Nat)
  | removeRoomIfEmpty (socket : Nat)

namespace YjsManager

def new : YjsManager D U := ⟨fun _ => none, 0, [], []⟩

def setPhase (m : YjsManager D U) (i : Nat) (socket : Socket D) (phase : SocketPhase) : YjsManager D U :=
  { m with sockets := m.sockets.set i { socket with phase } }

def clients (m : YjsManager D U) (room : Nat) : List Nat :=
  (List.range m.sockets.length).filter fun i => (m.sockets[i]?.bind (·.phase.room?)) = some room

variable [DecidableEq D]

def step (m : YjsManager D U) : ManagerAction D U → Option (YjsManager D U)
  | .connect docId => some { m with sockets := m.sockets ++ [⟨docId, .connecting⟩] }
  | .getRoom i => m.sockets[i]?.bind fun socket =>
    match socket.phase with
    | .connecting =>
      match m.rooms socket.docId with
      | some room => some (m.setPhase i socket (.given room))
      | none => some (m.setPhase i socket .loading)
    | _ => none
  | .insertRoom i succeeds => m.sockets[i]?.bind fun socket =>
    match socket.phase with
    | .loading =>
      if succeeds then
        -- another handler may have inserted a room since
        match m.rooms socket.docId with
        | some room => some (m.setPhase i socket (.given room))
        | none =>
          some { m.setPhase i socket (.given m.nextRoom) with
            rooms := Function.update m.rooms socket.docId (some m.nextRoom)
            nextRoom := m.nextRoom + 1 }
      else some (m.setPhase i socket .disconnected)
    | _ => none
  | .addClient i => m.sockets[i]?.bind fun socket =>
    match socket.phase with
    | .given room => some (m.setPhase i socket (.joined room false))
    | _ => none
  | .initialSync i succeeds => m.sockets[i]?.bind fun socket =>
    match socket.phase with
    | .joined room false =>
      -- where the sync fails the client is removed, and no room is evicted
      some (m.setPhase i socket (if succeeds then .joined room true else .disconnected))
    | _ => none
  | .broadcast i update => m.sockets[i]?.bind fun socket =>
    match socket.phase with
    | .joined room true =>
      some { m with sent := m.sent ++ ((m.clients room).filter (· ≠ i)).map fun client => (client, update) }
    | _ => none
  | .removeClient i => m.sockets[i]?.bind fun socket =>
    match socket.phase with
    | .joined room true =>
      let remaining := ((m.clients room).filter (· ≠ i)).length
      some (m.setPhase i socket (if remaining = 0 then .evicting else .disconnected))
    | _ => none
  | .removeRoomIfEmpty i => m.sockets[i]?.bind fun socket =>
    match socket.phase with
    | .evicting =>
      -- `remove_if` with a condition that is always true
      some { m.setPhase i socket .disconnected with rooms := Function.update m.rooms socket.docId none }
    | _ => none

end YjsManager

end Yjs

end Mekhan

import Mathlib.Data.List.Sort

/-!
# The stored document

`service/src/yjs/persistence.rs`, for one document. A document is an element of a join semilattice, as in
the room. Each statement is one step, and a call that fails or is stopped takes no further step.

`INSERT` is two steps: the row gets its `seq` from the sequence before the statement commits, and until
then no other statement sees it. The sequence is shared with the other documents, so values are skipped.
-/

namespace Mekhan

namespace Yjs

variable {α : Type}

/-- How far a call of `store_update` has come. -/
inductive StorePhase where
  /-- The row has its `seq` but is not visible. -/
  | inserting
  | inserted
  | returned
  deriving DecidableEq

structure StoreCall (α : Type) where
  update : α
  seq : Nat
  phase : StorePhase

/-- How far a run of `compact_from_db` has come. -/
inductive CompactionPhase (α : Type) where
  | started
  | readSnapshot (snapshot : Option (α × Nat))
  /-- It is about to upsert what it makes of these. -/
  | readRows (snapshot : Option (α × Nat)) (rows : List (Nat × α))
  | upserted (maxIncludedSeq : Nat)
  | returned

/-- How far a call of `load_raw_updates` has come. -/
inductive LoadPhase (α : Type) where
  | started
  | readSnapshot (snapshot : Option (α × Nat))
  | returned (snapshot : Option α) (updates : List α)

structure LoadCall (α : Type) where
  /-- The rows whose `store_update` had returned before this load began. -/
  earlier : List (Nat × α)
  phase : LoadPhase α

/-- The tables, for one document, and the calls that work on them. -/
structure YjsPersistence (α : Type) where
  /-- `yjs_documents` -/
  documents : List (Nat × α)
  /-- `yjs_snapshots` -/
  snapshot : Option (α × Nat)
  lastSeq : Nat
  stores : List (StoreCall α)
  compactions : List (CompactionPhase α)
  loads : List (LoadCall α)

inductive PersistenceAction (α : Type) where
  /-- The `INSERT` takes a value of the sequence; `skipped` values went to other documents since. -/
  | storeUpdate (update : α) (skipped : Nat)
  | commitInsert (store : Nat)
  /-- Counts the rows, starts a compaction when there are too many, and returns. -/
  | countRows (store : Nat)
  | compactFromDb
  | selectSnapshot (compaction : Nat)
  | selectRows (compaction : Nat)
  | upsertSnapshot (compaction : Nat)
  | deleteRows (compaction : Nat)
  | loadRawUpdates
  | loadSnapshot (load : Nat)
  | loadUpdates (load : Nat)

def compactionThreshold : Nat := 100

/-- The `snapshot_seq` of what was read, 0 when there was none. -/
def snapshotSeq (snapshot : Option (α × Nat)) : Nat := (snapshot.map (·.2)).getD 0

/-- `seq > after_seq ORDER BY seq ASC` -/
def rowsAfter (documents : List (Nat × α)) (afterSeq : Nat) : List (Nat × α) :=
  (documents.filter fun row => afterSeq < row.1).insertionSort fun r r' => r.1 ≤ r'.1

/-- The `seq` of the last row, for a list that is in order. -/
def maxIncludedSeq (rows : List (Nat × α)) (prevSeq : Nat) : Nat := (rows.getLast?.map (·.1)).getD prevSeq

namespace YjsPersistence

/-- The rows whose `INSERT` has committed, deleted or not. -/
def committed (db : YjsPersistence α) : List (Nat × α) :=
  (db.stores.filter fun store => store.phase ≠ .inserting).map fun store => (store.seq, store.update)

/-- The rows whose `store_update` has returned. -/
def returned (db : YjsPersistence α) : List (Nat × α) :=
  (db.stores.filter fun store => store.phase = .returned).map fun store => (store.seq, store.update)

def setStore (db : YjsPersistence α) (i : Nat) (store : StoreCall α) (phase : StorePhase) : YjsPersistence α :=
  { db with stores := db.stores.set i { store with phase } }

def setCompaction (db : YjsPersistence α) (i : Nat) (phase : CompactionPhase α) : YjsPersistence α :=
  { db with compactions := db.compactions.set i phase }

def setLoad (db : YjsPersistence α) (i : Nat) (load : LoadCall α) (phase : LoadPhase α) : YjsPersistence α :=
  { db with loads := db.loads.set i { load with phase } }

def new : YjsPersistence α := ⟨[], none, 0, [], [], []⟩

variable [SemilatticeSup α] [OrderBot α]

/-- The document that a snapshot and the updates after it make. -/
def buildDocFromRaw (snapshot : Option α) (updates : List α) : α :=
  updates.foldl (· ⊔ ·) (snapshot.getD ⊥)

/-- `ON CONFLICT (doc_id) DO UPDATE … WHERE yjs_snapshots.snapshot_seq < EXCLUDED.snapshot_seq` -/
def upsert (snapshot : Option (α × Nat)) (state : α) (seq : Nat) : Option (α × Nat) :=
  match snapshot with
  | none => some (state, seq)
  | some (data, storedSeq) => if storedSeq < seq then some (state, seq) else some (data, storedSeq)

def step (db : YjsPersistence α) : PersistenceAction α → Option (YjsPersistence α)
  | .storeUpdate update skipped =>
    let seq := db.lastSeq + skipped + 1
    some { db with lastSeq := seq, stores := db.stores ++ [⟨update, seq, .inserting⟩] }
  | .commitInsert i => db.stores[i]?.bind fun store =>
    match store.phase with
    | .inserting =>
      some { db.setStore i store .inserted with documents := db.documents ++ [(store.seq, store.update)] }
    | _ => none
  | .countRows i => db.stores[i]?.bind fun store =>
    match store.phase with
    | .inserted =>
      let db' := db.setStore i store .returned
      some (if compactionThreshold < db.documents.length then
        { db' with compactions := db.compactions ++ [.started] } else db')
    | _ => none
  | .compactFromDb => some { db with compactions := db.compactions ++ [.started] }
  | .selectSnapshot i => db.compactions[i]?.bind fun phase =>
    match phase with
    | .started => some (db.setCompaction i (.readSnapshot db.snapshot))
    | _ => none
  | .selectRows i => db.compactions[i]?.bind fun phase =>
    match phase with
    | .readSnapshot snapshot =>
      let rows := rowsAfter db.documents (snapshotSeq snapshot)
      -- nothing new on the snapshot: it is left untouched
      some (db.setCompaction i (if rows.isEmpty then .returned else .readRows snapshot rows))
    | _ => none
  | .upsertSnapshot i => db.compactions[i]?.bind fun phase =>
    match phase with
    | .readRows snapshot rows =>
      let maxSeq := maxIncludedSeq rows (snapshotSeq snapshot)
      let state := buildDocFromRaw (snapshot.map (·.1)) (rows.map (·.2))
      some { db.setCompaction i (.upserted maxSeq) with snapshot := upsert db.snapshot state maxSeq }
    | _ => none
  | .deleteRows i => db.compactions[i]?.bind fun phase =>
    match phase with
    | .upserted maxSeq =>
      some { db.setCompaction i .returned with documents := db.documents.filter fun row => ¬ row.1 ≤ maxSeq }
    | _ => none
  | .loadRawUpdates => some { db with loads := db.loads ++ [⟨db.returned, .started⟩] }
  | .loadSnapshot i => db.loads[i]?.bind fun load =>
    match load.phase with
    | .started => some (db.setLoad i load (.readSnapshot db.snapshot))
    | _ => none
  | .loadUpdates i => db.loads[i]?.bind fun load =>
    match load.phase with
    | .readSnapshot snapshot =>
      let updates := (rowsAfter db.documents (snapshotSeq snapshot)).map (·.2)
      some (db.setLoad i load (.returned (snapshot.map (·.1)) updates))
    | _ => none

end YjsPersistence

end Yjs

end Mekhan

import Mekhan.Infra.Runs
import Mekhan.Infra.Slots
import Mekhan.Yjs.Persistence
import Mathlib.Order.Lattice.Nat

/-!
# Compaction and loading

What is stored of a document is its snapshot and the rows after the `snapshot_seq`. Compaction moves rows
from the second part to the first in four statements, and it loses an update in two ways: a row commits
with a `seq` that a snapshot already covers, or a snapshot is stamped over rows that its compaction has
not read, because they committed since or because another compaction has deleted them.
-/

namespace Mekhan

namespace Compaction

open Infra Yjs YjsPersistence

variable {α : Type}

/-- Every row that the new snapshot would cover, and the one it builds on does not, was read. -/
def FoldsAll (db : YjsPersistence α) : CompactionPhase α → Prop
  | .readRows snapshot rows =>
    snapshotSeq db.snapshot < maxIncludedSeq rows (snapshotSeq snapshot) →
      ∀ row ∈ db.committed, snapshotSeq snapshot < row.1 →
        row.1 ≤ maxIncludedSeq rows (snapshotSeq snapshot) → row ∈ rows
  | _ => True

/-- A row commits above the snapshot, and a snapshot that takes effect folds in all that it covers. -/
def CoversOnlyRead (db : YjsPersistence α) : PersistenceAction α → Prop
  | .commitInsert i => ∀ store ∈ db.stores[i]?, snapshotSeq db.snapshot < store.seq
  | .upsertSnapshot i => ∀ phase ∈ db.compactions[i]?, FoldsAll db phase
  | _ => True

/-- The rows of earlier calls that a load has yet to read are in the table. -/
def StillThere (db : YjsPersistence α) (load : LoadCall α) : Prop :=
  match load.phase with
  | .readSnapshot snapshot => ∀ row ∈ load.earlier, snapshotSeq snapshot < row.1 → row ∈ db.documents
  | _ => True

/-- A load reads the rows before a compaction deletes any that its snapshot does not cover. -/
def ReadsBeforeDelete (db : YjsPersistence α) : PersistenceAction α → Prop
  | .loadUpdates i => ∀ load ∈ db.loads[i]?, StillThere db load
  | _ => True

section Lattice

variable [SemilatticeSup α] [OrderBot α]

def joinOf (rows : List (Nat × α)) : α := (↑(rows.map (·.2)) : Multiset α).sup

/-- The snapshot, joined with the rows after it. -/
def stored (db : YjsPersistence α) : α :=
  buildDocFromRaw (db.snapshot.map (·.1)) ((rowsAfter db.documents (snapshotSeq db.snapshot)).map (·.2))

/-- What is stored is the join of all updates whose insert has committed. -/
def NothingLost (db : YjsPersistence α) : Prop := stored db = joinOf db.committed

/-- The document that a load returned has every update whose `store_update` had returned before. -/
def SeesEarlier (load : LoadCall α) : Prop :=
  match load.phase with
  | .returned snapshot updates => ∀ row ∈ load.earlier, row.2 ≤ buildDocFromRaw snapshot updates
  | _ => True

end Lattice

/-! ## The rows that are read -/

variable {rows : List (Nat × α)} {seq : Nat} {act : PersistenceAction α}

variable {documents : List (Nat × α)} {phase : StorePhase} {load : LoadCall α} {maxSeq : Nat}

theorem mem_rowsAfter {row : Nat × α} : row ∈ rowsAfter documents seq ↔ row ∈ documents ∧ seq < row.1 := by
  simp [rowsAfter]

theorem le_maxIncludedSeq {row : Nat × α}
    (h : row ∈ rowsAfter documents seq) : row.1 ≤ maxIncludedSeq (rowsAfter documents seq) seq := by
  have : Std.Total fun r r' : Nat × α => r.1 ≤ r'.1 := ⟨fun r r' => Nat.le_total r.1 r'.1⟩
  have : IsTrans (Nat × α) fun r r' => r.1 ≤ r'.1 := ⟨fun _ _ _ => Nat.le_trans⟩
  have : Std.Refl fun r r' : Nat × α => r.1 ≤ r'.1 := ⟨fun r => Nat.le_refl r.1⟩
  have hsorted : (rowsAfter documents seq).Pairwise fun r r' => r.1 ≤ r'.1 := List.pairwise_insertionSort _ _
  have hne : rowsAfter documents seq ≠ [] := List.ne_nil_of_mem h
  have hlast : maxIncludedSeq (rowsAfter documents seq) seq = ((rowsAfter documents seq).getLast hne).1 := by
    unfold maxIncludedSeq
    rw [List.getLast?_eq_some_getLast hne]
    rfl
  rw [hlast]
  exact hsorted.rel_getLast h

/-! ## The rows that have committed -/

variable {db db' : YjsPersistence α} {i : Nat} {store : StoreCall α} {row : Nat × α}
  {snapshot : Option (α × Nat)}

theorem mem_committed : row ∈ db.committed ↔
    ∃ store ∈ db.stores, store.phase ≠ .inserting ∧ (store.seq, store.update) = row := by
  simp [committed, and_assoc]

theorem mem_returned : row ∈ db.returned ↔
    ∃ store ∈ db.stores, store.phase = .returned ∧ (store.seq, store.update) = row := by
  simp [returned, and_assoc]

theorem mem_committed_of_returned (h : row ∈ db.returned) : row ∈ db.committed := by
  obtain ⟨store, hmem, hphase, hrow⟩ := mem_returned.mp h
  exact mem_committed.mpr ⟨store, hmem, by rw [hphase]; decide, hrow⟩

section Set

variable {phase : StorePhase} (hset : db'.stores = db.stores.set i { store with phase })

include hset

theorem mem_committed_set (hstore : db.stores[i]? = some store) (hphase : phase ≠ .inserting) :
    (store.seq, store.update) ∈ db'.committed := by
  have hmem : { store with phase } ∈ db'.stores := by
    rw [hset]
    exact List.mem_set (List.getElem?_eq_some_iff.mp hstore).1 _
  exact mem_committed.mpr ⟨_, hmem, hphase, rfl⟩

theorem mem_committed_set_of_mem (hstore : db.stores[i]? = some store) (hphase : phase ≠ .inserting)
    (h : row ∈ db.committed) : row ∈ db'.committed := by
  obtain ⟨store', hmem, hne, hrow⟩ := mem_committed.mp h
  rcases eq_or_mem_set hstore hmem with rfl | hmem'
  · exact hrow ▸ mem_committed_set hset hstore hphase
  · exact mem_committed.mpr ⟨store', hset ▸ hmem', hne, hrow⟩

theorem mem_committed_of_set (h : row ∈ db'.committed) :
    row ∈ db.committed ∨ row = (store.seq, store.update) := by
  obtain ⟨store', hmem, hne, hrow⟩ := mem_committed.mp h
  rw [hset] at hmem
  rcases List.mem_or_eq_of_mem_set hmem with hmem | rfl
  · exact .inl (mem_committed.mpr ⟨store', hmem, hne, hrow⟩)
  · exact .inr hrow.symm

end Set

/-! ## The snapshot moves forward -/

theorem snapshotSeq_le_upsert (state : α) (seq : Nat) :
    snapshotSeq snapshot ≤ snapshotSeq (upsert snapshot state seq) ∧
      seq ≤ snapshotSeq (upsert snapshot state seq) := by
  cases snapshot with
  | none => exact ⟨Nat.zero_le _, Nat.le_refl _⟩
  | some current =>
    obtain ⟨data, storedSeq⟩ := current
    by_cases hlt : storedSeq < seq
    · rw [upsert, if_pos hlt]
      exact ⟨Nat.le_of_lt hlt, Nat.le_refl _⟩
    · rw [upsert, if_neg hlt]
      exact ⟨Nat.le_refl _, Nat.le_of_not_lt hlt⟩

theorem upsert_cases (state : α) {seq : Nat} (hseq : 0 < seq) :
    snapshotSeq snapshot < seq ∧ upsert snapshot state seq = some (state, seq) ∨
      upsert snapshot state seq = snapshot := by
  cases snapshot with
  | none => exact .inl ⟨hseq, rfl⟩
  | some current =>
    obtain ⟨data, storedSeq⟩ := current
    by_cases hlt : storedSeq < seq
    · exact .inl ⟨hlt, by rw [upsert, if_pos hlt]⟩
    · exact .inr (by rw [upsert, if_neg hlt])

/-- The snapshot moves only forward, and the rows that are new are above it. -/
structure Advances (db db' : YjsPersistence α) : Prop where
  seq_le : snapshotSeq db.snapshot ≤ snapshotSeq db'.snapshot
  kept : ∀ row ∈ db.committed, row ∈ db'.committed
  fresh : ∀ row ∈ db'.committed, row ∈ db.committed ∨ snapshotSeq db.snapshot < row.1

theorem committed_congr (hstores : db'.stores = db.stores) : db'.committed = db.committed := by
  unfold committed
  rw [hstores]

theorem Advances.of_stores_eq (hstores : db'.stores = db.stores)
    (hsnapshot : snapshotSeq db.snapshot ≤ snapshotSeq db'.snapshot) : Advances db db' := by
  have hcommitted := committed_congr hstores
  exact ⟨hsnapshot, fun row h => hcommitted ▸ h, fun row h => .inl (hcommitted ▸ h)⟩

theorem Advances.of_setStore (hstore : db.stores[i]? = some store)
    (hset : db'.stores = db.stores.set i { store with phase }) (hsnapshot : db'.snapshot = db.snapshot)
    (hphase : phase ≠ .inserting)
    (hfresh : store.phase ≠ .inserting ∨ snapshotSeq db.snapshot < store.seq) : Advances db db' where
  seq_le := Nat.le_of_eq (by rw [hsnapshot])
  kept row h := mem_committed_set_of_mem hset hstore hphase h
  fresh row h := by
    rcases mem_committed_of_set hset h with hold | rfl
    · exact .inl hold
    · exact hfresh.imp (fun hne => mem_committed.mpr ⟨store, List.mem_of_getElem? hstore, hne, rfl⟩) id

/-! ## What the calls carry -/

variable [SemilatticeSup α] [OrderBot α]

theorem joinOf_le_iff {a : α} : joinOf rows ≤ a ↔ ∀ row ∈ rows, row.2 ≤ a := by
  unfold joinOf
  rw [Multiset.sup_le]
  constructor
  · exact fun h row hrow => h row.2 (List.mem_map_of_mem hrow)
  · intro h u hu
    obtain ⟨row, hrow, rfl⟩ := List.mem_map.mp hu
    exact h row hrow

theorem le_joinOf (h : row ∈ rows) : row.2 ≤ joinOf rows :=
  joinOf_le_iff.mp le_rfl row h

theorem joinOf_mono {rows' : List (Nat × α)} (h : ∀ row ∈ rows, row ∈ rows') : joinOf rows ≤ joinOf rows' :=
  joinOf_le_iff.mpr fun row hrow => le_joinOf (h row hrow)

theorem buildDocFromRaw_rows (data : Option α) (rows : List (Nat × α)) :
    buildDocFromRaw data (rows.map (·.2)) = data.getD ⊥ ⊔ joinOf rows := by
  unfold buildDocFromRaw
  generalize data.getD ⊥ = base
  induction rows generalizing base with
  | nil => simp [joinOf]
  | cons row rows ih =>
    rw [List.map_cons, List.foldl_cons, ih, sup_assoc]
    simp [joinOf]

/-- The data of what was read, the empty document when there was none. -/
def snapshotData (snapshot : Option (α × Nat)) : α := (snapshot.map (·.1)).getD ⊥

/-- A snapshot that is, or was, that of the document: it has the updates of the rows up to its `seq`, and
nothing else than updates of committed rows. -/
structure Covers (db : YjsPersistence α) (snapshot : Option (α × Nat)) : Prop where
  seq_le : snapshotSeq snapshot ≤ snapshotSeq db.snapshot
  data_le : snapshotData snapshot ≤ joinOf db.committed
  le_data : ∀ row ∈ db.committed, row.1 ≤ snapshotSeq snapshot → row.2 ≤ snapshotData snapshot

theorem Covers.advance (h : Covers db snapshot) (hadv : Advances db db') : Covers db' snapshot where
  seq_le := h.seq_le.trans hadv.seq_le
  data_le := h.data_le.trans (joinOf_mono hadv.kept)
  le_data := by
    intro row hrow hle
    rcases hadv.fresh row hrow with hold | hnew
    · exact h.le_data row hold hle
    · -- a row that is new is above the snapshot of the document, and that above the one that was read
      have := h.seq_le
      omega

def CompactionOk (db : YjsPersistence α) : CompactionPhase α → Prop
  | .readSnapshot snapshot => Covers db snapshot
  | .readRows snapshot rows => Covers db snapshot ∧ rows ≠ [] ∧ (∀ row ∈ rows, row ∈ db.committed) ∧
      ∃ documents, rows = rowsAfter documents (snapshotSeq snapshot)
  | .upserted maxSeq => maxSeq ≤ snapshotSeq db.snapshot
  | .started | .returned => True

theorem CompactionOk.advance {phase : CompactionPhase α} (h : CompactionOk db phase) (hadv : Advances db db') :
    CompactionOk db' phase := by
  cases phase with
  | started => trivial
  | readSnapshot snapshot => exact Covers.advance h hadv
  | readRows snapshot rows =>
    obtain ⟨hcovers, hne, hrows, hread⟩ := h
    exact ⟨hcovers.advance hadv, hne, fun row hrow => hadv.kept row (hrows row hrow), hread⟩
  | upserted maxSeq => exact Nat.le_trans h hadv.seq_le
  | returned => trivial

structure LoadOk (db : YjsPersistence α) (load : LoadCall α) : Prop where
  earlier : ∀ row ∈ load.earlier, row ∈ db.committed
  covers : ∀ snapshot, load.phase = .readSnapshot snapshot → Covers db snapshot
  sees : SeesEarlier load

theorem LoadOk.advance (h : LoadOk db load) (hadv : Advances db db') : LoadOk db' load where
  earlier row hrow := hadv.kept row (h.earlier row hrow)
  covers snapshot hphase := (h.covers snapshot hphase).advance hadv
  sees := h.sees

/-! ## The tables between two statements -/

structure Inv (db : YjsPersistence α) : Prop where
  seq_pos : ∀ store ∈ db.stores, 0 < store.seq
  documents : ∀ row ∈ db.documents, row ∈ db.committed
  present : ∀ row ∈ db.committed, snapshotSeq db.snapshot < row.1 → row ∈ db.documents
  covers : Covers db db.snapshot
  compactions : ∀ phase ∈ db.compactions, CompactionOk db phase

theorem inv_new : Inv (new : YjsPersistence α) where
  seq_pos _ h := by cases h
  documents _ h := by cases h
  present _ h := by cases h
  covers := ⟨Nat.le_refl _, bot_le, fun _ h => by cases h⟩
  compactions _ h := by cases h

theorem Inv.nothingLost (h : Inv db) : NothingLost db := by
  unfold NothingLost stored
  rw [buildDocFromRaw_rows]
  apply le_antisymm
  · apply sup_le h.covers.data_le
    exact joinOf_mono fun row hrow => h.documents row (mem_rowsAfter.mp hrow).1
  · rw [joinOf_le_iff]
    intro row hrow
    by_cases hseq : row.1 ≤ snapshotSeq db.snapshot
    · exact (h.covers.le_data row hrow hseq).trans le_sup_left
    · have hdoc : row ∈ db.documents := h.present row hrow (by omega)
      exact (le_joinOf (mem_rowsAfter.mpr ⟨hdoc, by omega⟩)).trans le_sup_right

theorem Inv.of_tables_eq (h : Inv db) (hstores : db'.stores = db.stores) (hdocuments : db'.documents = db.documents)
    (hsnapshot : db'.snapshot = db.snapshot)
    (hcompactions : ∀ phase ∈ db'.compactions, phase ∈ db.compactions ∨ CompactionOk db phase) :
    Advances db db' ∧ Inv db' := by
  have hadv : Advances db db' := .of_stores_eq hstores (Nat.le_of_eq (by rw [hsnapshot]))
  have hcommitted := committed_congr hstores
  refine ⟨hadv, ?_, ?_, ?_, ?_, ?_⟩
  · rw [hstores]
    exact h.seq_pos
  · rw [hdocuments, hcommitted]
    exact h.documents
  · rw [hdocuments, hcommitted, hsnapshot]
    exact h.present
  · rw [hsnapshot]
    exact h.covers.advance hadv
  · intro phase hphase
    rcases hcompactions phase hphase with hold | hok
    · exact (h.compactions phase hold).advance hadv
    · exact hok.advance hadv

theorem Inv.of_setStore (h : Inv db) (hstore : db.stores[i]? = some store)
    (hset : db'.stores = db.stores.set i { store with phase }) (hsnapshot : db'.snapshot = db.snapshot)
    (hphase : phase ≠ .inserting) (hfresh : store.phase ≠ .inserting ∨ snapshotSeq db.snapshot < store.seq)
    (hold : ∀ row ∈ db'.documents, row ∈ db.documents ∨ row = (store.seq, store.update))
    (hkept : ∀ row ∈ db.documents, row ∈ db'.documents)
    (hvisible : store.phase = .inserting → (store.seq, store.update) ∈ db'.documents)
    (hcompactions : ∀ phase ∈ db'.compactions, phase ∈ db.compactions ∨ phase = .started) :
    Advances db db' ∧ Inv db' := by
  have hadv : Advances db db' := .of_setStore hstore hset hsnapshot hphase hfresh
  have hmem : store ∈ db.stores := List.mem_of_getElem? hstore
  refine ⟨hadv, ?_, ?_, ?_, ?_, ?_⟩
  · intro store' hstore'
    rw [hset] at hstore'
    rcases List.mem_or_eq_of_mem_set hstore' with hmem' | rfl
    · exact h.seq_pos store' hmem'
    · exact h.seq_pos store hmem
  · intro row hrow
    rcases hold row hrow with hrow | rfl
    · exact hadv.kept row (h.documents row hrow)
    · exact mem_committed_set hset hstore hphase
  · intro row hrow hseq
    rw [hsnapshot] at hseq
    rcases mem_committed_of_set hset hrow with hrow | rfl
    · exact hkept row (h.present row hrow hseq)
    · by_cases hinserting : store.phase = .inserting
      · exact hvisible hinserting
      · exact hkept _ (h.present _ (mem_committed.mpr ⟨store, hmem, hinserting, rfl⟩) hseq)
  · rw [hsnapshot]
    exact h.covers.advance hadv
  · intro phase' hphase'
    rcases hcompactions phase' hphase' with hphase' | rfl
    · exact (h.compactions phase' hphase').advance hadv
    · trivial

theorem Inv.storeUpdate (h : Inv db) (update : α) (seq : Nat) (hseq : 0 < seq) :
    Advances db { db with lastSeq := seq, stores := db.stores ++ [⟨update, seq, .inserting⟩] } ∧
      Inv { db with lastSeq := seq, stores := db.stores ++ [⟨update, seq, .inserting⟩] } := by
  have hcommitted : committed { db with lastSeq := seq, stores := db.stores ++ [⟨update, seq, .inserting⟩] } =
      db.committed := by
    simp [committed]
  have hadv : Advances db { db with lastSeq := seq, stores := db.stores ++ [⟨update, seq, .inserting⟩] } :=
    ⟨Nat.le_refl _, fun row hrow => hcommitted ▸ hrow, fun row hrow => .inl (hcommitted ▸ hrow)⟩
  refine ⟨hadv, ?_, ?_, ?_, h.covers.advance hadv, fun phase hphase => (h.compactions phase hphase).advance hadv⟩
  · intro store hstore
    rcases List.mem_append.mp hstore with hstore | hstore
    · exact h.seq_pos store hstore
    · rw [List.mem_singleton.mp hstore]
      exact hseq
  · rw [hcommitted]
    exact h.documents
  · rw [hcommitted]
    exact h.present

theorem Covers.fold (h : Covers db snapshot) (hrows : ∀ row ∈ rows, row ∈ db.committed)
    (hfolds : ∀ row ∈ db.committed, snapshotSeq snapshot < row.1 → row.1 ≤ seq → row ∈ rows)
    (hseq : seq ≤ snapshotSeq db.snapshot) :
    Covers db (some (buildDocFromRaw (snapshot.map (·.1)) (rows.map (·.2)), seq)) := by
  rw [buildDocFromRaw_rows]
  refine ⟨hseq, sup_le h.data_le (joinOf_mono hrows), ?_⟩
  intro row hrow hle
  by_cases hbase : row.1 ≤ snapshotSeq snapshot
  · exact (h.le_data row hrow hbase).trans le_sup_left
  · exact (le_joinOf (hfolds row hrow (by omega) hle)).trans le_sup_right

theorem Inv.upsertSnapshot (h : Inv db)
    (hphase : CompactionOk db (.readRows snapshot rows)) (hfolds : FoldsAll db (.readRows snapshot rows))
    (hmax : maxSeq = maxIncludedSeq rows (snapshotSeq snapshot))
    (hstores : db'.stores = db.stores) (hdocuments : db'.documents = db.documents) (hsnapshot : db'.snapshot =
      upsert db.snapshot (buildDocFromRaw (snapshot.map (·.1)) (rows.map (·.2))) maxSeq)
    (hcompactions : ∀ phase ∈ db'.compactions, phase ∈ db.compactions ∨ phase = .upserted maxSeq) :
    Advances db db' ∧ Inv db' := by
  obtain ⟨hcovers, hne, hrows, documents, hread⟩ := hphase
  have hle : snapshotSeq db.snapshot ≤ snapshotSeq db'.snapshot ∧ maxSeq ≤ snapshotSeq db'.snapshot := by
    rw [hsnapshot]
    exact snapshotSeq_le_upsert _ maxSeq
  have hadv : Advances db db' := .of_stores_eq hstores hle.1
  have hcommitted := committed_congr hstores
  have hpos : 0 < maxSeq := by
    obtain ⟨row, hrow⟩ := List.exists_mem_of_ne_nil rows hne
    subst hread
    have h₁ := (mem_rowsAfter.mp hrow).2
    have h₂ := le_maxIncludedSeq hrow
    omega
  refine ⟨hadv, ?_, ?_, ?_, ?_, ?_⟩
  · rw [hstores]
    exact h.seq_pos
  · rw [hdocuments, hcommitted]
    exact h.documents
  · intro row hrow hseq
    rw [hdocuments]
    exact h.present row (hcommitted ▸ hrow) (Nat.lt_of_le_of_lt hle.1 hseq)
  · rcases upsert_cases (buildDocFromRaw (snapshot.map (·.1)) (rows.map (·.2))) hpos with ⟨hlt, heq⟩ | heq
    · rw [hsnapshot, heq]
      refine (hcovers.advance hadv).fold (fun row hrow => hadv.kept row (hrows row hrow)) ?_ hle.2
      rw [hcommitted, hmax]
      exact hfolds (hmax ▸ hlt)
    · rw [hsnapshot, heq]
      exact h.covers.advance hadv
  · intro phase hphase
    rcases hcompactions phase hphase with hold | rfl
    · exact (h.compactions phase hold).advance hadv
    · exact hle.2

theorem Inv.deleteRows (h : Inv db) (hmax : maxSeq ≤ snapshotSeq db.snapshot)
    (hstores : db'.stores = db.stores) (hsnapshot : db'.snapshot = db.snapshot)
    (hdocuments : db'.documents = db.documents.filter fun row => ¬ row.1 ≤ maxSeq)
    (hcompactions : ∀ phase ∈ db'.compactions, phase ∈ db.compactions ∨ phase = .returned) :
    Advances db db' ∧ Inv db' := by
  have hadv : Advances db db' := .of_stores_eq hstores (Nat.le_of_eq (by rw [hsnapshot]))
  have hcommitted := committed_congr hstores
  refine ⟨hadv, ?_, ?_, ?_, ?_, ?_⟩
  · rw [hstores]
    exact h.seq_pos
  · intro row hrow
    rw [hdocuments] at hrow
    exact hadv.kept row (h.documents row (List.mem_filter.mp hrow).1)
  · intro row hrow hseq
    rw [hsnapshot] at hseq
    have hdoc := h.present row (hcommitted ▸ hrow) hseq
    rw [hdocuments, List.mem_filter]
    exact ⟨hdoc, by simp; omega⟩
  · rw [hsnapshot]
    exact h.covers.advance hadv
  · intro phase hphase
    rcases hcompactions phase hphase with hold | rfl
    · exact (h.compactions phase hold).advance hadv
    · trivial

theorem inv_step (h : Inv db) (hcond : CoversOnlyRead db act)
    (hs : step db act = some db') : Advances db db' ∧ Inv db' := by
  cases act with
  | storeUpdate update skipped =>
    cases hs
    exact h.storeUpdate update _ (Nat.succ_pos _)
  | commitInsert i =>
    obtain ⟨store, hstore, hs⟩ := Option.bind_eq_some_iff.mp hs
    split at hs
    case h_2 => cases hs
    case h_1 hphase =>
      cases hs
      refine h.of_setStore hstore rfl rfl (by decide) (.inr (hcond store hstore)) ?_ ?_ ?_ fun _ => .inl
      · exact fun row hrow => (List.mem_append.mp hrow).imp id List.mem_singleton.mp
      · exact fun row hrow => List.mem_append_left _ hrow
      · exact fun _ => List.mem_append_right _ (List.mem_singleton.mpr rfl)
  | countRows i =>
    obtain ⟨store, hstore, hs⟩ := Option.bind_eq_some_iff.mp hs
    split at hs
    case h_2 => cases hs
    case h_1 hphase =>
      have hinserted : store.phase ≠ .inserting := by rw [hphase]; decide
      cases hs
      split
      · refine h.of_setStore hstore rfl rfl (by decide) (.inl hinserted) (fun _ => .inl) (fun _ => id)
          (fun hne => absurd hne hinserted) ?_
        exact fun phase hphase => (List.mem_append.mp hphase).imp id List.mem_singleton.mp
      · exact h.of_setStore hstore rfl rfl (by decide) (.inl hinserted) (fun _ => .inl) (fun _ => id)
          (fun hne => absurd hne hinserted) (fun _ => .inl)
  | compactFromDb =>
    cases hs
    refine h.of_tables_eq rfl rfl rfl fun phase hphase => ?_
    rcases List.mem_append.mp hphase with hold | hnew
    · exact .inl hold
    · rw [List.mem_singleton.mp hnew]
      exact .inr trivial
  | selectSnapshot i =>
    obtain ⟨phase, hphase, hs⟩ := Option.bind_eq_some_iff.mp hs
    split at hs
    case h_2 => cases hs
    case h_1 =>
      cases hs
      refine h.of_tables_eq rfl rfl rfl fun phase hphase => ?_
      rcases List.mem_or_eq_of_mem_set hphase with hold | rfl
      · exact .inl hold
      · exact .inr h.covers
  | selectRows i =>
    obtain ⟨phase, hphase, hs⟩ := Option.bind_eq_some_iff.mp hs
    split at hs
    case h_2 => cases hs
    case h_1 snapshot =>
      cases hs
      have hcovers : Covers db snapshot := h.compactions _ (List.mem_of_getElem? hphase)
      refine h.of_tables_eq rfl rfl rfl fun phase hphase => ?_
      rcases List.mem_or_eq_of_mem_set hphase with hold | rfl
      · exact .inl hold
      refine .inr ?_
      split
      · trivial
      · rename_i hne
        refine ⟨hcovers, by simpa using hne, ?_, _, rfl⟩
        exact fun row hrow => h.documents row (mem_rowsAfter.mp hrow).1
  | upsertSnapshot i =>
    obtain ⟨phase, hphase, hs⟩ := Option.bind_eq_some_iff.mp hs
    split at hs
    case h_2 => cases hs
    case h_1 snapshot rows =>
      cases hs
      exact h.upsertSnapshot (h.compactions _ (List.mem_of_getElem? hphase)) (hcond _ hphase) rfl rfl rfl rfl
        fun phase => List.mem_or_eq_of_mem_set
  | deleteRows i =>
    obtain ⟨phase, hphase, hs⟩ := Option.bind_eq_some_iff.mp hs
    split at hs
    case h_2 => cases hs
    case h_1 maxSeq =>
      cases hs
      exact h.deleteRows (h.compactions _ (List.mem_of_getElem? hphase)) rfl rfl rfl
        fun phase => List.mem_or_eq_of_mem_set
  | loadRawUpdates =>
    cases hs
    exact h.of_tables_eq rfl rfl rfl fun _ => .inl
  | loadSnapshot i =>
    obtain ⟨load, hload, hs⟩ := Option.bind_eq_some_iff.mp hs
    split at hs
    case h_2 => cases hs
    case h_1 =>
      cases hs
      exact h.of_tables_eq rfl rfl rfl fun _ => .inl
  | loadUpdates i =>
    obtain ⟨load, hload, hs⟩ := Option.bind_eq_some_iff.mp hs
    split at hs
    case h_2 => cases hs
    case h_1 =>
      cases hs
      exact h.of_tables_eq rfl rfl rfl fun _ => .inl

/-! ## Runs -/

/-- **In a run in which rows commit above the snapshot and every snapshot folds in what it covers, nothing
that has committed is lost.** -/
theorem compaction_loses_nothing {run : List (PersistenceAction α)}
    (hrun : Along step CoversOnlyRead new run) (hend : exec step new run = some db) : NothingLost db :=
  (exec_invariant_along (fun _ _ _ h hcond hs => (inv_step h hcond hs).2) inv_new hrun hend).nothingLost

theorem LoadOk.set {load' : LoadCall α} (hloads : ∀ load ∈ db.loads, LoadOk db load)
    (hset : LoadOk db load') : ∀ load ∈ db.loads.set i load', LoadOk db load := by
  intro load hload
  rcases List.mem_or_eq_of_mem_set hload with hold | rfl
  · exact hloads load hold
  · exact hset

theorem LoadOk.loadUpdates (h : LoadOk db load) (hphase : load.phase = .readSnapshot snapshot)
    (hthere : StillThere db load) : SeesEarlier ⟨load.earlier, .returned (snapshot.map (·.1))
      ((rowsAfter db.documents (snapshotSeq snapshot)).map (·.2))⟩ := by
  intro row hrow
  have hcovers := h.covers snapshot hphase
  unfold StillThere at hthere
  rw [hphase] at hthere
  rw [buildDocFromRaw_rows]
  by_cases hseq : row.1 ≤ snapshotSeq snapshot
  · exact (hcovers.le_data row (h.earlier row hrow) hseq).trans le_sup_left
  · have hdoc : row ∈ db.documents := hthere row hrow (by omega)
    exact (le_joinOf (mem_rowsAfter.mpr ⟨hdoc, by omega⟩)).trans le_sup_right

theorem loads_eq_of_step (hs : step db act = some db') :
    db'.loads = db.loads ∨ act = .loadRawUpdates ∨ (∃ i, act = .loadSnapshot i) ∨ ∃ i, act = .loadUpdates i := by
  cases act with
  | loadRawUpdates => exact .inr (.inl rfl)
  | loadSnapshot i => exact .inr (.inr (.inl ⟨i, rfl⟩))
  | loadUpdates i => exact .inr (.inr (.inr ⟨i, rfl⟩))
  | storeUpdate update skipped => exact .inl (Option.some.inj hs ▸ rfl)
  | compactFromDb => exact .inl (Option.some.inj hs ▸ rfl)
  | countRows i =>
    obtain ⟨store, -, hs⟩ := Option.bind_eq_some_iff.mp hs
    split at hs
    · refine .inl (Option.some.inj hs ▸ ?_)
      split <;> rfl
    · cases hs
  | _ =>
    obtain ⟨call, -, hs⟩ := Option.bind_eq_some_iff.mp hs
    split at hs
    · exact .inl (Option.some.inj hs ▸ rfl)
    · cases hs

theorem loads_step (hinv : Inv db) (h : ∀ load ∈ db.loads, LoadOk db load)
    (hcond : ReadsBeforeDelete db act) (hs : step db act = some db') : ∀ load ∈ db'.loads, LoadOk db load := by
  rcases loads_eq_of_step hs with heq | rfl | ⟨i, rfl⟩ | ⟨i, rfl⟩
  · rw [heq]
    exact h
  · cases hs
    intro load hload
    rcases List.mem_append.mp hload with hold | hnew
    · exact h load hold
    · rw [List.mem_singleton.mp hnew]
      exact ⟨fun row => mem_committed_of_returned, fun _ hphase => (by cases hphase), trivial⟩
  · obtain ⟨load, hload, hs⟩ := Option.bind_eq_some_iff.mp hs
    split at hs
    case h_2 => cases hs
    case h_1 =>
      cases hs
      refine LoadOk.set h ⟨(h load (List.mem_of_getElem? hload)).earlier, fun snapshot hphase => ?_, trivial⟩
      cases hphase
      exact hinv.covers
  · obtain ⟨load, hload, hs⟩ := Option.bind_eq_some_iff.mp hs
    split at hs
    case h_2 => cases hs
    case h_1 snapshot hphase =>
      cases hs
      have hok := h load (List.mem_of_getElem? hload)
      exact LoadOk.set h ⟨hok.earlier, fun _ hphase => (by cases hphase),
        hok.loadUpdates hphase (hcond load hload)⟩

/-- **In such a run, a load that reads the rows before any it needs is deleted has every update whose
`store_update` had returned before the load began.** -/
theorem load_sees_earlier {run : List (PersistenceAction α)}
    (hrun : Along step (fun db act => CoversOnlyRead db act ∧ ReadsBeforeDelete db act) new run)
    (hend : exec step new run = some db) : ∀ load ∈ db.loads, SeesEarlier load := by
  have hkeep : ∀ (s : YjsPersistence α) act s', (Inv s ∧ ∀ load ∈ s.loads, LoadOk s load) →
      (CoversOnlyRead s act ∧ ReadsBeforeDelete s act) → step s act = some s' →
      Inv s' ∧ ∀ load ∈ s'.loads, LoadOk s' load := by
    rintro s act s' ⟨hinv, hloads⟩ ⟨hcovers, hreads⟩ hs
    obtain ⟨hadv, hinv'⟩ := inv_step hinv hcovers hs
    exact ⟨hinv', fun load hload => (loads_step hinv hloads hreads hs load hload).advance hadv⟩
  have hnew : Inv (new : YjsPersistence α) ∧ ∀ load ∈ (new : YjsPersistence α).loads, LoadOk new load :=
    ⟨inv_new, fun _ h => by cases h⟩
  exact fun load hload => ((exec_invariant_along hkeep hnew hrun hend).2 load hload).sees

/-! ## A document with more rows than the threshold -/

instance (db : YjsPersistence Nat) : Decidable (NothingLost db) :=
  inferInstanceAs (Decidable (stored db = joinOf db.committed))

instance (load : LoadCall Nat) : Decidable (SeesEarlier load) := by
  unfold SeesEarlier
  split <;> infer_instance

instance (db : YjsPersistence Nat) : DecidablePred (FoldsAll db)
  | .readRows snapshot rows =>
    inferInstanceAs (Decidable (snapshotSeq db.snapshot < maxIncludedSeq rows (snapshotSeq snapshot) →
      ∀ row ∈ db.committed, snapshotSeq snapshot < row.1 →
        row.1 ≤ maxIncludedSeq rows (snapshotSeq snapshot) → row ∈ rows))
  | .started | .readSnapshot _ | .upserted _ | .returned => .isTrue trivial

instance (db : YjsPersistence Nat) (act : PersistenceAction Nat) : Decidable (CoversOnlyRead db act) := by
  cases act <;> unfold CoversOnlyRead <;> infer_instance

instance (db : YjsPersistence Nat) (load : LoadCall Nat) : Decidable (StillThere db load) := by
  unfold StillThere
  split <;> infer_instance

instance (db : YjsPersistence Nat) (act : PersistenceAction Nat) : Decidable (ReadsBeforeDelete db act) := by
  cases act <;> unfold ReadsBeforeDelete <;> infer_instance

def compacts (i : Nat) : List (PersistenceAction Nat) :=
  [.selectSnapshot i, .selectRows i, .upsertSnapshot i, .deleteRows i]

/-- A document is compacted twice; a load begins before the first and reads after it. -/
def compactsInTurn : List (PersistenceAction Nat) :=
  [.storeUpdate 1 0, .commitInsert 0, .countRows 0, .loadRawUpdates, .compactFromDb] ++ compacts 0 ++
    [.loadSnapshot 0, .storeUpdate 2 3, .loadUpdates 0, .commitInsert 1, .compactFromDb] ++ compacts 1 ++
    [.storeUpdate 3 0, .commitInsert 2]

theorem compaction_loses_nothing_inTurn : ∃ db, exec step new compactsInTurn = some db ∧ NothingLost db := by
  have hrun : Along step CoversOnlyRead new compactsInTurn := by decide
  exact ⟨_, rfl, compaction_loses_nothing hrun rfl⟩

theorem load_sees_earlier_inTurn : ∃ db, exec step new compactsInTurn = some db ∧
    ∀ load ∈ db.loads, SeesEarlier load := by
  have hrun : Along step (fun db act => CoversOnlyRead db act ∧ ReadsBeforeDelete db act) new compactsInTurn := by
    decide
  exact ⟨_, rfl, load_sees_earlier hrun rfl⟩

/-- `count` calls, from the call `first` on, store their updates. -/
def storesUpdates (first count : Nat) : List (PersistenceAction Nat) :=
  (List.range count).flatMap fun k => [.storeUpdate (first + k + 1) 0, .commitInsert (first + k)]

/-- The first row gets its `seq`, and commits when the rows after it have been compacted. -/
def commitsLate : List (PersistenceAction Nat) :=
  [.storeUpdate 500 0] ++ storesUpdates 1 101 ++ [.countRows 101] ++ compacts 0 ++ [.commitInsert 0]

/-- A load reads the snapshot before a compaction upserts it, and the rows after it has deleted them. -/
def loadsAcross : List (PersistenceAction Nat) :=
  storesUpdates 0 101 ++ [.countRows 100, .loadRawUpdates, .loadSnapshot 0] ++ compacts 0 ++ [.loadUpdates 0]

/-- The update 500 is in the table, but below the snapshot that was stamped over its `seq`. -/
theorem row_lost_below_snapshot : ∃ db, exec step new commitsLate = some db ∧ ¬ NothingLost db := by
  have hlost : (exec step new commitsLate).any (fun db => decide (¬ NothingLost db)) = true := by decide +kernel
  obtain ⟨db, hend, hlost⟩ := (Option.any_eq_true ..).mp hlost
  exact ⟨db, hend, of_decide_eq_true hlost⟩

/-- **A load across a compaction misses rows that were there before it began.** -/
theorem load_misses_deleted_rows : ∃ db, exec step new loadsAcross = some db ∧
    ¬ ∀ load ∈ db.loads, SeesEarlier load := by
  have hmissed : (exec step new loadsAcross).any (fun db => decide (¬ ∀ load ∈ db.loads, SeesEarlier load)) =
      true := by
    decide +kernel
  obtain ⟨db, hend, hmissed⟩ := (Option.any_eq_true ..).mp hmissed
  exact ⟨db, hend, of_decide_eq_true hmissed⟩

end Compaction

end Mekhan

import Mekhan.Inventory.Reconcile

/-!
# A batch and its items

A batch keeps of a path the last occurrence and drops the others before the row is merged; item by item, each
occurrence is merged. What is written does not depend on the occurrences before, but for the owner and the group:
these are kept where an item does not show them.
-/

namespace Mekhan

namespace Inventory

open Infra Grants

variable {newId : InventoryKey → Uuid} {rfc3339 : DateTime → String} {workspaceId : Uuid} {fileServerId path : String}
  {ctx : ObservationContext} {db : Db} {items : List ObservedItem} {c d : Classified} {old : Option FileInventory}

/-! ## The rows of a path -/

/-- The row of a path after some items, in their order. -/
def rowAfter (newId : InventoryKey → Uuid) (workspaceId : Uuid) (fileServerId : String)
    (old : Option FileInventory) (cs : List Classified) : Option FileInventory :=
  cs.foldl (fun old c => some (upsertRow newId workspaceId fileServerId old c)) old

theorem rowAfter_concat (cs : List Classified) : rowAfter newId workspaceId fileServerId old (cs ++ [c]) =
    some (upsertRow newId workspaceId fileServerId (rowAfter newId workspaceId fileServerId old cs) c) := by
  rw [rowAfter, List.foldl_concat, ← rowAfter]

theorem key_upsertRow (h : ∀ row ∈ old, row.key = (workspaceId, fileServerId, c.path)) :
    (upsertRow newId workspaceId fileServerId old c).key = (workspaceId, fileServerId, c.path) := by
  cases old with
  | none => rfl
  | some row => exact h row rfl

theorem get?_upsert (inventory : KeyedList FileInventory.key) (k : InventoryKey) :
    (upsert newId workspaceId fileServerId inventory c).get? k =
      if k = (workspaceId, fileServerId, c.path) then
        some (upsertRow newId workspaceId fileServerId (inventory.get? (workspaceId, fileServerId, c.path)) c)
      else inventory.get? k := by
  rw [upsert, KeyedList.get?_insert, key_upsertRow fun row h => KeyedList.key_of_get? h]

theorem get?_foldl_upsert : ∀ (cs : List Classified) (inventory : KeyedList FileInventory.key),
    (cs.foldl (upsert newId workspaceId fileServerId) inventory).get? (workspaceId, fileServerId, path) =
      rowAfter newId workspaceId fileServerId (inventory.get? (workspaceId, fileServerId, path))
        (cs.filter (·.path = path))
  | [], _ => rfl
  | c :: cs, inventory => by
    rw [List.foldl_cons, get?_foldl_upsert cs, get?_upsert]
    by_cases hc : c.path = path
    · subst hc
      rw [if_pos rfl, List.filter_cons_of_pos (by simp), rowAfter, rowAfter, List.foldl_cons]
    · rw [if_neg (by simp [Ne.symm hc]), List.filter_cons_of_neg (by simpa using hc)]

theorem get?_foldl_upsert_other {k : InventoryKey} (h : ∀ path, k ≠ (workspaceId, fileServerId, path)) :
    ∀ (cs : List Classified) (inventory : KeyedList FileInventory.key),
      (cs.foldl (upsert newId workspaceId fileServerId) inventory).get? k = inventory.get? k
  | [], _ => rfl
  | c :: cs, inventory => by
    rw [List.foldl_cons, get?_foldl_upsert_other h cs, get?_upsert, if_neg (h c.path)]

/-! ## Merging -/

theorem uid_upsertRow : (upsertRow newId workspaceId fileServerId old c).uid = c.uid.or (old.bind (·.uid)) := by
  cases old with
  | none => exact Option.or_none.symm
  | some row => rfl

theorem gid_upsertRow : (upsertRow newId workspaceId fileServerId old c).gid = c.gid.or (old.bind (·.gid)) := by
  cases old with
  | none => exact Option.or_none.symm
  | some row => rfl

theorem upsertRow_twice (h : d.path = c.path) :
    upsertRow newId workspaceId fileServerId (some (upsertRow newId workspaceId fileServerId old d)) c =
      { upsertRow newId workspaceId fileServerId old c with
        uid := c.uid.or (d.uid.or (old.bind (·.uid)))
        gid := c.gid.or (d.gid.or (old.bind (·.gid))) } := by
  have huid : (upsertRow newId workspaceId fileServerId old d).uid = _ := uid_upsertRow
  have hgid : (upsertRow newId workspaceId fileServerId old d).gid = _ := gid_upsertRow
  rw [← huid, ← hgid]
  cases old with
  | none => simp only [upsertRow, h]
  | some row => rfl

/-- What is known after some occurrences: what the last of them shows that shows it, or what was known before. -/
def known (shown : Classified → Option Int32) (before : Option Int32) (cs : List Classified) : Option Int32 :=
  ((cs.filterMap shown).getLast?).or before

theorem known_cons (shown : Classified → Option Int32) (before : Option Int32) (cs : List Classified) :
    known shown before (d :: cs) = known shown ((shown d).or before) cs := by
  rw [known, known, List.filterMap_cons]
  cases shown d with
  | none => rfl
  | some owner =>
    dsimp only
    rw [List.getLast?_cons]
    cases (cs.filterMap shown).getLast? <;> rfl

/-- **Merging occurrences one after the other is merging the last, but for what was known.** -/
theorem upsertRow_foldl : ∀ {cs : List Classified} {old}, (∀ d ∈ cs, d.path = c.path) →
    upsertRow newId workspaceId fileServerId (rowAfter newId workspaceId fileServerId old cs) c =
      { upsertRow newId workspaceId fileServerId old c with
        uid := c.uid.or (known (·.uid) (old.bind (·.uid)) cs)
        gid := c.gid.or (known (·.gid) (old.bind (·.gid)) cs) }
  | [], old, _ => by
    rw [rowAfter, List.foldl_nil, known, known, List.filterMap_nil, List.filterMap_nil, List.getLast?_nil,
      Option.none_or, Option.none_or, ← uid_upsertRow, ← gid_upsertRow]
  | d :: cs, old, h => by
    rw [List.forall_mem_cons] at h
    rw [rowAfter, List.foldl_cons, ← rowAfter, upsertRow_foldl h.2, upsertRow_twice h.1, known_cons, known_cons,
      Option.bind_some, Option.bind_some, uid_upsertRow, gid_upsertRow]

/-! ## The items of a path -/

theorem filter_distinctOnPath : ∀ (items : List ObservedItem) (path : String),
    (distinctOnPath items).filter (·.path = path) = ((items.filter (·.path = path)).getLast?).toList
  | [], _ => rfl
  | item :: items, path => by
    rw [distinctOnPath]
    by_cases hitem : item.path = path
    · subst hitem
      rw [List.filter_cons_of_pos (by simp), List.getLast?_cons]
      split
      · next hagain =>
        obtain ⟨j, hj, hpath⟩ := List.any_eq_true.mp hagain
        have hne : items.filter (·.path = item.path) ≠ [] := List.ne_nil_of_mem (List.mem_filter.mpr ⟨hj, hpath⟩)
        rw [filter_distinctOnPath items _, List.getLast?_eq_some_getLast hne]
        rfl
      · next hlast =>
        have hnil : items.filter (·.path = item.path) = [] := by
          refine List.filter_eq_nil_iff.mpr fun j hj hpath => hlast ?_
          exact List.any_eq_true.mpr ⟨j, hj, hpath⟩
        rw [List.filter_cons_of_pos (by simp), filter_distinctOnPath items _, hnil]
        rfl
    · rw [List.filter_cons_of_neg (by simpa using hitem)]
      split
      · exact filter_distinctOnPath items path
      · rw [List.filter_cons_of_neg (by simpa using hitem), filter_distinctOnPath items]

theorem filter_map_classify (items : List ObservedItem) :
    (items.map (classify rfc3339 db fileServerId ctx)).filter (·.path = path) =
      (items.filter (·.path = path)).map (classify rfc3339 db fileServerId ctx) := by
  rw [List.filter_map]
  rfl

/-! ## Batches -/

def reconcileEach (newId : InventoryKey → Uuid) (rfc3339 : DateTime → String) (workspaceId : Uuid)
    (fileServerId : String) (ctx : ObservationContext) (db : Db) (items : List ObservedItem) : Db :=
  items.foldl (fun db item => reconcileBatch newId rfc3339 workspaceId fileServerId ctx db [item]) db

theorem get?_reconcileBatch (h : items.filter (·.path = path) ≠ []) :
    (reconcileBatch newId rfc3339 workspaceId fileServerId ctx db items).inventory.get?
        (workspaceId, fileServerId, path) =
      some (upsertRow newId workspaceId fileServerId (db.inventory.get? (workspaceId, fileServerId, path))
        (classify rfc3339 db fileServerId ctx ((items.filter (·.path = path)).getLast h))) := by
  have hitems : items ≠ [] := fun hnil => h (by rw [hnil, List.filter_nil])
  rw [reconcileBatch, if_neg hitems, get?_foldl_upsert, filter_map_classify, filter_distinctOnPath,
    List.getLast?_eq_some_getLast h]
  rfl

theorem reconcileEach_eq : ∀ {items : List ObservedItem} {db : Db},
    reconcileEach newId rfc3339 workspaceId fileServerId ctx db items =
      { db with inventory :=
          (items.map (classify rfc3339 db fileServerId ctx)).foldl (upsert newId workspaceId fileServerId) db.inventory }
  | [], _ => rfl
  | item :: items, db => by
    have hone : reconcileBatch newId rfc3339 workspaceId fileServerId ctx db [item] =
        { db with inventory :=
            upsert newId workspaceId fileServerId db.inventory (classify rfc3339 db fileServerId ctx item) } := rfl
    rw [reconcileEach, List.foldl_cons, ← reconcileEach, hone, reconcileEach_eq]
    rfl

theorem get?_reconcileEach : (reconcileEach newId rfc3339 workspaceId fileServerId ctx db items).inventory.get?
      (workspaceId, fileServerId, path) =
    rowAfter newId workspaceId fileServerId (db.inventory.get? (workspaceId, fileServerId, path))
      ((items.filter (·.path = path)).map (classify rfc3339 db fileServerId ctx)) := by
  rw [reconcileEach_eq, get?_foldl_upsert, filter_map_classify]

/-- Where the last item of a path does not show an owner, the one that the last of the others shows is the one in the
row: what the batch drops is known. -/
def DroppedKnown (db : Db) (workspaceId : Uuid) (fileServerId : String) (shown : ObservedItem → Option Int32)
    (stored : FileInventory → Option Int32) (items : List ObservedItem) : Prop :=
  ∀ path init last owner, items.filter (·.path = path) = init ++ [last] → shown last = none →
    (init.filterMap shown).getLast? = some owner →
    (db.inventory.get? (workspaceId, fileServerId, path)).bind stored = some owner

theorem or_known_eq_iff {last before latest : Option Int32} :
    last.or (latest.or before) = last.or before ↔
      (last = none → ∀ owner, latest = some owner → before = some owner) := by
  cases last <;> cases latest <;> simp [eq_comm]

theorem eq_owned_iff {row : FileInventory} {uid gid : Option Int32} :
    row = { row with uid := uid, gid := gid } ↔ uid = row.uid ∧ gid = row.gid := by
  cases row
  simp [eq_comm]

theorem get?_reconcileBatch_eq_iff {init : List ObservedItem} {last : ObservedItem}
    (hocc : items.filter (·.path = path) = init ++ [last]) :
    (reconcileBatch newId rfc3339 workspaceId fileServerId ctx db items).inventory.get?
        (workspaceId, fileServerId, path) =
      (reconcileEach newId rfc3339 workspaceId fileServerId ctx db items).inventory.get?
        (workspaceId, fileServerId, path) ↔
    (last.uid = none → ∀ owner, (init.filterMap (·.uid)).getLast? = some owner →
      (db.inventory.get? (workspaceId, fileServerId, path)).bind (·.uid) = some owner) ∧
    (last.gid = none → ∀ owner, (init.filterMap (·.gid)).getLast? = some owner →
      (db.inventory.get? (workspaceId, fileServerId, path)).bind (·.gid) = some owner) := by
  have hne : items.filter (·.path = path) ≠ [] := by simp [hocc]
  have hpaths : ∀ item ∈ init ++ [last], item.path = path := by
    intro item hitem
    rw [← hocc, List.mem_filter, decide_eq_true_eq] at hitem
    exact hitem.2
  have hinit : ∀ d ∈ init.map (classify rfc3339 db fileServerId ctx),
      d.path = (classify rfc3339 db fileServerId ctx last).path := by
    intro d hd
    obtain ⟨item, hitem, rfl⟩ := List.mem_map.mp hd
    exact (hpaths item (List.mem_append_left _ hitem)).trans (hpaths last (by simp)).symm
  have hlast : (items.filter (·.path = path)).getLast hne = last := by
    simp only [hocc, List.getLast_append_singleton]
  have hshown : ∀ (shown : Classified → Option Int32) (observed : ObservedItem → Option Int32) before,
      (∀ item, shown (classify rfc3339 db fileServerId ctx item) = observed item) →
      known shown before (init.map (classify rfc3339 db fileServerId ctx)) =
        ((init.filterMap observed).getLast?).or before := by
    intro shown observed before hsame
    rw [known, List.filterMap_map, show shown ∘ classify rfc3339 db fileServerId ctx = observed from funext hsame]
  rw [get?_reconcileBatch hne, hlast, get?_reconcileEach, hocc, List.map_append, List.map_singleton, rowAfter_concat,
    upsertRow_foldl hinit, Option.some_inj, eq_owned_iff, uid_upsertRow, gid_upsertRow,
    hshown _ (·.uid) _ fun _ => rfl, hshown _ (·.gid) _ fun _ => rfl]
  exact and_congr or_known_eq_iff or_known_eq_iff

variable (newId rfc3339 workspaceId fileServerId ctx db items)

/-- **A batch leaves the rows that its items leave one at a time, exactly when every owner and group that it drops is
known.** -/
theorem reconcileBatch_eq_iff :
    (∀ k, (reconcileBatch newId rfc3339 workspaceId fileServerId ctx db items).inventory.get? k =
      (reconcileEach newId rfc3339 workspaceId fileServerId ctx db items).inventory.get? k) ↔
    DroppedKnown db workspaceId fileServerId (·.uid) (·.uid) items ∧
      DroppedKnown db workspaceId fileServerId (·.gid) (·.gid) items := by
  constructor
  · intro h
    refine ⟨fun path init last owner hocc => ?_, fun path init last owner hocc => ?_⟩
    · exact fun hnone => ((get?_reconcileBatch_eq_iff hocc).mp (h _)).1 hnone owner
    · exact fun hnone => ((get?_reconcileBatch_eq_iff hocc).mp (h _)).2 hnone owner
  · rintro ⟨huid, hgid⟩ k
    by_cases hk : ∃ path, k = (workspaceId, fileServerId, path)
    · obtain ⟨path, rfl⟩ := hk
      rcases List.eq_nil_or_concat' (items.filter (·.path = path)) with hnone | ⟨init, last, hocc⟩
      · rw [get?_reconcileEach, hnone, reconcileBatch]
        split
        · rfl
        · rw [get?_foldl_upsert, filter_map_classify, filter_distinctOnPath, hnone]
          rfl
      · refine (get?_reconcileBatch_eq_iff hocc).mpr ⟨?_, ?_⟩
        · exact fun hnone owner hshown => huid path init last owner hocc hnone hshown
        · exact fun hnone owner hshown => hgid path init last owner hocc hnone hshown
    · have hother : ∀ path, k ≠ (workspaceId, fileServerId, path) := fun path heq => hk ⟨path, heq⟩
      rw [reconcileEach_eq, get?_foldl_upsert_other hother, reconcileBatch]
      split
      · rfl
      · exact get?_foldl_upsert_other hother _ _

/-- The first occurrence of a path shows the owner, the second does not: the batch loses it. -/
theorem reconcileBatch_losesOwner :
    let newId : InventoryKey → Uuid := fun _ => 1
    let rfc3339 : DateTime → String := fun _ => ""
    let item (size : Int64) (uid : Option Int32) : ObservedItem := ⟨"/data/a.bin", size, none, none, uid, none, none⟩
    let items := [item 1 (some 1000), item 2 none]
    let db : Db := ⟨[], by simp, KeyedList.empty⟩
    ((reconcileBatch newId rfc3339 0 "nas" ⟨none, none⟩ db items).inventory.get? (0, "nas", "/data/a.bin")).map
        (·.uid) = some none ∧
      ((reconcileEach newId rfc3339 0 "nas" ⟨none, none⟩ db items).inventory.get? (0, "nas", "/data/a.bin")).map
        (·.uid) = some (some 1000) := by
  decide

end Inventory

end Mekhan

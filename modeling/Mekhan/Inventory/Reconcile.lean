import Mekhan.Auth.Grants
import Mekhan.Catalogue.QueryDsl
import Mekhan.Domain.Token

/-!
# Reconciling a crawl

`reconcile_batch` of `service/src/inventory/reconcile.rs`: observed items are classified against the legacy index
and written to `file_inventory`, in one statement.

The rows are without their timestamps and the generated `extension`, and a `provenance` is a `jsonb` object up to
the order of its keys. `gen_random_uuid()` is the parameter `newId`, and the text of a time the parameter `rfc3339`.
The batch is one that the database takes.
-/

namespace Mekhan

namespace Inventory

open Infra Grants QueryDsl

/-! ## Observations -/

structure ObservedItem where
  path : String
  size : Int64
  mtime : Option DateTime
  hash : Option String
  uid : Option Int32
  gid : Option Int32
  mode : Option UInt32

structure ObservationContext where
  endpointRoot : Option String
  serveGroup : Option String

def ObservationContext.stamp (ctx : ObservationContext) (provenance : List (String × Json)) : List (String × Json) :=
  let provenance := match ctx.endpointRoot.filter (· ≠ "") with
    | some root => put provenance ("endpoint_root", .str root)
    | none => provenance
  match ctx.serveGroup.filter (· ≠ "") with
  | some group => put provenance ("serve_group", .str group)
  | none => provenance

/-- The hash of an item, trimmed; an empty one is none. -/
def ObservedItem.boundHash (item : ObservedItem) : Option String :=
  (item.hash.map fun h => String.ofList (trim h.toList)).filter (· ≠ "")

/-! ## Tables -/

/-- A row of `legacy_file_index`. -/
structure LegacyFile where
  legacyKey : String
  fileServerId : Option String
  path : Option String
  hash : Option String
  size : Option Int64

structure FileInventory where
  id : Uuid
  workspaceId : Uuid
  contentHash : Option String
  fileServerId : String
  path : String
  status : String
  isCanonical : Bool
  copyOf : Option Uuid
  migrationTarget : Option String
  provenance : List (String × Json)
  sizeBytes : Option Int64
  uid : Option Int32
  gid : Option Int32

abbrev InventoryKey := Uuid × String × String

/-- `UNIQUE (workspace_id, file_server_id, path)` -/
def FileInventory.key (row : FileInventory) : InventoryKey := (row.workspaceId, row.fileServerId, row.path)

structure Db where
  legacy : List LegacyFile
  legacy_unique : ∀ l ∈ legacy, ∀ l' ∈ legacy, l.fileServerId ≠ none → l.path ≠ none →
    l.fileServerId = l'.fileServerId → l.path = l'.path → l = l'
  inventory : KeyedList FileInventory.key

def Db.legacyOf (db : Db) (fileServerId path : String) : Option LegacyFile :=
  db.legacy.find? fun l => l.fileServerId = some fileServerId && l.path = some path

/-! ## The statement -/

section

variable (newId : InventoryKey → Uuid) (rfc3339 : DateTime → String)

def observedProvenance (ctx : ObservationContext) (item : ObservedItem) : List (String × Json) :=
  let provenance := ctx.stamp [("observed_size", .num (.ofInt item.size.toInt)),
    ("mtime", (item.mtime.map (.str <| rfc3339 ·)).getD .null)]
  match item.mode with
  | some mode => put provenance ("mode", .num (.posInt mode.toNat))
  | none => provenance

structure Classified where
  path : String
  size : Int64
  uid : Option Int32
  gid : Option Int32
  contentHash : Option String
  status : String
  provenance : List (String × Json)

def classify (db : Db) (fileServerId : String) (ctx : ObservationContext) (item : ObservedItem) : Classified :=
  let legacy := db.legacyOf fileServerId item.path
  let provenance := observedProvenance rfc3339 ctx item
  { path := item.path
    size := item.size
    uid := item.uid
    gid := item.gid
    contentHash := item.boundHash.or (legacy.bind (·.hash))
    status := match legacy with
      | none => "orphan_disk"
      | some l => if l.size = some item.size then "verified" else "mismatch"
    provenance := match legacy with
      | none => provenance
      | some l =>
        if l.size = some item.size then provenance
        else put provenance ("legacy_size", (l.size.map fun s => .num (.ofInt s.toInt)).getD .null) }

/-- What the `INSERT … ON CONFLICT` leaves of a row. -/
def upsertRow (workspaceId : Uuid) (fileServerId : String) (old : Option FileInventory) (c : Classified) :
    FileInventory :=
  match old with
  | none =>
    { id := newId (workspaceId, fileServerId, c.path)
      workspaceId := workspaceId
      contentHash := c.contentHash
      fileServerId := fileServerId
      path := c.path
      status := c.status
      isCanonical := false
      copyOf := none
      migrationTarget := none
      provenance := c.provenance
      sizeBytes := some c.size
      uid := c.uid
      gid := c.gid }
  | some row =>
    { row with
      status := c.status
      contentHash := c.contentHash
      provenance := c.provenance
      sizeBytes := some c.size
      uid := c.uid.or row.uid
      gid := c.gid.or row.gid }

def upsert (workspaceId : Uuid) (fileServerId : String) (inventory : KeyedList FileInventory.key) (c : Classified) :
    KeyedList FileInventory.key :=
  inventory.insert
    (upsertRow newId workspaceId fileServerId (inventory.get? (workspaceId, fileServerId, c.path)) c)

/-- `SELECT DISTINCT ON (t.path) … ORDER BY t.path, t.ord DESC`, not in the order of the paths. -/
def distinctOnPath : List ObservedItem → List ObservedItem
  | [] => []
  | item :: items =>
    if items.any (·.path = item.path) then distinctOnPath items else item :: distinctOnPath items

def reconcileBatch (workspaceId : Uuid) (fileServerId : String) (ctx : ObservationContext) (db : Db)
    (items : List ObservedItem) : Db :=
  if items = [] then db
  else
    let classified := (distinctOnPath items).map (classify rfc3339 db fileServerId ctx)
    { db with inventory := classified.foldl (upsert newId workspaceId fileServerId) db.inventory }

end

end Inventory

end Mekhan

import Mekhan.Folders.Path
import Mekhan.Infra.KeyedList
import Mekhan.Infra.Runs

/-!
# The folder handlers as transactions

`create_folder`, `update_folder` and `delete_folder` of `handlers/folders.rs`, statement by statement, and
any number of them interleaved at read-committed isolation: a statement sees the rows committed before it and
its transaction's own writes. A statement waits for an open transaction that wrote one of its rows, or whose
rows together with its own would break a constraint.

Only the `folders` table is here, with the columns that the tree is made of. Rows come in the order of the
table.
-/

namespace Mekhan

namespace Folders

open Infra

abbrev Id := Nat

/-! ## The table -/

structure Row where
  id : Id
  workspaceId : Id
  parentId : Option Id
  slug : List Char
  path : List Char
deriving DecidableEq

abbrev Table := KeyedList Row.id

/-- `UNIQUE (workspace_id, path)`, `UNIQUE (workspace_id, parent_id, slug)`, `folders_root_slug_uniq` and the
foreign key of `parent_id` -/
def constraints (t : Table) : Prop :=
  (∀ r ∈ t.toList, ∀ r' ∈ t.toList, r.workspaceId = r'.workspaceId →
    r.path = r'.path ∨ r.parentId = r'.parentId ∧ r.slug = r'.slug → r.id = r'.id) ∧
  ∀ r ∈ t.toList, ∀ p ∈ r.parentId, (t.get? p).isSome

instance (t : Table) : Decidable (constraints t) := inferInstanceAs (Decidable (_ ∧ _))

inductive Write where
  | upsert (row : Row)
  | delete (id : Id)

def Write.id : Write → Id
  | upsert row => row.id
  | delete id => id

def applyWrite (t : Table) : Write → Table
  | .upsert row => t.insert row
  | .delete id => t.retain fun r => r.id ≠ id

def applyAll (t : Table) (writes : List Write) : Table := writes.foldl applyWrite t

/-- The writes of a statement that keeps the constraints. -/
def checked {α : Type} (view : Table) (writes : List Write) (next : α) : Option (List Write × α) :=
  if constraints (applyAll view writes) then some (writes, next) else none

/-- `ON DELETE CASCADE`, `n` generations deep. -/
def cascade (t : Table) : Nat → List Id → List Id
  | 0, ids => ids
  | n + 1, ids =>
    let children := (t.toList.filter fun r => r.parentId.any (· ∈ ids)).map (·.id)
    if children = [] then ids else ids ++ cascade t n children

/-! ## Requests -/

inductive Request where
  | create (id workspaceId : Id) (parentId : Option Id) (slug : List Char)
  | update (folderId : Id) (slug : Option (List Char)) (parentId : Option Id)
  | delete (folderId : Id)

/-- The next statement of a handler, with what it remembers of the ones before. -/
inductive Stage where
  | start
  /-- `create_folder` has the path of the parent. -/
  | insert (parentPath : List Char)
  | resolve (current : Row) (newParent : Option Id) (newSlug : List Char)
  | relocate (current : Row) (newParent : Option Id) (newSlug parentPath : List Char)
  /-- The descendants of a moved folder, and what `delete_folder` does after them. -/
  | rewrite (workspaceId : Id) (oldPath newPath : List Char) (rest : Option (Row × List Char × List Row))
  /-- `delete_folder` has the folder. -/
  | resolveParent (current : Row)
  | selectChildren (current : Row) (parentPath : List Char)
  | reparent (current : Row) (parentPath : List Char) (children : List Row)
  | remove (current : Row)
  | done
deriving DecidableEq

/-- `format!("{parent_path}/{slug}")` -/
def childPath (parentPath slug : List Char) : List Char := parentPath ++ '/' :: slug

/-- `path LIKE $2 || '/%'` -/
def descends (oldPath path : List Char) : Bool := like path (oldPath ++ ['/', '%'])

/-- `$1 || substring(path FROM length($2) + 1)` -/
def rebase (oldPath newPath path : List Char) : List Char := newPath ++ path.drop oldPath.length

/-- The new paths of the rows below a moved folder. -/
def rewrites (workspaceId : Id) (oldPath newPath : List Char) (view : Table) : List Write :=
  (view.toList.filter fun r => r.workspaceId = workspaceId ∧ descends oldPath r.path).map fun r =>
    .upsert { r with path := rebase oldPath newPath r.path }

/-- The statement of a stage on the rows it sees; `none` where the handler returns an error. -/
def statement (req : Request) (view : Table) : Stage → Option (List Write × Stage)
  | .start => match req with
    | .create _ workspaceId parentId slug =>
      if validateSlug slug then
        match parentId with
        | none => some ([], .insert [])
        | some p => (view.get? p).bind fun r =>
            if r.workspaceId = workspaceId then some ([], .insert r.path) else none
      else none
    | .update folderId slug parentId => (view.get? folderId).bind fun current =>
        let newSlug := slug.getD current.slug
        let newParent := parentId.or current.parentId
        if slug.all validateSlug then
          if newSlug ≠ current.slug ∨ newParent ≠ current.parentId then
            some ([], .resolve current newParent newSlug)
          -- a rename leaves the tree as it is
          else some ([], .done)
        else none
    | .delete folderId => (view.get? folderId).map fun current => ([], .resolveParent current)
  | .insert parentPath => match req with
    | .create id workspaceId parentId slug =>
      if (view.get? id).isNone then
        checked view [.upsert ⟨id, workspaceId, parentId, slug, childPath parentPath slug⟩] .done
      else none
    | .update .. | .delete _ => none
  | .resolve current newParent newSlug => match newParent with
    | none => some ([], .relocate current none newSlug [])
    | some p =>
      if p = current.id then none
      else (view.get? p).bind fun r =>
        if r.workspaceId ≠ current.workspaceId then none
        -- the cycle guard
        else if r.path = current.path ∨ (current.path ++ ['/']) <+: r.path then none
        else some ([], .relocate current (some p) newSlug r.path)
  | .relocate current newParent newSlug parentPath => (view.get? current.id).bind fun row =>
      checked view
        [.upsert { row with parentId := newParent, slug := newSlug, path := childPath parentPath newSlug }]
        (.rewrite current.workspaceId current.path (childPath parentPath newSlug) none)
  | .rewrite workspaceId oldPath newPath rest =>
      checked view (rewrites workspaceId oldPath newPath view)
        (rest.elim .done fun (current, parentPath, children) => .reparent current parentPath children)
  | .resolveParent current => match current.parentId with
    | none => some ([], .selectChildren current [])
    | some p => some ([], .selectChildren current (((view.get? p).map (·.path)).getD []))
  | .selectChildren current parentPath =>
      some ([], .reparent current parentPath (view.toList.filter fun r => r.parentId = some current.id))
  | .reparent current parentPath children => match children with
    | [] => some ([], .remove current)
    | child :: rest =>
      checked view
        ((view.get? child.id).toList.map fun row =>
          .upsert { row with parentId := current.parentId, path := childPath parentPath child.slug })
        (.rewrite current.workspaceId child.path (childPath parentPath child.slug)
          (some (current, parentPath, rest)))
  | .remove current =>
      some ((cascade view view.toList.length [current.id]).map .delete, .done)
  | .done => none

/-! ## Transactions -/

structure Tx where
  request : Request
  stage : Stage
  writes : List Write

structure State where
  table : Table
  txs : List Tx

def State.start : State := ⟨.empty, []⟩

def State.view (s : State) (tx : Tx) : Table := applyAll s.table tx.writes

/-- The writes meet a row that another open transaction wrote, or break a constraint with its rows. -/
def State.waits (s : State) (i : Nat) (tx : Tx) (writes : List Write) : Bool :=
  (s.txs.eraseIdx i).any fun other => !writes.isEmpty &&
    ((writes.any fun w => other.writes.any fun w' => w.id == w'.id) ||
      !decide (constraints (applyAll (applyAll s.table other.writes) (tx.writes ++ writes))))

inductive Act where
  | begin (req : Request)
  /-- The next statement of an open transaction; an error rolls it back. -/
  | run (i : Nat)
  | commit (i : Nat)
  | abort (i : Nat)

def step (s : State) : Act → Option State
  | .begin req => some { s with txs := s.txs ++ [⟨req, .start, []⟩] }
  | .run i => s.txs[i]?.bind fun tx =>
      if tx.stage = .done then none
      else match statement tx.request (s.view tx) tx.stage with
        | none => some { s with txs := s.txs.eraseIdx i }
        | some (writes, next) =>
          if s.waits i tx writes then none
          else match tx.stage with
            -- the insert is its own transaction
            | .insert _ => some { s with table := applyAll s.table writes, txs := s.txs.eraseIdx i }
            | _ => some { s with txs := s.txs.set i { tx with stage := next, writes := tx.writes ++ writes } }
  | .commit i => s.txs[i]?.bind fun tx =>
      if tx.stage = .done then
        some { s with table := applyAll s.table tx.writes, txs := s.txs.eraseIdx i }
      else none
  | .abort i => if i < s.txs.length then some { s with txs := s.txs.eraseIdx i } else none

/-- A transaction on its own, from a stage with writes made so far: its writes when only the commit is left. -/
def alone (req : Request) (t : Table) : Nat → Stage → List Write → Option (List Write)
  | 0, _, _ => none
  | n + 1, stage, writes =>
    if stage = .done then some writes
    else (statement req (applyAll t writes) stage).bind fun (new, next) => alone req t n next (writes ++ new)

end Folders

end Mekhan

import Mekhan.Auth.Grants
import Mekhan.Infra.Ranking
import Mathlib.Data.String.Basic

/-!
# Scope resolution

`service/src/scope/mod.rs`: which owners a binding context sees, and which of the definitions of a ref key
wins there.

A path is a text; a `TEXT` column holds less than 1 GB. The platform has one scope: the items that are collected for
it have `PLATFORM_SCOPE_ID`. A request for an asset type may name the platform with another id; such a row is of no
visible scope and is never collected. The queries that collect the items are not here.
-/

namespace Mekhan

namespace Scopes

open Infra Grants

def platformScopeId : Grants.Uuid := 0x506c6174

structure Scope where
  kind : ScopeKind
  id : Grants.Uuid
  platform : kind = .platform → id = platformScopeId
deriving DecidableEq

/-! ## Visible owners -/

structure VisibleScopes where
  platform : Bool
  workspace : Option Grants.Uuid
  /-- The home folder and its ancestors, the deepest first. -/
  folders : List Grants.Uuid
  template : Option Grants.Uuid

namespace VisibleScopes

def contains (visible : VisibleScopes) (scope : Scope) : Bool :=
  match scope.kind with
  | .platform => visible.platform
  | .workspace => visible.workspace = some scope.id
  | .folder => visible.folders.contains scope.id
  | .template => visible.template = some scope.id

/-- The position from the end of the chain. -/
def folderRank (visible : VisibleScopes) (id : Grants.Uuid) : Option Nat :=
  (visible.folders.idxOf? id).map fun idx => visible.folders.length - idx

end VisibleScopes

/-- A `u32`; a folder that is not in the chain ranks with the workspace. -/
def specificity (scope : Scope) (visible : VisibleScopes) : Nat :=
  match scope.kind with
  | .platform => 0
  | .workspace => 1
  | .folder => ((visible.folderRank scope.id).map fun r => (r % 2 ^ 32 + 1) % 2 ^ 32).getD 1
  | .template => 2 ^ 32 - 1

/-! ## Resolving -/

structure ScopedItem (T : Type) where
  scope : Scope
  refKey : String
  item : T

structure IncomparableClash where
  refKey : String
  scopes : List Scope

section

variable {T : Type}

def distinctScopes (items : List (ScopedItem T)) : List Scope :=
  items.foldl (fun scopes c => if c.scope ∈ scopes then scopes else scopes ++ [c.scope]) []

/-- The candidates of the greatest specificity. -/
def top (visible : VisibleScopes) (candidates : List (ScopedItem T)) : List (ScopedItem T) :=
  best (fun c => specificity c.scope visible) candidates

/-- What the loop of `resolve_refs_ranked` inserts for a ref key. -/
def winner (visible : VisibleScopes) (refKey : String) (candidates : List (ScopedItem T)) :
    Except IncomparableClash (List (String × ScopedItem T)) :=
  let top := top visible candidates
  let scopes := distinctScopes top
  if 1 < scopes.length then .error ⟨refKey, scopes⟩
  else .ok (top.head?.toList.map fun c => (refKey, c))

/-- The ref keys in the order of a `BTreeMap`. -/
def refKeys (items : List (ScopedItem T)) : List String := (items.map (·.refKey)).dedup.insertionSort (· ≤ ·)

/-- `resolve_refs_ranked`: the winners by ref key, in the order of a `BTreeMap`. -/
def resolveRefsRanked (visible : VisibleScopes) (items : List (ScopedItem T)) :
    Except IncomparableClash (List (String × ScopedItem T)) :=
  ((refKeys items).mapM fun key => winner visible key (items.filter (·.refKey = key))).map List.flatten

def resolveVisible (visible : VisibleScopes) (items : List (ScopedItem T)) :
    Except IncomparableClash (List (String × ScopedItem T)) :=
  resolveRefsRanked visible (items.filter fun i => visible.contains i.scope)

def resolveOneVisible (visible : VisibleScopes) (refKey : String) (items : List (ScopedItem T)) :
    Except IncomparableClash (Option (ScopedItem T)) :=
  let matching := items.filter (·.refKey = refKey)
  if matching.isEmpty then .ok none
  else (resolveRefsRanked visible matching).map fun resolved => resolved.lookup refKey

end

/-! ## The visible set of a binding context -/

/-- A row of `folders`. -/
structure Folder where
  id : Grants.Uuid
  workspaceId : Grants.Uuid
  segments : List (List Char)
  segments_ok : Segments segments
  short : (pathText segments).length < 2 ^ 30

/-- A row of `template_folders`. -/
structure TemplateHome where
  baseTemplateId : Grants.Uuid
  folderId : Grants.Uuid
  workspaceId : Grants.Uuid

/-- The tables that the visible set is computed from. -/
structure Db where
  folders : KeyedList Folder.id
  templates : KeyedList Template.id
  templateFolders : KeyedList TemplateHome.baseTemplateId
  /-- `UNIQUE (workspace_id, path)` -/
  unique : ∀ f ∈ folders.toList, ∀ g ∈ folders.toList,
    f.workspaceId = g.workspaceId → pathText f.segments = pathText g.segments → f.id = g.id

/-- `home.path = f.path OR left(home.path, length(f.path) + 1) = f.path || '/'` -/
def pathAbove (home path : List Char) : Bool := home == path || home.take (path.length + 1) == path ++ ['/']

def chainSql (db : Db) (homeId : Grants.Uuid) : List Grants.Uuid :=
  ((db.folders.get? homeId).elim [] fun home =>
    (db.folders.toList.filter fun f =>
      f.workspaceId = home.workspaceId && pathAbove (pathText home.segments) (pathText f.segments)).insertionSort
        fun f g => (pathText g.segments).length ≤ (pathText f.segments).length).map (·.id)

/-- The chain of the folder that a template is filed in. -/
def homeChain (db : Db) (baseId : Grants.Uuid) : List Grants.Uuid :=
  (db.templateFolders.get? baseId).elim [] fun home => chainSql db home.folderId

def visibleScopesFor (db : Db) (kind : ScopeKind) (scopeId : Grants.Uuid) : VisibleScopes :=
  match kind with
  | .platform => ⟨true, none, [], none⟩
  | .workspace => ⟨true, some scopeId, [], none⟩
  | .folder => ⟨true, (db.folders.get? scopeId).map (·.workspaceId), chainSql db scopeId, none⟩
  | .template =>
    match db.templates.get? scopeId with
    | some t => ⟨true, some t.workspaceId, homeChain db t.baseId, some t.baseId⟩
    -- a template that is filed before its row is there
    | none => ⟨true, (db.templateFolders.get? scopeId).map (·.workspaceId), homeChain db scopeId, some scopeId⟩

end Scopes

end Mekhan

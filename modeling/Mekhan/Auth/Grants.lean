import Mekhan.Folders.Path
import Mekhan.Infra.HashMap
import Mekhan.Infra.KeyedList
import Mathlib.Data.List.MinMax
import Mathlib.Data.Prod.Lex

/-!
# Object grants

The tables that decide what a user may do with an object, and the two resolvers of `auth/grants.rs`: one
for a single object, one for a list of objects of one kind and one workspace.

A join on a primary key finds at most one row, and is a lookup here. The `role` columns are constrained to
the four labels, so they hold a role.
-/

namespace Mekhan

namespace Grants

open Infra Folders

abbrev Uuid := Nat

def Uuid.nil : Uuid := 0

/-! ## Roles -/

/-- What a user may do, the weakest first. -/
inductive Role where
  | viewer
  | editor
  | admin
  | owner
deriving DecidableEq

/-- The discriminants, by which the derived order compares. -/
def Role.rank : Role → Nat
  | viewer => 0
  | editor => 1
  | admin => 2
  | owner => 3

theorem Role.rank_injective : Function.Injective Role.rank := by
  intro a b h
  cases a <;> cases b <;> first | rfl | cases h

instance : LinearOrder Role := LinearOrder.lift' Role.rank Role.rank_injective

theorem Role.le_iff {a b : Role} : a ≤ b ↔ a.rank ≤ b.rank := Iff.rfl

/-- `ROLE_RANK`: `CASE role WHEN 'owner' THEN 3 WHEN 'admin' THEN 2 WHEN 'editor' THEN 1 ELSE 0 END` -/
def roleRank (role : Role) : Nat :=
  if role = .owner then 3 else if role = .admin then 2 else if role = .editor then 1 else 0

theorem roleRank_eq (r : Role) : roleRank r = r.rank := by
  cases r <;> rfl

/-! ## The tables -/

/-- The kinds of objects a grant can be for. -/
inductive ObjectKind where
  | folder
  | template
  | «instance»
  | resource
  | asset
deriving DecidableEq

structure ObjectRef where
  kind : ObjectKind
  id : Uuid

/-- A folder, at its path in a workspace. -/
structure Folder where
  id : Uuid
  workspaceId : Uuid
  path : FolderPath
  restricted : Bool
deriving DecidableEq

structure Template where
  id : Uuid
  workspaceId : Uuid
  baseTemplateId : Option Uuid

/-- `COALESCE(t.base_template_id, t.id)` -/
def Template.baseId (t : Template) : Uuid := t.baseTemplateId.getD t.id

/-- Where a family of templates lies. -/
structure TemplateFolder where
  baseTemplateId : Uuid
  folderId : Uuid

structure Instance where
  id : Uuid
  templateId : Uuid

/-- Who an asset belongs to. -/
inductive ScopeKind where
  | platform
  | workspace
  | folder
  | template
deriving DecidableEq

structure Resource where
  id : Uuid
  workspaceId : Uuid
  scopeKind : ScopeKind
  scopeId : Option Uuid
  restricted : Bool

structure Asset where
  id : Uuid
  scopeKind : ScopeKind
  scopeId : Uuid
  restricted : Bool

/-- A role of a user on an object. -/
structure Grant where
  objectType : ObjectKind
  objectId : Uuid
  userId : Uuid
  role : Role

/-- `UNIQUE (object_type, object_id, user_id)` -/
def Grant.key (g : Grant) : ObjectKind × Uuid × Uuid := (g.objectType, g.objectId, g.userId)

/-- A user of a workspace. -/
structure Member where
  workspaceId : Uuid
  userId : Uuid
  role : Role

def Member.key (m : Member) : Uuid × Uuid := (m.workspaceId, m.userId)

/-- The rows. A grant is made on the id of a row, which is random and never the nil id; placing a resource
in a folder or a template requires its id. -/
structure Database where
  folders : KeyedList Folder.id
  templates : KeyedList Template.id
  templateFolders : KeyedList TemplateFolder.baseTemplateId
  instances : KeyedList Instance.id
  resources : KeyedList Resource.id
  assets : KeyedList Asset.id
  grants : KeyedList Grant.key
  members : KeyedList Member.key
  /-- `UNIQUE (workspace_id, path)` -/
  paths : ∀ f ∈ folders.toList, ∀ f' ∈ folders.toList,
    f.workspaceId = f'.workspaceId → f.path = f'.path → f = f'
  grantIds : ∀ g ∈ grants.toList, g.objectType = .template → g.objectId ≠ Uuid.nil
  scopeIds : ∀ r ∈ resources.toList, r.scopeKind = .folder ∨ r.scopeKind = .template → r.scopeId ≠ none

/-- Who asks. -/
structure AuthUser where
  userId : Uuid
  isMachine : Bool
  workspaceId : Option Uuid
  workspaceRole : Option Role

variable (db : Database)

/-! ## Membership -/

/-- `member_role`; `none` for a user who is not a member. -/
def memberRole (user : AuthUser) (workspaceId : Uuid) : Option Role :=
  if user.isMachine then
    if user.workspaceId = some workspaceId then user.workspaceRole else none
  else
    (db.members.get? (workspaceId, user.userId)).map (·.role)

/-! ## The context of an object -/

/-- `LEFT JOIN template_folders tf ON tf.base_template_id = base LEFT JOIN folders f ON f.id = tf.folder_id` -/
def templateHome (base : Uuid) : Option FolderPath :=
  (db.templateFolders.get? base).bind fun tf => (db.folders.get? tf.folderId).map (·.path)

/-- The workspace, the base template and the home path of a scope. -/
def resolveScope (scopeKind : ScopeKind) (scopeId : Uuid) :
    Option (Uuid × Uuid × Option FolderPath) :=
  match scopeKind with
  | .workspace => some (scopeId, Uuid.nil, none)
  | .folder => (db.folders.get? scopeId).map fun f => (f.workspaceId, Uuid.nil, some f.path)
  | .template => (db.templates.get? scopeId).map fun t =>
      (t.workspaceId, t.baseId, templateHome db t.baseId)
  | .platform => none

/-- `EXISTS(SELECT 1 FROM folders WHERE workspace_id = $1 AND restricted AND …)` -/
def restrictedFolder (workspaceId : Uuid) (home : FolderPath) : Bool :=
  db.folders.toList.any fun f => f.workspaceId == workspaceId && f.restricted && under home f.path

/-- An object is restricted by itself or by a folder above it. -/
def isRestricted (workspaceId : Uuid) (homePath : Option FolderPath) (selfRestricted : Bool) : Bool :=
  if selfRestricted then true
  else match homePath with
    | none => false
    | some home => restrictedFolder db workspaceId home

/-- What the role of an object depends on besides the grants. -/
structure ObjCtx where
  workspaceId : Uuid
  baseId : Uuid
  homePath : Option FolderPath
  restricted : Bool

/-- The row that `resolve_ctx` reads: workspace, base, home path and the object's own flag. -/
def resolved (obj : ObjectRef) : Option (Uuid × Uuid × Option FolderPath × Bool) :=
  match obj.kind with
  | .folder => (db.folders.get? obj.id).map fun f => (f.workspaceId, f.id, some f.path, f.restricted)
  | .template => (db.templates.get? obj.id).map fun t =>
      (t.workspaceId, t.baseId, templateHome db t.baseId, false)
  | .instance => (db.instances.get? obj.id).bind fun i => (db.templates.get? i.templateId).map fun t =>
      (t.workspaceId, t.baseId, templateHome db t.baseId, false)
  | .resource => (db.resources.get? obj.id).map fun r =>
      match resolveScope db r.scopeKind (r.scopeId.getD r.workspaceId) with
      | some (_, base, home) => (r.workspaceId, base, home, r.restricted)
      -- the scope row vanished: the resource is placed in its workspace
      | none => (r.workspaceId, Uuid.nil, none, r.restricted)
  | .asset => (db.assets.get? obj.id).bind fun a =>
      (resolveScope db a.scopeKind a.scopeId).map fun (ws, base, home) => (ws, base, home, a.restricted)

/-- An object that is not there has no context. -/
def resolveCtx (obj : ObjectRef) : Option ObjCtx :=
  (resolved db obj).map fun (ws, base, home, selfRestricted) =>
    ⟨ws, base, home, isRestricted db ws home selfRestricted⟩

/-! ## The grant tiers -/

/-- A role and how close its source is to the object. -/
structure Tier where
  role : Role
  sourceRank : Nat
  depth : Nat

/-- `source_rank, depth, ROLE_RANK` -/
def Tier.key (t : Tier) : ℕ ×ₗ ℕ ×ₗ ℕ := toLex (t.sourceRank, toLex (t.depth, roleRank t.role))

/-- `SELECT role FROM (…) s ORDER BY source_rank DESC, depth DESC, ROLE_RANK DESC LIMIT 1` -/
def mostSpecific (tiers : List Tier) : Option Role := (tiers.argmax Tier.key).map (·.role)

/-- The grants of a user on one object, as a tier. -/
def objectTier (kind : ObjectKind) (sourceRank : Nat) (objectId uid : Uuid) : List Tier :=
  (db.grants.toList.filter fun g =>
    g.objectType == kind && g.objectId == objectId && g.userId == uid).map fun g =>
      ⟨g.role, sourceRank, 0⟩

/-- The row that a folder grant of the user joins to, if its folder is above the home path. The query has
no condition on `f.workspace_id`. -/
def folderTierRow (uid : Uuid) (home : FolderPath) (g : Grant) : Option Tier :=
  if g.objectType == .folder && g.userId == uid then
    (db.folders.get? g.objectId).bind fun f =>
      if under home f.path then some ⟨g.role, 2, f.path.depth⟩ else none
  else none

/-- The grants of the folders above, the closest first. -/
def folderTier (uid : Uuid) (homePath : Option FolderPath) : List Tier :=
  match homePath with
  | none => []
  | some home => db.grants.toList.filterMap (folderTierRow db uid home)

/-- The most specific grant; a kind decides which tiers count. -/
def bestGrantRole (kind : ObjectKind) (ctx : ObjCtx) (objectId uid : Uuid) : Option Role :=
  match kind with
  | .folder => mostSpecific (folderTier db uid ctx.homePath)
  | .template => mostSpecific
      (objectTier db .template 3 ctx.baseId uid ++ folderTier db uid ctx.homePath)
  | .instance | .resource | .asset => mostSpecific
      (objectTier db kind 4 objectId uid ++
        (objectTier db .template 3 ctx.baseId uid ++ folderTier db uid ctx.homePath))

/-! ## The two resolvers -/

/-- `effective_object_role`; `none` where it gives no access. -/
def effectiveObjectRole (user : AuthUser) (obj : ObjectRef) : Option Role :=
  match resolveCtx db obj with
  | none => none
  | some ctx =>
    match memberRole db user ctx.workspaceId with
    | none => none
    | some wsRole =>
      if wsRole ≥ .admin then some wsRole
      else
        let grant := bestGrantRole db obj.kind ctx obj.id user.userId
        if ctx.restricted then grant
        else some (grant.elim wsRole fun g => max g wsRole)

/-- A row of the `ctx` common table expression; `base_id` is NULL outside a template. -/
structure CtxRow where
  candId : Uuid
  baseId : Option Uuid
  homePath : Option FolderPath
  selfRestricted : Bool

/-- The scope of a resource or an asset, resolved by the guarded joins. -/
def scopeRow (candId : Uuid) (scopeKind : ScopeKind) (scopeId : Option Uuid) (restricted : Bool) :
    CtxRow :=
  match scopeKind with
  | .folder => ⟨candId, none, (scopeId.bind db.folders.get?).map (·.path), restricted⟩
  | .template =>
    let base := (scopeId.bind db.templates.get?).map (·.baseId)
    ⟨candId, base, base.bind (templateHome db), restricted⟩
  | .workspace | .platform => ⟨candId, none, none, restricted⟩

/-- `ctx_cte` -/
def ctxRows (kind : ObjectKind) (ids : List Uuid) : List CtxRow :=
  match kind with
  | .folder => (db.folders.toList.filter (·.id ∈ ids)).map fun f =>
      ⟨f.id, some f.id, some f.path, f.restricted⟩
  | .template => (db.templates.toList.filter (·.id ∈ ids)).map fun t =>
      ⟨t.id, some t.baseId, templateHome db t.baseId, false⟩
  | .instance => (db.instances.toList.filter (·.id ∈ ids)).filterMap fun i =>
      (db.templates.get? i.templateId).map fun t =>
        ⟨i.id, some t.baseId, templateHome db t.baseId, false⟩
  | .resource => (db.resources.toList.filter (·.id ∈ ids)).map fun r =>
      scopeRow db r.id r.scopeKind r.scopeId r.restricted
  | .asset => (db.assets.toList.filter (·.id ∈ ids)).map fun a =>
      scopeRow db a.id a.scopeKind (some a.scopeId) a.restricted

def objectTier? (kind : ObjectKind) (sourceRank : Nat) (objectId : Option Uuid) (uid : Uuid) :
    List Tier := objectId.elim [] fun id => objectTier db kind sourceRank id uid

/-- The `LATERAL` subquery: the best tier of a row. -/
def bestOfRow (kind : ObjectKind) (uid : Uuid) (ctx : CtxRow) : Option Role :=
  match kind with
  | .folder => mostSpecific (folderTier db uid ctx.homePath)
  | .template => mostSpecific
      (objectTier? db .template 3 ctx.baseId uid ++ folderTier db uid ctx.homePath)
  | .instance | .resource | .asset => mostSpecific
      (objectTier db kind 4 ctx.candId uid ++
        (objectTier? db .template 3 ctx.baseId uid ++ folderTier db uid ctx.homePath))

/-- `ctx.self_restricted OR EXISTS(…)` -/
def rowRestricted (workspaceId : Uuid) (ctx : CtxRow) : Bool :=
  ctx.selfRestricted || ctx.homePath.elim false (restrictedFolder db workspaceId)

/-- What the loop inserts for a row: nothing for a restricted object without a grant. -/
def rowRole (kind : ObjectKind) (user : AuthUser) (workspaceId : Uuid) (wsRole : Role) (ctx : CtxRow) :
    Option Role :=
  let grant := bestOfRow db kind user.userId ctx
  if rowRestricted db workspaceId ctx then grant
  else some (grant.elim wsRole fun g => max g wsRole)

/-- Rows without a role are left out. -/
def insertRows (rows : List (Uuid × Option Role)) : MapOf Uuid Role :=
  rows.foldl (fun out row => row.2.elim out fun r => out.insert row.1 r) ∅

/-- The roles of a page of objects, by one query. -/
def effectiveObjectRoles (user : AuthUser) (kind : ObjectKind) (workspaceId : Uuid) (ids : List Uuid) :
    MapOf Uuid Role :=
  if ids = [] then ∅
  else
    match memberRole db user workspaceId with
    | none => ∅
    | some wsRole =>
      if wsRole ≥ .admin then ids.foldl (fun out id => out.insert id wsRole) ∅
      else insertRows ((ctxRows db kind ids).map fun ctx =>
        (ctx.candId, rowRole db kind user workspaceId wsRole ctx))

end Grants

end Mekhan

import Mekhan.Auth.Grants

/-!
# What decides the access to an object

The documented rule: the workspace role where it is Admin or Owner, else the most specific grant among the
object, its owning template and the folders of its workspace above its home, deepest first, raised to the
workspace role unless the object or one of these folders is restricted.

The folder tier of both resolvers joins grants to folders by path alone. A folder of another workspace that
stands above the home path there takes part as well.
-/

namespace Mekhan

namespace ObjectAccess

open Infra Folders Grants

/-! ## The documented rule -/

/-- Where an object lies, as both resolvers read it. -/
structure Placement where
  workspaceId : Grants.Uuid
  /-- What a grant on the object itself is made on; a folder is in its own folder chain. -/
  own : Option (ObjectKind × Grants.Uuid)
  template : Option Grants.Uuid
  home : Option FolderPath
  restricted : Bool

def Placement.targets (p : Placement) : List (ObjectKind × Grants.Uuid) :=
  p.own.toList ++ p.template.toList.map fun base => (ObjectKind.template, base)

variable (db : Database)

/-- The placement that a scope gives: workspace, owning template and home folder. -/
def scopePlacement (scopeKind : ScopeKind) (scopeId : Grants.Uuid) :
    Option (Grants.Uuid × Option Grants.Uuid × Option FolderPath) :=
  match scopeKind with
  | .platform => none
  | .workspace => some (scopeId, none, none)
  | .folder => (db.folders.get? scopeId).map fun f => (f.workspaceId, none, some f.path)
  | .template => (db.templates.get? scopeId).map fun t =>
      (t.workspaceId, some t.baseId, templateHome db t.baseId)

def placement (obj : ObjectRef) : Option Placement :=
  match obj.kind with
  | .folder => (db.folders.get? obj.id).map fun f =>
      ⟨f.workspaceId, none, none, some f.path, f.restricted⟩
  | .template => (db.templates.get? obj.id).map fun t =>
      ⟨t.workspaceId, some (.template, t.baseId), none, templateHome db t.baseId, false⟩
  | .instance => (db.instances.get? obj.id).bind fun i => (db.templates.get? i.templateId).map fun t =>
      ⟨t.workspaceId, some (.instance, i.id), some t.baseId, templateHome db t.baseId, false⟩
  | .resource => (db.resources.get? obj.id).map fun r =>
      match scopePlacement db r.scopeKind (r.scopeId.getD r.workspaceId) with
      | some (_, template, home) => ⟨r.workspaceId, some (.resource, r.id), template, home, r.restricted⟩
      | none => ⟨r.workspaceId, some (.resource, r.id), none, none, r.restricted⟩
  | .asset => (db.assets.get? obj.id).bind fun a =>
      (scopePlacement db a.scopeKind a.scopeId).map fun (ws, template, home) =>
        ⟨ws, some (.asset, a.id), template, home, a.restricted⟩

def folderAt (workspaceId : Grants.Uuid) (slugs : List Slug) : Option Folder :=
  db.folders.toList.find? fun f => f.workspaceId = workspaceId ∧ f.path.slugs = slugs

/-- The folders of a workspace at a path and above it, deepest first. -/
def chain (workspaceId : Grants.Uuid) (home : FolderPath) : List Folder :=
  (List.range (home.slugs.length + 1)).reverse.filterMap fun n =>
    folderAt db workspaceId (home.slugs.take n)

def Placement.chain (p : Placement) : List Folder := p.home.elim [] (ObjectAccess.chain db p.workspaceId)

/-- The role that a user is granted on an object. -/
def grantOn (uid : Grants.Uuid) (target : ObjectKind × Grants.Uuid) : Option Role :=
  (db.grants.get? (target.1, target.2, uid)).map (·.role)

/-- The most specific grant: the object, its owning template, the folder chain. -/
def specificGrant (uid : Grants.Uuid) (p : Placement) : Option Role :=
  (p.targets.findSome? (grantOn db uid)).or
    ((p.chain db).findSome? fun f => grantOn db uid (.folder, f.id))

def documentedRole (user : AuthUser) (obj : ObjectRef) : Option Role :=
  (placement db obj).bind fun p =>
    (memberRole db user p.workspaceId).bind fun wsRole =>
      if wsRole ≥ .admin then some wsRole
      else if p.restricted || (p.chain db).any (·.restricted) then specificGrant db user.userId p
      else some ((specificGrant db user.userId p).elim wsRole (max wsRole))

/-! ## Other workspaces -/

/-- An object of another workspace that is not the owning template. -/
def Elsewhere (p : Placement) (target : ObjectKind × Grants.Uuid) : Prop :=
  target ∉ p.targets ∧ ∃ q, placement db ⟨target.1, target.2⟩ = some q ∧ q.workspaceId ≠ p.workspaceId

/-- The same rows but for grants on objects of other workspaces. -/
structure SameButElsewhere (db' : Database) (p : Placement) : Prop where
  folders : db'.folders = db.folders
  templates : db'.templates = db.templates
  templateFolders : db'.templateFolders = db.templateFolders
  instances : db'.instances = db.instances
  resources : db'.resources = db.resources
  assets : db'.assets = db.assets
  members : db'.members = db.members
  grants : ∀ target uid, ¬ Elsewhere db p target → grantOn db' uid target = grantOn db uid target

/-- A folder of a workspace above a home path on which the user holds a grant. -/
def GrantedAbove (workspaceId uid : Grants.Uuid) (home : FolderPath) (f : Folder) (r : Role) : Prop :=
  f ∈ db.folders.toList ∧ f.workspaceId = workspaceId ∧ under home f.path = true ∧
    grantOn db uid (.folder, f.id) = some r

/-- A folder of another workspace that a grant on would come before the granted folders of this one: at
least as deep as each, and where the paths are equal, not against an owner. -/
def ShadowedBy (workspaceId uid : Grants.Uuid) (home : FolderPath) (f : Folder) : Prop :=
  f ∈ db.folders.toList ∧ f.workspaceId ≠ workspaceId ∧ under home f.path = true ∧
    ∀ g r, GrantedAbove db workspaceId uid home g r →
      g.path.slugs <+: f.path.slugs ∧ (g.path = f.path → r ≠ .owner)

/-- The user is a member below Admin without a grant on the object or its template, and a folder of another
workspace shadows the home folder. -/
def Shadowed (user : AuthUser) (p : Placement) : Prop :=
  (∃ wsRole, memberRole db user p.workspaceId = some wsRole ∧ wsRole < .admin) ∧
    (∀ target ∈ p.targets, grantOn db user.userId target = none) ∧
    ∃ home, p.home = some home ∧ ∃ f, ShadowedBy db p.workspaceId user.userId home f

/-! ## The best tier -/

variable {f : Folder} {id : Grants.Uuid} {t : Tier} {kind : ObjectKind}
  {rows : List (Grants.Uuid × Option Role)}

theorem key_le_iff {t' : Tier} : t.key ≤ t'.key ↔
    t.sourceRank < t'.sourceRank ∨ t.sourceRank = t'.sourceRank ∧
      (t.depth < t'.depth ∨ t.depth = t'.depth ∧ t.role ≤ t'.role) := by
  rw [Tier.key, Tier.key, Prod.Lex.toLex_le_toLex, Prod.Lex.toLex_le_toLex, roleRank_eq, roleRank_eq,
    Role.le_iff]

variable {l : List Tier} {slugs : List Slug} {r x : Role} {template : Option Grants.Uuid}
  {out : MapOf Grants.Uuid Role}

theorem exists_max (hl : l ≠ []) : ∃ t ∈ l, ∀ t' ∈ l, t'.key ≤ t.key := by
  cases hmax : l.argmax Tier.key with
  | none => exact absurd (List.argmax_eq_none.mp hmax) hl
  | some t => exact ⟨t, List.argmax_mem hmax, fun t' ht' => List.le_of_mem_argmax ht' hmax⟩

theorem mostSpecific_of_max (ht : t ∈ l) (hmax : ∀ t' ∈ l, t'.key ≤ t.key) :
    mostSpecific l = some t.role := by
  cases hm : l.argmax Tier.key with
  | none => exact absurd ht (by simp [List.argmax_eq_none.mp hm])
  | some m =>
    have hle := key_le_iff.mp (hmax m (List.argmax_mem hm))
    have hge := key_le_iff.mp (List.le_of_mem_argmax ht hm)
    have hrole : m.role = t.role := le_antisymm
      (by
        rcases hle with h | ⟨_, h | ⟨_, h⟩⟩
        · omega
        · omega
        · exact h)
      (by
        rcases hge with h | ⟨_, h | ⟨_, h⟩⟩
        · omega
        · omega
        · exact h)
    rw [mostSpecific, hm, Option.map_some, hrole]

theorem mostSpecific_lead (o : Option Role) {rank : Nat} {l : List Tier} (h : ∀ t ∈ l, t.sourceRank < rank) :
    mostSpecific (o.toList.map (⟨·, rank, 0⟩) ++ l) = o.or (mostSpecific l) := by
  cases o with
  | none => rfl
  | some r =>
    refine mostSpecific_of_max (t := ⟨r, rank, 0⟩) List.mem_cons_self fun t' ht' => ?_
    rcases List.mem_cons.mp ht' with rfl | ht'
    · exact le_refl _
    · exact key_le_iff.mpr (Or.inl (h t' ht'))

/-! ## The tiers -/

variable {db} {uid W : Grants.Uuid} {home : FolderPath}

theorem objectTier_eq (kind : ObjectKind) (rank : Nat) (id uid : Grants.Uuid) :
    objectTier db kind rank id uid = (grantOn db uid (kind, id)).toList.map (⟨·, rank, 0⟩) := by
  rw [objectTier, KeyedList.filter_key (k := (kind, id, uid)), grantOn]
  · cases db.grants.get? (kind, id, uid) with
    | none => rfl
    | some g => rfl
  · intro g _
    simp [Grant.key, and_assoc]

theorem mem_folderTier : t ∈ folderTier db uid (some home) ↔
    ∃ f r, GrantedAbove db f.workspaceId uid home f r ∧ t = ⟨r, 2, f.path.depth⟩ := by
  rw [folderTier, List.mem_filterMap]
  constructor
  · rintro ⟨g, hg, hrow⟩
    unfold folderTierRow at hrow
    split at hrow
    · next hkey =>
      obtain ⟨f, hf, hrow⟩ := Option.bind_eq_some_iff.mp hrow
      split at hrow
      · next hunder =>
        rw [Bool.and_eq_true, beq_iff_eq, beq_iff_eq] at hkey
        cases hrow
        refine ⟨f, g.role, ⟨KeyedList.mem_of_get? hf, rfl, hunder, ?_⟩, rfl⟩
        have hgkey : g.key = (ObjectKind.folder, f.id, uid) := by
          rw [Grant.key, hkey.1, hkey.2, KeyedList.key_of_get? hf]
        rw [grantOn, ← hgkey, KeyedList.get?_of_mem hg]
        rfl
      · cases hrow
    · cases hrow
  · rintro ⟨f, r, ⟨hf, _, hunder, hgrant⟩, rfl⟩
    obtain ⟨g, hg, rfl⟩ := Option.map_eq_some_iff.mp hgrant
    refine ⟨g, KeyedList.mem_of_get? hg, ?_⟩
    have hkey : g.key = (ObjectKind.folder, f.id, uid) := KeyedList.key_of_get? hg
    simp only [Grant.key, Prod.mk.injEq] at hkey
    rw [folderTierRow, hkey.1, hkey.2.1, hkey.2.2, KeyedList.get?_of_mem hf]
    simp [hunder]

theorem sourceRank_folderTier {homePath : Option FolderPath}
    (h : t ∈ folderTier db uid homePath) : t.sourceRank = 2 := by
  cases homePath with
  | none => cases h
  | some home =>
    obtain ⟨f, r, _, rfl⟩ := mem_folderTier.mp h
    rfl

theorem mostSpecific_tiers (own template : Option Role) (homePath : Option FolderPath) :
    mostSpecific (own.toList.map (⟨·, 4, 0⟩) ++
        (template.toList.map (⟨·, 3, 0⟩) ++ folderTier db uid homePath)) =
      own.or (template.or (mostSpecific (folderTier db uid homePath))) := by
  rw [mostSpecific_lead, mostSpecific_lead]
  · intro t ht
    rw [sourceRank_folderTier ht]
    omega
  · intro t ht
    rcases List.mem_append.mp ht with ht | ht
    · obtain ⟨r, _, rfl⟩ := List.mem_map.mp ht
      show 3 < 4
      omega
    · rw [sourceRank_folderTier ht]
      omega

/-! ## The folder chain -/

theorem spec_of_folderAt (h : folderAt db W slugs = some f) :
    f ∈ db.folders.toList ∧ f.workspaceId = W ∧ f.path.slugs = slugs :=
  ⟨List.mem_of_find?_eq_some h, of_decide_eq_true
    (List.find?_some (p := fun f : Folder => decide (f.workspaceId = W ∧ f.path.slugs = slugs)) h)⟩

theorem folderAt_eq_some_iff : folderAt db W slugs = some f ↔
    f ∈ db.folders.toList ∧ f.workspaceId = W ∧ f.path.slugs = slugs := by
  constructor
  · exact spec_of_folderAt
  · rintro ⟨hmem, rfl, rfl⟩
    cases hfind : folderAt db f.workspaceId f.path.slugs with
    | none =>
      exact absurd (decide_eq_true ⟨rfl, rfl⟩) (List.find?_eq_none.mp hfind f hmem)
    | some f' =>
      obtain ⟨hmem', hW, hslugs⟩ := spec_of_folderAt hfind
      have hpath : f'.path = f.path := by
        cases hp : f'.path
        cases hq : f.path
        rw [hp, hq] at hslugs
        simpa using hslugs
      rw [db.paths f' hmem' f hmem hW hpath]

theorem mem_chain : f ∈ chain db W home ↔
    f ∈ db.folders.toList ∧ f.workspaceId = W ∧ under home f.path = true := by
  rw [chain, List.mem_filterMap]
  constructor
  · rintro ⟨n, _, hf⟩
    obtain ⟨hmem, hW, hslugs⟩ := folderAt_eq_some_iff.mp hf
    exact ⟨hmem, hW, under_iff.mpr (hslugs ▸ List.take_prefix n _)⟩
  · rintro ⟨hmem, hW, hunder⟩
    have hprefix := under_iff.mp hunder
    refine ⟨f.path.slugs.length, ?_, ?_⟩
    · rw [List.mem_reverse, List.mem_range]
      exact Nat.lt_succ_of_le hprefix.length_le
    · exact folderAt_eq_some_iff.mpr ⟨hmem, hW, List.prefix_iff_eq_take.mp hprefix⟩

theorem findSome?_reverse_range {β : Type} {F : Nat → Option β} {n N : Nat} {b : β} (hn : n ≤ N)
    (hF : F n = some b) (hlater : ∀ m, n < m → m ≤ N → F m = none) :
    (List.range (N + 1)).reverse.findSome? F = some b := by
  induction N with
  | zero =>
    obtain rfl := Nat.le_zero.mp hn
    simpa using hF
  | succ N ih =>
    rw [List.range_succ, List.reverse_append, List.reverse_singleton, List.singleton_append,
      List.findSome?_cons]
    rcases Nat.lt_or_eq_of_le hn with hlt | rfl
    · rw [hlater (N + 1) hlt (Nat.le_refl _)]
      exact ih (Nat.le_of_lt_succ hlt) fun m hm hmN => hlater m hm (Nat.le_succ_of_le hmN)
    · rw [hF]

theorem findSome?_congr {α β : Type} {f g : α → Option β} : ∀ {l : List α}, (∀ a ∈ l, f a = g a) →
    l.findSome? f = l.findSome? g
  | [], _ => rfl
  | a :: l, h => by
    rw [List.findSome?_cons, List.findSome?_cons, h a List.mem_cons_self,
      findSome?_congr fun b hb => h b (List.mem_cons_of_mem _ hb)]

theorem findSome?_filterMap {α β γ : Type} (f : α → Option β) (g : β → Option γ) (l : List α) :
    (l.filterMap f).findSome? g = l.findSome? fun a => (f a).bind g := by
  induction l with
  | nil => rfl
  | cons a l ih =>
    cases ha : f a with
    | none => rw [List.filterMap_cons_none ha, List.findSome?_cons, ha, ih]; rfl
    | some b =>
      rw [List.filterMap_cons_some ha, List.findSome?_cons, List.findSome?_cons, ih, ha]
      rfl

theorem nearest_of_deepest {g : Folder} (hg : GrantedAbove db W uid home g r)
    (hdeepest : ∀ g' r', GrantedAbove db W uid home g' r' → g'.path.slugs <+: g.path.slugs) :
    (chain db W home).findSome? (fun f => grantOn db uid (.folder, f.id)) = some r := by
  obtain ⟨hmem, hW, hunder, hgrant⟩ := hg
  have hprefix := under_iff.mp hunder
  rw [chain, findSome?_filterMap]
  refine findSome?_reverse_range hprefix.length_le ?_ ?_
  · rw [folderAt_eq_some_iff.mpr ⟨hmem, hW, List.prefix_iff_eq_take.mp hprefix⟩]
    exact hgrant
  · intro m hlt hm
    cases hat : folderAt db W (home.slugs.take m) with
    | none => rfl
    | some f =>
      obtain ⟨hf, hfW, hslugs⟩ := folderAt_eq_some_iff.mp hat
      refine Option.eq_none_iff_forall_ne_some.mpr fun r' hr' => ?_
      -- a granted folder below the deepest one
      have hle := (hdeepest f r' ⟨hf, hfW, under_iff.mpr (hslugs ▸ List.take_prefix m _), hr'⟩).length_le
      rw [hslugs, List.length_take, Nat.min_eq_left hm] at hle
      omega

theorem nearest_eq_none (h : ∀ g r, ¬ GrantedAbove db W uid home g r) :
    (chain db W home).findSome? (fun f => grantOn db uid (.folder, f.id)) = none := by
  refine List.findSome?_eq_none_iff.mpr fun f hf => ?_
  obtain ⟨hmem, hW, hunder⟩ := mem_chain.mp hf
  exact Option.eq_none_iff_forall_ne_some.mpr fun r hr => h f r ⟨hmem, hW, hunder, hr⟩

/-! ## One object -/

variable {obj : ObjectRef} {p : Placement} {user : AuthUser}

/-- What the two resolvers make of the workspace role, the restriction and the grant. -/
def decideRole (wsRole : Role) (restricted : Bool) (grant : Option Role) : Option Role :=
  if wsRole ≥ .admin then some wsRole
  else if restricted then grant
  else some (grant.elim wsRole (max wsRole))

def Placement.isRestricted (db : Database) (p : Placement) : Bool :=
  p.restricted || (p.chain db).any (·.restricted)

theorem documentedRole_eq (hp : placement db obj = some p) :
    documentedRole db user obj = (memberRole db user p.workspaceId).bind fun wsRole =>
      decideRole wsRole (p.isRestricted db) (specificGrant db user.userId p) := by
  rw [documentedRole, hp]
  rfl

theorem restrictedFolder_eq (W : Grants.Uuid) (home : FolderPath) :
    restrictedFolder db W home = (chain db W home).any (·.restricted) := by
  rw [restrictedFolder, Bool.eq_iff_iff, List.any_eq_true, List.any_eq_true]
  constructor
  · rintro ⟨f, hf, h⟩
    simp only [Bool.and_eq_true, beq_iff_eq] at h
    exact ⟨f, mem_chain.mpr ⟨hf, h.1.1, h.2⟩, h.1.2⟩
  · rintro ⟨f, hf, h⟩
    obtain ⟨hmem, hW, hunder⟩ := mem_chain.mp hf
    exact ⟨f, hmem, by simp [hW, hunder, h]⟩

theorem isRestricted_eq (p : Placement) :
    Grants.isRestricted db p.workspaceId p.home p.restricted = p.isRestricted db := by
  unfold Grants.isRestricted Placement.isRestricted Placement.chain
  cases p.restricted with
  | true => rfl
  | false =>
    cases p.home with
    | none => rfl
    | some home => exact restrictedFolder_eq p.workspaceId home

/-- What the queries make of the grants of an object. -/
def tierGrant (db : Database) (uid : Grants.Uuid) (p : Placement) : Option Role :=
  (p.targets.findSome? (grantOn db uid)).or (mostSpecific (folderTier db uid p.home))

theorem grantOn_nil (uid : Grants.Uuid) : grantOn db uid (.template, Grants.Uuid.nil) = none := by
  refine Option.eq_none_iff_forall_ne_some.mpr fun r hr => ?_
  obtain ⟨g, hg, _⟩ := Option.map_eq_some_iff.mp hr
  have hkey : g.key = (ObjectKind.template, Grants.Uuid.nil, uid) := KeyedList.key_of_get? hg
  simp only [Grant.key, Prod.mk.injEq] at hkey
  exact db.grantIds g (KeyedList.mem_of_get? hg) hkey.1 hkey.2.1

theorem grantOn_base (uid : Grants.Uuid) (template : Option Grants.Uuid) :
    grantOn db uid (.template, template.getD Grants.Uuid.nil) =
      template.bind fun base => grantOn db uid (.template, base) := by
  cases template with
  | none => exact grantOn_nil uid
  | some base => rfl

theorem scopePlacement_eq (k : ScopeKind) (id : Grants.Uuid) : resolveScope db k id =
    (scopePlacement db k id).map fun (ws, template, home) => (ws, template.getD Grants.Uuid.nil, home) := by
  cases k with
  | platform => rfl
  | workspace => rfl
  | folder => rw [resolveScope, scopePlacement, Option.map_map]; rfl
  | template => rw [resolveScope, scopePlacement, Option.map_map]; rfl

theorem tiers_of_self (template : Option Grants.Uuid) {ctx : ObjCtx}
    (hkind : kind = .instance ∨ kind = .resource ∨ kind = .asset)
    (hbase : ctx.baseId = template.getD Grants.Uuid.nil) (uid : Grants.Uuid) :
    bestGrantRole db kind ctx id uid = (grantOn db uid (kind, id)).or
        ((template.bind fun base => grantOn db uid (.template, base)).or
          (mostSpecific (folderTier db uid ctx.homePath))) := by
  have hbest : bestGrantRole db kind ctx id uid = mostSpecific (objectTier db kind 4 id uid ++
      (objectTier db .template 3 ctx.baseId uid ++ folderTier db uid ctx.homePath)) := by
    rcases hkind with rfl | rfl | rfl <;> rfl
  rw [hbest, objectTier_eq, objectTier_eq, mostSpecific_tiers, hbase, grantOn_base]

theorem tierGrant_of_self {W : Grants.Uuid} {home : Option FolderPath} {r : Bool} (uid : Grants.Uuid) :
    tierGrant db uid ⟨W, some (kind, id), template, home, r⟩ = (grantOn db uid (kind, id)).or
        ((template.bind fun base => grantOn db uid (.template, base)).or
          (mostSpecific (folderTier db uid home))) := by
  unfold tierGrant Placement.targets
  cases template with
  | none =>
    cases h : grantOn db uid (kind, id) <;> simp [h]
  | some base =>
    cases h : grantOn db uid (kind, id) <;> cases h' : grantOn db uid (.template, base) <;>
      simp [h, h']

/-- **What `resolve_ctx` and `best_grant_role` make of an object.** -/
theorem resolveCtx_of_placement (hp : placement db obj = some p) : ∃ base,
    resolveCtx db obj = some ⟨p.workspaceId, base, p.home, p.isRestricted db⟩ ∧
      ∀ uid, bestGrantRole db obj.kind ⟨p.workspaceId, base, p.home, p.isRestricted db⟩ obj.id uid =
        tierGrant db uid p := by
  obtain ⟨kind, id⟩ := obj
  cases kind with
  | folder =>
    obtain ⟨f, hf, rfl⟩ := Option.map_eq_some_iff.mp hp
    refine ⟨f.id, ?_, fun uid => rfl⟩
    show ((db.folders.get? id).map _).map _ = _
    rw [hf, ← isRestricted_eq]
    rfl
  | template =>
    obtain ⟨t, ht, rfl⟩ := Option.map_eq_some_iff.mp hp
    refine ⟨t.baseId, ?_, fun uid => ?_⟩
    · show ((db.templates.get? id).map _).map _ = _
      rw [ht, ← isRestricted_eq]
      rfl
    · show mostSpecific (objectTier db .template 3 t.baseId uid ++ _) = _
      rw [objectTier_eq, mostSpecific_lead _ fun x hx => by rw [sourceRank_folderTier hx]; omega]
      unfold tierGrant Placement.targets
      cases h : grantOn db uid (.template, t.baseId) <;> simp [h]
  | «instance» =>
    obtain ⟨i, hi, hp⟩ := Option.bind_eq_some_iff.mp hp
    obtain ⟨t, ht, rfl⟩ := Option.map_eq_some_iff.mp hp
    refine ⟨t.baseId, ?_, fun uid => ?_⟩
    · show ((db.instances.get? id).bind _).map _ = _
      rw [hi, Option.bind_some, ht, ← isRestricted_eq]
      rfl
    · rw [tiers_of_self (some t.baseId) (Or.inl rfl) rfl, tierGrant_of_self, KeyedList.key_of_get? hi]
  | resource =>
    obtain ⟨r, hr, rfl⟩ := Option.map_eq_some_iff.mp hp
    show ∃ base, ((db.resources.get? id).map _).map _ = _ ∧ _
    rw [hr, Option.map_some, Option.map_some, scopePlacement_eq]
    cases hscope : scopePlacement db r.scopeKind (r.scopeId.getD r.workspaceId) with
    | none =>
      refine ⟨Grants.Uuid.nil, by rw [← isRestricted_eq]; rfl, fun uid => ?_⟩
      rw [tiers_of_self none (Or.inr (Or.inl rfl)) rfl, tierGrant_of_self, KeyedList.key_of_get? hr]
    | some scope =>
      obtain ⟨ws, template, home⟩ := scope
      refine ⟨template.getD Grants.Uuid.nil, by rw [← isRestricted_eq]; rfl, fun uid => ?_⟩
      rw [tiers_of_self template (Or.inr (Or.inl rfl)) rfl, tierGrant_of_self, KeyedList.key_of_get? hr]
  | asset =>
    obtain ⟨a, ha, hp⟩ := Option.bind_eq_some_iff.mp hp
    obtain ⟨⟨ws, template, home⟩, hscope, rfl⟩ := Option.map_eq_some_iff.mp hp
    refine ⟨template.getD Grants.Uuid.nil, ?_, fun uid => ?_⟩
    · show ((db.assets.get? id).bind _).map _ = _
      rw [ha, Option.bind_some, scopePlacement_eq, hscope, ← isRestricted_eq]
      rfl
    · rw [tiers_of_self template (Or.inr (Or.inr rfl)) rfl, tierGrant_of_self, KeyedList.key_of_get? ha]

theorem effectiveObjectRole_eq (hp : placement db obj = some p) :
    effectiveObjectRole db user obj = (memberRole db user p.workspaceId).bind fun wsRole =>
      decideRole wsRole (p.isRestricted db) (tierGrant db user.userId p) := by
  obtain ⟨base, hctx, hbest⟩ := resolveCtx_of_placement hp
  rw [effectiveObjectRole, hctx]
  dsimp -zeta only
  cases memberRole db user p.workspaceId with
  | none => rfl
  | some wsRole =>
    show (if wsRole ≥ .admin then _ else _) = decideRole wsRole _ _
    rw [decideRole, hbest]
    congr 2
    cases tierGrant db user.userId p with
    | none => rfl
    | some r =>
      show (if p.isRestricted db then some r else some (max r wsRole)) = _
      rw [max_comm]
      rfl

/-! ## The folder tier without a shadow -/

/-- **The folder tier gives the nearest grant where each granted folder of another workspace yields to one
of this.** -/
theorem folderTier_eq_nearest {W : Grants.Uuid} (h : ∀ f r, f.workspaceId ≠ W →
    GrantedAbove db f.workspaceId uid home f r → ∃ g r', GrantedAbove db W uid home g r' ∧
      ¬ (g.path.slugs <+: f.path.slugs ∧ (g.path = f.path → r' ≠ .owner))) :
    mostSpecific (folderTier db uid (some home)) =
      (chain db W home).findSome? fun f => grantOn db uid (.folder, f.id) := by
  by_cases hempty : folderTier db uid (some home) = []
  · rw [hempty, nearest_eq_none]
    · rfl
    · intro g r hg
      have := mem_folderTier.mpr ⟨g, r, hg.2.1 ▸ hg, rfl⟩
      rw [hempty] at this
      cases this
  obtain ⟨m, hm, hmax⟩ := exists_max hempty
  obtain ⟨f, r, hf, rfl⟩ := mem_folderTier.mp hm
  -- no granted folder above the home path is deeper than the one that comes first
  have hkey : ∀ ws g r', GrantedAbove db ws uid home g r' → g.path.slugs <+: f.path.slugs ∧
      (g.path = f.path → r' ≤ r) := by
    intro ws g r' hg
    have hle := key_le_iff.mp (hmax _ (mem_folderTier.mpr ⟨g, r', hg.2.1 ▸ hg, rfl⟩))
    have hdepth : g.path.depth ≤ f.path.depth := by
      rcases hle with h | ⟨_, h | ⟨h, _⟩⟩
      · exact absurd h (lt_irrefl 2)
      · exact h.le
      · exact h.le
    refine ⟨(depth_le_iff hg.2.2.1 hf.2.2.1).mp hdepth, fun hpath => ?_⟩
    rcases hle with h | ⟨_, h | ⟨_, h⟩⟩
    · exact absurd h (lt_irrefl 2)
    · exact absurd h (by rw [hpath]; exact lt_irrefl _)
    · exact h
  rw [mostSpecific_of_max hm hmax]
  by_cases hW : f.workspaceId = W
  · refine (nearest_of_deepest (hW ▸ hf) fun g r' hg => (hkey W g r' hg).1).symm
  · -- the folder of another workspace yields to an owner grant at the same path
    obtain ⟨g, r', hg, hyield⟩ := h f r hW hf
    obtain ⟨habove, hrole⟩ := hkey W g r' hg
    have hpath : g.path = f.path ∧ r' = .owner := by
      by_contra hne
      exact hyield ⟨habove, fun hpath howner => hne ⟨hpath, howner⟩⟩
    have howner : r = .owner := by
      have := hrole hpath.1
      rw [hpath.2] at this
      cases r <;> first | rfl | exact absurd this (by decide)
    have hnearest := nearest_of_deepest hg fun g' r'' hg' => hpath.1 ▸ (hkey W g' r'' hg').1
    rw [hnearest, hpath.2, howner]

/-- **Without a shadow, an object's role is the documented one.** -/
theorem effective_eq_documented (hp : placement db obj = some p)
    (h : (∃ wsRole, memberRole db user p.workspaceId = some wsRole ∧ wsRole < .admin) →
      (∀ target ∈ p.targets, grantOn db user.userId target = none) → ∀ home, p.home = some home →
      ∀ f r, f.workspaceId ≠ p.workspaceId → GrantedAbove db f.workspaceId user.userId home f r →
      ∃ g r', GrantedAbove db p.workspaceId user.userId home g r' ∧
        ¬ (g.path.slugs <+: f.path.slugs ∧ (g.path = f.path → r' ≠ .owner))) :
    effectiveObjectRole db user obj = documentedRole db user obj := by
  rw [effectiveObjectRole_eq hp, documentedRole_eq hp]
  cases hmember : memberRole db user p.workspaceId with
  | none => rfl
  | some wsRole =>
    show decideRole _ _ _ = decideRole _ _ _
    by_cases hadmin : wsRole ≥ .admin
    · rw [decideRole, decideRole, if_pos hadmin, if_pos hadmin]
    congr 1
    unfold tierGrant specificGrant
    cases htargets : p.targets.findSome? (grantOn db user.userId) with
    | some r => rfl
    | none =>
      rw [Option.none_or, Option.none_or]
      have hnone := List.findSome?_eq_none_iff.mp htargets
      cases hhome : p.home with
      | none => rw [Placement.chain, hhome]; rfl
      | some home =>
        rw [Placement.chain, hhome]
        exact folderTier_eq_nearest
          (h ⟨wsRole, hmember, lt_of_not_ge hadmin⟩ hnone home hhome)

theorem effective_eq_documented_of_not_shadowed (hp : placement db obj = some p)
    (h : ¬ Shadowed db user p) : effectiveObjectRole db user obj = documentedRole db user obj := by
  refine effective_eq_documented hp fun hmember htargets home hhome f r hW hf => ?_
  by_contra hno
  push Not at hno
  exact h ⟨hmember, htargets, home, hhome, f, hf.1, hW, hf.2.2.1, fun g r' hg => hno g r' hg⟩

/-! ## Grants on objects of other workspaces -/

variable {db' : Database}

theorem folder_notMem_targets (hp : placement db obj = some p) (id : Grants.Uuid) :
    (ObjectKind.folder, id) ∉ p.targets := by
  have hown : ∀ x ∈ p.own, x.1 ≠ .folder := by
    obtain ⟨kind, oid⟩ := obj
    cases kind with
    | folder =>
      obtain ⟨f, _, rfl⟩ := Option.map_eq_some_iff.mp hp
      exact fun _ hx => by cases hx
    | template =>
      obtain ⟨t, _, rfl⟩ := Option.map_eq_some_iff.mp hp
      exact fun x hx => by obtain rfl := Option.some.inj hx; exact ObjectKind.noConfusion
    | «instance» =>
      obtain ⟨i, _, hp⟩ := Option.bind_eq_some_iff.mp hp
      obtain ⟨t, _, rfl⟩ := Option.map_eq_some_iff.mp hp
      exact fun x hx => by obtain rfl := Option.some.inj hx; exact ObjectKind.noConfusion
    | resource =>
      obtain ⟨r, _, rfl⟩ := Option.map_eq_some_iff.mp hp
      intro x hx
      split at hx
      all_goals
        cases hx
        exact ObjectKind.noConfusion
    | asset =>
      obtain ⟨a, _, hp⟩ := Option.bind_eq_some_iff.mp hp
      obtain ⟨scope, _, rfl⟩ := Option.map_eq_some_iff.mp hp
      exact fun x hx => by obtain rfl := Option.some.inj hx; exact ObjectKind.noConfusion
  rw [Placement.targets, List.mem_append, not_or]
  constructor
  · intro hmem
    exact hown _ (Option.mem_toList.mp hmem) rfl
  · intro hmem
    obtain ⟨base, _, hbase⟩ := List.mem_map.mp hmem
    cases hbase

theorem not_elsewhere_of_folder (hf : f ∈ db.folders.toList)
    (hW : f.workspaceId = p.workspaceId) : ¬ Elsewhere db p (.folder, f.id) := by
  rintro ⟨_, q, hq, hne⟩
  obtain ⟨f', hf', rfl⟩ := Option.map_eq_some_iff.mp hq
  rw [KeyedList.get?_of_mem hf] at hf'
  cases hf'
  exact hne hW

theorem elsewhere_of_folder (hp : placement db obj = some p) (hf : f ∈ db.folders.toList)
    (hW : f.workspaceId ≠ p.workspaceId) : Elsewhere db p (.folder, f.id) := by
  refine ⟨folder_notMem_targets hp f.id, ?_⟩
  refine ⟨⟨f.workspaceId, none, none, some f.path, f.restricted⟩, ?_, hW⟩
  show (db.folders.get? f.id).map _ = _
  rw [KeyedList.get?_of_mem hf]
  rfl

namespace SameButElsewhere

variable (h : SameButElsewhere db db' p)
include h

theorem placement_eq (obj : ObjectRef) : placement db' obj = placement db obj := by
  simp only [placement, scopePlacement, templateHome, h.folders, h.templates, h.templateFolders,
    h.instances, h.resources, h.assets]

theorem chain_eq (W : Grants.Uuid) (home : FolderPath) : chain db' W home = chain db W home := by
  simp only [chain, folderAt, h.folders]

theorem memberRole_eq (W : Grants.Uuid) : memberRole db' user W = memberRole db user W := by
  simp only [memberRole, h.members]

theorem grantOn_target {target : ObjectKind × Grants.Uuid} (ht : target ∈ p.targets) (uid : Grants.Uuid) :
    grantOn db' uid target = grantOn db uid target :=
  h.grants target uid fun helse => helse.1 ht

theorem grantedAbove_iff (uid : Grants.Uuid) (home : FolderPath) (g : Folder) (r : Role) :
    GrantedAbove db' p.workspaceId uid home g r ↔ GrantedAbove db p.workspaceId uid home g r := by
  unfold GrantedAbove
  rw [h.folders]
  constructor
  all_goals
    rintro ⟨hg, hW, hunder, hgrant⟩
    have := h.grants (.folder, g.id) uid (not_elsewhere_of_folder hg hW)
    refine ⟨hg, hW, hunder, ?_⟩
    first
    | rw [← this]; exact hgrant
    | rw [this]; exact hgrant

theorem isRestricted_eq : p.isRestricted db' = p.isRestricted db := by
  unfold Placement.isRestricted Placement.chain
  cases p.home with
  | none => rfl
  | some home => rw [Option.elim_some, Option.elim_some, h.chain_eq]

theorem specificGrant_eq (uid : Grants.Uuid) : specificGrant db' uid p = specificGrant db uid p := by
  have htargets : p.targets.findSome? (grantOn db' uid) = p.targets.findSome? (grantOn db uid) :=
    findSome?_congr fun target ht => h.grantOn_target ht uid
  rw [specificGrant, specificGrant, htargets]
  congr 1
  unfold Placement.chain
  cases p.home with
  | none => rfl
  | some home =>
    rw [Option.elim_some, Option.elim_some, h.chain_eq]
    refine findSome?_congr fun f hf => ?_
    obtain ⟨hmem, hW, _⟩ := mem_chain.mp hf
    exact h.grants (.folder, f.id) uid (not_elsewhere_of_folder hmem hW)

theorem documentedRole_eq (hp : placement db obj = some p) :
    documentedRole db' user obj = documentedRole db user obj := by
  rw [ObjectAccess.documentedRole_eq hp, ObjectAccess.documentedRole_eq (h.placement_eq obj ▸ hp),
    h.memberRole_eq, h.isRestricted_eq, h.specificGrant_eq]

theorem shadowed_iff : Shadowed db' user p ↔ Shadowed db user p := by
  unfold Shadowed ShadowedBy
  rw [h.memberRole_eq, h.folders]
  refine and_congr_right' (and_congr (forall₂_congr fun target ht => ?_) ?_)
  · rw [h.grantOn_target ht]
  · refine exists_congr fun home => and_congr_right' (exists_congr fun f => ?_)
    simp only [h.grantedAbove_iff]

end SameButElsewhere

/-! ## A shadow shows -/

/-- The grants of the database but for those on folders of other workspaces. -/
def withoutForeign (db : Database) (W : Grants.Uuid) : KeyedList Grant.key :=
  db.grants.retain fun g =>
    !(g.objectType == .folder && (db.folders.get? g.objectId).any (·.workspaceId != W))

/-- The database with other grants on folders of other workspaces: none, and then perhaps one. -/
def regrant (db : Database) (W uid : Grants.Uuid) (extra : Option (Folder × Role)) : Database :=
  { db with
    grants := extra.elim (withoutForeign db W) fun (f, r) =>
      (withoutForeign db W).insert ⟨.folder, f.id, uid, r⟩
    grantIds := by
      have hkept : ∀ g ∈ (withoutForeign db W).toList, g.objectType = .template →
          g.objectId ≠ Grants.Uuid.nil := fun g hg => db.grantIds g (List.mem_filter.mp hg).1
      cases extra with
      | none => exact hkept
      | some fr =>
        intro g hg htemplate
        rcases List.mem_append.mp hg with hg | hg
        · exact hkept g (List.mem_filter.mp hg).1 htemplate
        · obtain rfl := List.mem_singleton.mp hg
          cases htemplate }

theorem grantOn_withoutForeign (target : ObjectKind × Grants.Uuid) {r : Role}
    (h : ((withoutForeign db W).get? (target.1, target.2, uid)).map (·.role) = some r) :
    grantOn db uid target = some r ∧
      ∀ f ∈ db.folders.toList, target = (.folder, f.id) → f.workspaceId = W := by
  obtain ⟨g, hg, rfl⟩ := Option.map_eq_some_iff.mp h
  obtain ⟨hget, hkept⟩ := KeyedList.get?_of_get?_retain hg
  have hkey : g.key = (target.1, target.2, uid) := KeyedList.key_of_get? hget
  simp only [Grant.key, Prod.mk.injEq] at hkey
  refine ⟨by rw [grantOn, hget]; rfl, ?_⟩
  rintro f hf rfl
  rw [hkey.1, hkey.2.1, KeyedList.get?_of_mem hf] at hkept
  simpa using hkept

theorem withoutForeign_of_not_elsewhere {target : ObjectKind × Grants.Uuid} (hp : placement db obj = some p)
    (h : ¬ Elsewhere db p target) :
    ((withoutForeign db p.workspaceId).get? (target.1, target.2, uid)).map (·.role) =
      grantOn db uid target := by
  cases hgrant : grantOn db uid target with
  | none =>
    refine Option.eq_none_iff_forall_ne_some.mpr fun r hr => ?_
    rw [(grantOn_withoutForeign target hr).1] at hgrant
    cases hgrant
  | some r =>
    obtain ⟨g, hg, rfl⟩ := Option.map_eq_some_iff.mp hgrant
    have hkey : g.key = (target.1, target.2, uid) := KeyedList.key_of_get? hg
    simp only [Grant.key, Prod.mk.injEq] at hkey
    rw [withoutForeign, KeyedList.get?_retain_of hg]
    · rfl
    · rw [hkey.1, hkey.2.1]
      by_contra hforeign
      simp only [Bool.not_eq_true, Bool.not_eq_false', Bool.and_eq_true, beq_iff_eq, Option.any_eq_true,
        bne_iff_ne] at hforeign
      obtain ⟨hfolder, f, hf, hne⟩ := hforeign
      refine h ?_
      have := elsewhere_of_folder hp (KeyedList.mem_of_get? hf) hne
      rwa [KeyedList.key_of_get? hf, ← hfolder] at this

theorem sameButElsewhere_regrant (hp : placement db obj = some p) (uid : Grants.Uuid)
    (extra : Option (Folder × Role))
    (hextra : ∀ fr ∈ extra, fr.1 ∈ db.folders.toList ∧ fr.1.workspaceId ≠ p.workspaceId) :
    SameButElsewhere db (regrant db p.workspaceId uid extra) p where
  folders := rfl
  templates := rfl
  templateFolders := rfl
  instances := rfl
  resources := rfl
  assets := rfl
  members := rfl
  grants := by
    intro target uid' htarget
    cases extra with
    | none => exact withoutForeign_of_not_elsewhere hp htarget
    | some fr =>
      obtain ⟨hf, hne⟩ := hextra fr rfl
      show (((withoutForeign db p.workspaceId).insert _).get? _).map _ = _
      rw [KeyedList.get?_insert, if_neg, withoutForeign_of_not_elsewhere hp htarget]
      intro hkey
      simp only [Grant.key, Prod.mk.injEq] at hkey
      refine htarget ?_
      have := elsewhere_of_folder hp hf hne
      rwa [← hkey.1, ← hkey.2.1] at this

theorem decideRole_ne {wsRole : Role} {b : Bool} {o : Option Role} (hws : wsRole < .admin)
    (hnone : o = none → x = .owner) (hsome : ∀ r, o = some r → x ≠ r ∧ (x = .owner ∨ r = .owner)) :
    decideRole wsRole b (some x) ≠ decideRole wsRole b o := by
  have hadmin : ¬ wsRole ≥ .admin := not_le_of_gt hws
  rw [decideRole, decideRole, if_neg hadmin, if_neg hadmin]
  have hmax : ∀ r : Role, max wsRole r = .owner ↔ r = .owner := by
    intro r
    cases wsRole <;> cases r <;> first | decide | exact absurd hws (by decide)
  cases o with
  | none =>
    obtain rfl := hnone rfl
    cases b with
    | true => simp
    | false =>
      intro heq
      have heq : max wsRole .owner = wsRole := by simpa using heq
      rw [(hmax .owner).mpr rfl] at heq
      exact absurd (heq ▸ hws) (by decide)
  | some r =>
    obtain ⟨hne, howner⟩ := hsome r rfl
    cases b with
    | true => simpa using hne
    | false =>
      intro heq
      have heq : max wsRole x = max wsRole r := by simpa using heq
      rcases howner with rfl | rfl
      · exact hne ((hmax r).mp (heq ▸ (hmax .owner).mpr rfl)).symm
      · exact hne ((hmax x).mp (heq.trans ((hmax .owner).mpr rfl)))

theorem folderTier_regrant (hf : ShadowedBy db W uid home f)
    (hx : ∀ g r, GrantedAbove db W uid home g r → g.path = f.path → r ≤ x) :
    mostSpecific (folderTier (regrant db W uid (some (f, x))) uid (some home)) = some x := by
  obtain ⟨hmem, hne, hunder, hyield⟩ := hf
  have hgranted : GrantedAbove (regrant db W uid (some (f, x))) f.workspaceId uid home f x := by
    refine ⟨hmem, rfl, hunder, ?_⟩
    show (((withoutForeign db W).insert ⟨.folder, f.id, uid, x⟩).get?
      (Grant.key ⟨.folder, f.id, uid, x⟩)).map (·.role) = some x
    rw [KeyedList.get?_insert, if_pos rfl]
    rfl
  refine mostSpecific_of_max (t := ⟨x, 2, f.path.depth⟩) (mem_folderTier.mpr ⟨f, x, hgranted, rfl⟩) ?_
  intro t ht
  obtain ⟨g, r, ⟨hg, _, hgunder, hgrant⟩, rfl⟩ := mem_folderTier.mp ht
  have hgrant : (((withoutForeign db W).insert ⟨.folder, f.id, uid, x⟩).get?
      (.folder, g.id, uid)).map (·.role) = some r := hgrant
  rw [KeyedList.get?_insert] at hgrant
  split at hgrant
  · next hkey =>
    simp only [Grant.key, Prod.mk.injEq, true_and, and_true] at hkey
    have hgf : g = f := by
      have h₁ := KeyedList.get?_of_mem hg
      rw [hkey] at h₁
      have h₂ : db.folders.get? f.id = some g := h₁
      rw [KeyedList.get?_of_mem hmem] at h₂
      exact (Option.some.inj h₂).symm
    cases hgrant
    rw [hgf]
  · obtain ⟨hgrant, hown⟩ := grantOn_withoutForeign (ObjectKind.folder, g.id) hgrant
    have hgabove : GrantedAbove db W uid home g r := ⟨hg, hown g hg rfl, hgunder, hgrant⟩
    obtain ⟨habove, _⟩ := hyield g r hgabove
    refine key_le_iff.mpr (Or.inr ⟨rfl, ?_⟩)
    rcases Nat.lt_or_eq_of_le ((depth_le_iff hgunder hunder).mpr habove) with hlt | heq
    · exact Or.inl hlt
    · exact Or.inr ⟨heq, hx g r hgabove (eq_of_depth_eq hgunder hunder heq)⟩

/-- **Where a folder of another workspace shadows an object, a grant on it changes the role.** -/
theorem exists_change_of_shadowed (hp : placement db obj = some p) (h : Shadowed db user p) :
    ∃ db', SameButElsewhere db db' p ∧
      effectiveObjectRole db' user obj ≠ effectiveObjectRole db user obj := by
  obtain ⟨⟨wsRole, hmember, hws⟩, htargets, home, hhome, f, hf⟩ := h
  by_contra hno
  push Not at hno
  -- without any grant in other workspaces the role is the documented one
  have hsame₀ := sameButElsewhere_regrant hp user.userId none fun _ h => by cases h
  have hdocumented : effectiveObjectRole db user obj = documentedRole db user obj := by
    rw [← hno _ hsame₀, ← hsame₀.documentedRole_eq hp]
    refine effective_eq_documented (hsame₀.placement_eq obj ▸ hp) fun _ _ home' _ g r hg hgabove => ?_
    exact absurd ((grantOn_withoutForeign (ObjectKind.folder, g.id) hgabove.2.2.2).2 g hgabove.1 rfl) hg
  -- one more grant, of a role that tells
  let nearest := (chain db p.workspaceId home).findSome? fun g => grantOn db user.userId (.folder, g.id)
  let x : Role := if nearest = some .owner then .viewer else .owner
  have hx : ∀ g r, GrantedAbove db p.workspaceId user.userId home g r → g.path = f.path → r ≤ x := by
    intro g r hg hpath
    have hnearest : nearest = some r := nearest_of_deepest hg fun g' r' hg' => by
      rw [hpath]
      exact (hf.2.2.2 g' r' hg').1
    have hr : ¬ nearest = some .owner := by
      rw [hnearest]
      exact fun heq => (hf.2.2.2 g r hg).2 hpath (Option.some.inj heq)
    show r ≤ if nearest = some .owner then Role.viewer else Role.owner
    rw [if_neg hr]
    cases r <;> decide
  have hsame₁ := sameButElsewhere_regrant hp user.userId (some (f, x))
    fun fr hfr => by obtain rfl := Option.some.inj hfr; exact ⟨hf.1, hf.2.1⟩
  have hp₁ : placement (regrant db p.workspaceId user.userId (some (f, x))) obj = some p :=
    hsame₁.placement_eq obj ▸ hp
  have hchanged := hno _ hsame₁
  rw [hdocumented, effectiveObjectRole_eq hp₁, documentedRole_eq hp, hsame₁.memberRole_eq,
    hsame₁.isRestricted_eq, hmember, Option.bind_some, Option.bind_some] at hchanged
  have hnone : p.targets.findSome? (grantOn db user.userId) = none :=
    List.findSome?_eq_none_iff.mpr htargets
  have htier : tierGrant (regrant db p.workspaceId user.userId (some (f, x))) user.userId p = some x := by
    rw [tierGrant, findSome?_congr fun target ht => hsame₁.grantOn_target ht user.userId, hnone, hhome,
      Option.none_or, folderTier_regrant hf hx]
  have hspecific : specificGrant db user.userId p = nearest := by
    rw [specificGrant, hnone, Option.none_or, Placement.chain, hhome]
    rfl
  rw [htier, hspecific] at hchanged
  refine decideRole_ne hws (fun hnear => ?_) (fun r hnear => ?_) hchanged
  · exact if_neg (by rw [hnear]; exact fun h => by cases h)
  · by_cases hr : r = .owner
    · subst hr
      rw [show x = .viewer from if_pos hnear]
      exact ⟨by decide, Or.inr rfl⟩
    · rw [show x = .owner from if_neg (by rw [hnear]; exact fun h => hr (Option.some.inj h))]
      exact ⟨fun h => hr h.symm, Or.inl rfl⟩

/-! ## A list of objects -/

variable {ids : List Grants.Uuid}

theorem lookup_insertRows_aux (h : id ∉ rows.map (·.1)) :
    (rows.foldl (fun out row => row.2.elim out fun r => out.insert row.1 r) out).lookup id =
      out.lookup id := by
  induction rows generalizing out with
  | nil => rfl
  | cons row rows ih =>
    rw [List.map_cons, List.mem_cons, not_or] at h
    rw [List.foldl_cons, ih h.2]
    cases row.2 with
    | none => rfl
    | some r => exact Finmap.lookup_insert_of_ne _ h.1

theorem lookup_insertRows_of_notMem
    (h : id ∉ rows.map (·.1)) : (insertRows rows).lookup id = none := lookup_insertRows_aux h

theorem lookup_insertRows (hnodup : (rows.map (·.1)).Nodup)
    {row : Grants.Uuid × Option Role} (h : row ∈ rows) : (insertRows rows).lookup row.1 = row.2 := by
  obtain ⟨l, l', rfl⟩ := List.append_of_mem h
  rw [List.map_append, List.nodup_append, List.map_cons] at hnodup
  obtain ⟨_, hafter, hbefore⟩ := hnodup
  have hnotBefore : row.1 ∉ l.map (·.1) := fun hmem =>
    hbefore row.1 hmem row.1 List.mem_cons_self rfl
  rw [insertRows, List.foldl_append, List.foldl_cons, lookup_insertRows_aux (List.nodup_cons.mp hafter).1]
  cases row.2 with
  | none => exact lookup_insertRows_aux hnotBefore
  | some r => exact Finmap.lookup_insert _

theorem nodup_filter_ids {α : Type} {key : α → Grants.Uuid} (m : KeyedList key) (p : α → Bool) :
    ((m.toList.filter p).map key).Nodup := m.nodup.sublist (List.filter_sublist.map key)

theorem candIds_sublist (db : Database) (kind : ObjectKind) (ids : List Grants.Uuid) :
    ∃ l : List Grants.Uuid, ((ctxRows db kind ids).map (·.candId)).Sublist l ∧ l.Nodup ∧ ∀ id ∈ l, id ∈ ids := by
  have hmem : ∀ {α : Type} {key : α → Grants.Uuid} (m : KeyedList key),
      ∀ id ∈ (m.toList.filter fun a => key a ∈ ids).map key, id ∈ ids := by
    intro α key m id hid
    obtain ⟨a, ha, rfl⟩ := List.mem_map.mp hid
    simpa using (List.mem_filter.mp ha).2
  cases kind with
  | folder =>
    refine ⟨_, ?_, nodup_filter_ids db.folders fun f => f.id ∈ ids, hmem db.folders⟩
    rw [ctxRows, List.map_map]
    exact List.Sublist.refl _
  | template =>
    refine ⟨_, ?_, nodup_filter_ids db.templates fun t => t.id ∈ ids, hmem db.templates⟩
    rw [ctxRows, List.map_map]
    exact List.Sublist.refl _
  | «instance» =>
    refine ⟨_, ?_, nodup_filter_ids db.instances fun i => i.id ∈ ids, hmem db.instances⟩
    -- an instance without its template has no row
    rw [ctxRows]
    generalize db.instances.toList.filter (fun i => i.id ∈ ids) = l
    induction l with
    | nil => exact List.Sublist.refl _
    | cons i l ih =>
      cases ht : db.templates.get? i.templateId with
      | none =>
        rw [List.filterMap_cons_none (by rw [ht]; rfl)]
        exact ih.cons _
      | some t =>
        rw [List.filterMap_cons_some (by rw [ht]; rfl)]
        exact ih.cons_cons _
  | resource =>
    refine ⟨_, ?_, nodup_filter_ids db.resources fun r => r.id ∈ ids, hmem db.resources⟩
    rw [ctxRows, List.map_map, show (CtxRow.candId ∘ fun r : Resource =>
      scopeRow db r.id r.scopeKind r.scopeId r.restricted) = Resource.id from funext fun r => by
        show (scopeRow db r.id r.scopeKind r.scopeId r.restricted).candId = r.id
        cases r.scopeKind <;> rfl]
  | asset =>
    refine ⟨_, ?_, nodup_filter_ids db.assets fun a => a.id ∈ ids, hmem db.assets⟩
    rw [ctxRows, List.map_map, show (CtxRow.candId ∘ fun a : Asset =>
      scopeRow db a.id a.scopeKind (some a.scopeId) a.restricted) = Asset.id from funext fun a => by
        show (scopeRow db a.id a.scopeKind (some a.scopeId) a.restricted).candId = a.id
        cases a.scopeKind <;> rfl]

/-- A row of the query that describes the object. -/
structure RowOf (db : Database) (obj : ObjectRef) (p : Placement) (ctx : CtxRow) : Prop where
  candId : ctx.candId = obj.id
  restricted : rowRestricted db p.workspaceId ctx = p.isRestricted db
  best : ∀ uid, bestOfRow db obj.kind uid ctx = tierGrant db uid p

theorem rowRestricted_eq (p : Placement) {ctx : CtxRow} (hhome : ctx.homePath = p.home)
    (hself : ctx.selfRestricted = p.restricted) : rowRestricted db p.workspaceId ctx = p.isRestricted db := by
  rw [rowRestricted, hself, hhome, Placement.isRestricted, Placement.chain]
  cases p.home with
  | none => rfl
  | some home =>
    rw [Option.elim_some, Option.elim_some, restrictedFolder_eq]

theorem objectTier?_eq (kind : ObjectKind) (rank : Nat) (id : Option Grants.Uuid) (uid : Grants.Uuid) :
    objectTier? db kind rank id uid =
      (id.bind fun id => grantOn db uid (kind, id)).toList.map (⟨·, rank, 0⟩) := by
  cases id with
  | none => rfl
  | some id => exact objectTier_eq kind rank id uid

theorem bestOfRow_of_self {ctx : CtxRow}
    (hkind : kind = .instance ∨ kind = .resource ∨ kind = .asset) (uid : Grants.Uuid) :
    bestOfRow db kind uid ctx = (grantOn db uid (kind, ctx.candId)).or
      ((ctx.baseId.bind fun base => grantOn db uid (.template, base)).or
        (mostSpecific (folderTier db uid ctx.homePath))) := by
  have hbest : bestOfRow db kind uid ctx = mostSpecific (objectTier db kind 4 ctx.candId uid ++
      (objectTier? db .template 3 ctx.baseId uid ++ folderTier db uid ctx.homePath)) := by
    rcases hkind with rfl | rfl | rfl <;> rfl
  rw [hbest, objectTier_eq, objectTier?_eq, mostSpecific_tiers]

theorem scopeRow_eq (candId : Grants.Uuid) (k : ScopeKind) (scopeId : Grants.Uuid) (restricted : Bool) :
    scopeRow db candId k (some scopeId) restricted = match scopePlacement db k scopeId with
      | none => ⟨candId, none, none, restricted⟩
      | some (_, template, home) => ⟨candId, template, home, restricted⟩ := by
  cases k with
  | platform => rfl
  | workspace => rfl
  | folder =>
    rw [scopeRow, scopePlacement, Option.bind_some]
    cases db.folders.get? scopeId with
    | none => rfl
    | some f => rfl
  | template =>
    rw [scopeRow, scopePlacement, Option.bind_some]
    cases db.templates.get? scopeId with
    | none => rfl
    | some t => rfl

theorem rowOf_scope {W : Grants.Uuid} {home : Option FolderPath}
    {r : Bool} (hkind : kind = .instance ∨ kind = .resource ∨ kind = .asset) :
    RowOf db ⟨kind, id⟩ ⟨W, some (kind, id), template, home, r⟩ ⟨id, template, home, r⟩ where
  candId := rfl
  restricted := rowRestricted_eq _ rfl rfl
  best uid := by rw [bestOfRow_of_self hkind, tierGrant_of_self]

theorem exists_rowOf (hp : placement db obj = some p) (hid : obj.id ∈ ids) :
    ∃ ctx ∈ ctxRows db obj.kind ids, RowOf db obj p ctx := by
  obtain ⟨kind, id⟩ := obj
  cases kind with
  | folder =>
    obtain ⟨f, hf, rfl⟩ := Option.map_eq_some_iff.mp hp
    obtain rfl := KeyedList.key_of_get? hf
    refine ⟨_, List.mem_map_of_mem (List.mem_filter.mpr ⟨KeyedList.mem_of_get? hf, by simpa using hid⟩),
      rfl, rowRestricted_eq _ rfl rfl, fun uid => rfl⟩
  | template =>
    obtain ⟨t, ht, rfl⟩ := Option.map_eq_some_iff.mp hp
    obtain rfl := KeyedList.key_of_get? ht
    refine ⟨_, List.mem_map_of_mem (List.mem_filter.mpr ⟨KeyedList.mem_of_get? ht, by simpa using hid⟩),
      rfl, rowRestricted_eq _ rfl rfl, fun uid => ?_⟩
    show mostSpecific (objectTier db .template 3 t.baseId uid ++ _) = _
    rw [objectTier_eq, mostSpecific_lead _ fun x hx => by rw [sourceRank_folderTier hx]; omega]
    unfold tierGrant Placement.targets
    cases h : grantOn db uid (.template, t.baseId) <;> simp [h]
  | «instance» =>
    obtain ⟨i, hi, hp⟩ := Option.bind_eq_some_iff.mp hp
    obtain ⟨t, ht, rfl⟩ := Option.map_eq_some_iff.mp hp
    obtain rfl := KeyedList.key_of_get? hi
    refine ⟨_, List.mem_filterMap.mpr ⟨i, List.mem_filter.mpr
      ⟨KeyedList.mem_of_get? hi, by simpa using hid⟩, ?_⟩, rowOf_scope (Or.inl rfl)⟩
    rw [ht]
    rfl
  | resource =>
    obtain ⟨r, hr, rfl⟩ := Option.map_eq_some_iff.mp hp
    obtain rfl := KeyedList.key_of_get? hr
    refine ⟨_, List.mem_map_of_mem (List.mem_filter.mpr ⟨KeyedList.mem_of_get? hr, by simpa using hid⟩), ?_⟩
    -- only a resource of a folder or a template has a scope to look up, and then it has a scope id
    have hrow : scopeRow db r.id r.scopeKind r.scopeId r.restricted =
        scopeRow db r.id r.scopeKind (some (r.scopeId.getD r.workspaceId)) r.restricted := by
      have hscope := db.scopeIds r (KeyedList.mem_of_get? hr)
      cases hs : r.scopeId with
      | some sid => rfl
      | none =>
        cases hk : r.scopeKind with
        | platform => rfl
        | workspace => rfl
        | folder => exact absurd hs (hscope (Or.inl hk))
        | template => exact absurd hs (hscope (Or.inr hk))
    rw [hrow, scopeRow_eq]
    cases scopePlacement db r.scopeKind (r.scopeId.getD r.workspaceId) with
    | none => exact rowOf_scope (Or.inr (Or.inl rfl))
    | some scope => exact rowOf_scope (Or.inr (Or.inl rfl))
  | asset =>
    obtain ⟨a, ha, hp⟩ := Option.bind_eq_some_iff.mp hp
    obtain ⟨scope, hscope, rfl⟩ := Option.map_eq_some_iff.mp hp
    obtain rfl := KeyedList.key_of_get? ha
    refine ⟨_, List.mem_map_of_mem (List.mem_filter.mpr ⟨KeyedList.mem_of_get? ha, by simpa using hid⟩), ?_⟩
    rw [scopeRow_eq, hscope]
    exact rowOf_scope (Or.inr (Or.inr rfl))

theorem lookup_foldl_insert (ids : List Grants.Uuid) :
    (ids.foldl (fun out id => out.insert id r) out).lookup id =
      if id ∈ ids then some r else out.lookup id := by
  induction ids generalizing out with
  | nil => rfl
  | cons i ids ih =>
    rw [List.foldl_cons, ih]
    by_cases hmem : id ∈ ids
    · rw [if_pos hmem, if_pos (List.mem_cons_of_mem _ hmem)]
    · rw [if_neg hmem]
      by_cases hi : id = i
      · rw [hi, Finmap.lookup_insert, if_pos List.mem_cons_self]
      · rw [Finmap.lookup_insert_of_ne _ hi, if_neg (by simp [hi, hmem])]

/-- **The list resolver gives each object of the list the role of the single one, and nothing else.** -/
theorem effectiveObjectRoles_eq (hp : placement db obj = some p) (ids : List Grants.Uuid) :
    (effectiveObjectRoles db user obj.kind p.workspaceId ids).lookup obj.id =
      if obj.id ∈ ids then effectiveObjectRole db user obj else none := by
  rw [effectiveObjectRole_eq hp, effectiveObjectRoles]
  by_cases hempty : ids = []
  · rw [if_pos hempty, hempty]
    rfl
  rw [if_neg hempty]
  cases memberRole db user p.workspaceId with
  | none => rw [Option.bind_none, ite_self]; rfl
  | some wsRole =>
    rw [Option.bind_some, decideRole]
    show (if wsRole ≥ .admin then _ else _ : MapOf Grants.Uuid Role).lookup obj.id = _
    by_cases hadmin : wsRole ≥ .admin
    · rw [if_pos hadmin, if_pos hadmin, lookup_foldl_insert]
      rfl
    rw [if_neg hadmin, if_neg hadmin]
    obtain ⟨l, hsub, hnodup, hl⟩ := candIds_sublist db obj.kind ids
    have hkeys : ((ctxRows db obj.kind ids).map fun ctx =>
        (ctx.candId, rowRole db obj.kind user p.workspaceId wsRole ctx)).map (·.1) =
        (ctxRows db obj.kind ids).map (·.candId) := by
      rw [List.map_map]
      rfl
    by_cases hid : obj.id ∈ ids
    · obtain ⟨ctx, hctx, hrow⟩ := exists_rowOf hp hid
      have := lookup_insertRows (hkeys ▸ hnodup.sublist hsub) (List.mem_map_of_mem hctx)
      rw [if_pos hid, ← hrow.candId, this]
      show rowRole db obj.kind user p.workspaceId wsRole ctx = _
      rw [rowRole, hrow.restricted, hrow.best]
      cases tierGrant db user.userId p with
      | none => rfl
      | some r =>
        show (if p.isRestricted db then some r else some (max r wsRole)) = _
        rw [max_comm]
        rfl
    · rw [if_neg hid]
      refine lookup_insertRows_of_notMem ?_
      rw [hkeys]
      exact fun hmem => hid (hl _ (hsub.subset hmem))

/-! ## The rule -/

/-- **Both resolvers follow the documented rule, and grants in other workspaces change nothing, exactly when
no folder of another workspace shadows the object.** -/
theorem object_access_iff (hp : placement db obj = some p) :
    (effectiveObjectRole db user obj = documentedRole db user obj ∧ (∀ db', SameButElsewhere db db' p →
        effectiveObjectRole db' user obj = effectiveObjectRole db user obj) ∧
      ∀ ids, (effectiveObjectRoles db user obj.kind p.workspaceId ids).lookup obj.id =
        if obj.id ∈ ids then documentedRole db user obj else none) ↔ ¬ Shadowed db user p := by
  constructor
  · rintro ⟨_, hsame, _⟩ hshadowed
    obtain ⟨db', hdb', hne⟩ := exists_change_of_shadowed hp hshadowed
    exact hne (hsame db' hdb')
  · intro hshadowed
    have hrule := effective_eq_documented_of_not_shadowed hp hshadowed
    refine ⟨hrule, ?_, ?_⟩
    · intro db' hsame
      have hp' : placement db' obj = some p := hsame.placement_eq obj ▸ hp
      rw [effective_eq_documented_of_not_shadowed hp' (fun h => hshadowed (hsame.shadowed_iff.mp h)),
        hsame.documentedRole_eq hp, hrule]
    · intro ids
      rw [effectiveObjectRoles_eq hp, hrule]

/-- `/` and one slug of one letter. -/
def letterPath (c : Char) (h : validateSlug [c] = true) : FolderPath := ⟨[⟨[c], h⟩], List.cons_ne_nil _ _⟩

/-- Workspaces 1 and 2 have a folder `/a`, workspace 1 has a folder `/b`. A viewer of both owns `/a` of
workspace 2. -/
def twoTenants : Database where
  folders := ⟨[⟨1, 1, letterPath 'a' rfl, false⟩, ⟨2, 2, letterPath 'a' rfl, false⟩,
    ⟨3, 1, letterPath 'b' rfl, false⟩], by decide⟩
  templates := .empty
  templateFolders := .empty
  instances := .empty
  resources := .empty
  assets := .empty
  grants := ⟨[⟨.folder, 2, 7, .owner⟩], by decide⟩
  members := ⟨[⟨1, 7, .viewer⟩, ⟨2, 7, .viewer⟩], by decide⟩
  paths := by decide
  grantIds := by decide
  scopeIds := by decide

def tenant : AuthUser := ⟨7, false, some 1, none⟩

/-- The owner grant on `/a` of workspace 2 makes the viewer of workspace 1 an owner of its `/a`. -/
theorem foreign_grant_wins : effectiveObjectRole twoTenants tenant ⟨.folder, 1⟩ = some .owner ∧
      documentedRole twoTenants tenant ⟨.folder, 1⟩ = some .viewer := by
  decide

theorem object_access_iff_other_path :
    effectiveObjectRole twoTenants tenant ⟨.folder, 3⟩ = documentedRole twoTenants tenant ⟨.folder, 3⟩ ∧
      (∀ db', SameButElsewhere twoTenants db' ⟨1, none, none, some (letterPath 'b' rfl), false⟩ →
        effectiveObjectRole db' tenant ⟨.folder, 3⟩ = effectiveObjectRole twoTenants tenant ⟨.folder, 3⟩) ∧
      ∀ ids, (effectiveObjectRoles twoTenants tenant .folder 1 ids).lookup 3 =
        if 3 ∈ ids then documentedRole twoTenants tenant ⟨.folder, 3⟩ else none := by
  have hp : placement twoTenants ⟨.folder, 3⟩ =
    some ⟨1, none, none, some (letterPath 'b' rfl), false⟩ := rfl
  refine (object_access_iff hp).mpr ?_
  rintro ⟨_, _, home, hhome, f, hf, hne, hunder, _⟩
  cases hhome
  simp only [twoTenants, List.mem_cons, List.not_mem_nil, or_false] at hf
  rcases hf with rfl | rfl | rfl
  · exact hne rfl
  · exact absurd hunder (by decide)
  · exact hne rfl

end ObjectAccess

end Mekhan

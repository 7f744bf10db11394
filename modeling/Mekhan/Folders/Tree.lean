import Mekhan.Folders.Transactions

/-!
# The folder tree and a move in it

`Tree` is what the `path` column caches: each path is the parent's path, a slash and the slug, and says
which folder of a workspace it is. The parent links of a `Tree` have no cycle, for a parent's path is shorter.

A move gives one row a new place and swaps the prefix of the paths below its old one. `Tree.moved` says when
it leaves a tree: the new parent is neither the folder nor below it, and nobody else has the new path.
-/

namespace Mekhan

namespace Folders

open Infra

/-! ## Paths, character by character -/

/-- What `old || '/%'` matches. -/
def Below (old path : List Char) : Prop := ∃ r, path = old ++ '/' :: r

theorem below_trans {a b c : List Char} (hab : Below a b) (hbc : Below b c) : Below a c := by
  obtain ⟨r, rfl⟩ := hab
  obtain ⟨r', rfl⟩ := hbc
  exact ⟨r ++ '/' :: r', by rw [List.append_assoc, List.cons_append]⟩

variable {old p slug : List Char}

theorem Below.length_lt {path : List Char} (h : Below old path) : old.length < path.length := by
  obtain ⟨r, rfl⟩ := h
  rw [List.length_append, List.length_cons]
  omega

theorem below_childPath (p slug : List Char) : Below p (childPath p slug) := ⟨slug, rfl⟩

theorem childPath_ne_nil (p slug : List Char) : childPath p slug ≠ [] :=
  List.append_ne_nil_of_right_ne_nil p (List.cons_ne_nil _ _)

theorem slash_notMem (h : validateSlug slug = true) : '/' ∉ slug :=
  Slug.slash_notMem ⟨slug, h⟩

theorem childPath_inj {q s t : List Char} (hs : '/' ∉ s) (ht : '/' ∉ t)
    (h : childPath p s = childPath q t) : p = q ∧ s = t := by
  induction p generalizing q with
  | nil =>
    cases q with
    | nil => exact ⟨rfl, (List.cons.inj h).2⟩
    | cons y q =>
      have hs' : s = q ++ '/' :: t := (List.cons.inj h).2
      exact absurd (hs' ▸ List.mem_append_right q List.mem_cons_self) hs
  | cons x p ih =>
    cases q with
    | nil =>
      have ht' : t = p ++ '/' :: s := (List.cons.inj h).2.symm
      exact absurd (ht' ▸ List.mem_append_right p List.mem_cons_self) ht
    | cons y q =>
      obtain ⟨rfl, hrest⟩ := List.cons.inj h
      obtain ⟨rfl, rfl⟩ := ih hrest
      exact ⟨rfl, rfl⟩

/-- **What a child is below is its parent and what the parent is below.** -/
theorem below_childPath_iff (hslug : '/' ∉ slug) : Below old (childPath p slug) ↔ p = old ∨ Below old p := by
  constructor
  · rintro ⟨r, hr⟩
    induction old generalizing p with
    | nil =>
      cases p with
      | nil => exact Or.inl rfl
      | cons x p =>
        -- both paths start with the slash
        have hx : x = '/' := (List.cons.inj hr).1
        exact Or.inr ⟨p, by rw [hx]; rfl⟩
    | cons y old ih =>
      cases p with
      | nil =>
        have hmem : '/' ∈ slug := by
          rw [(List.cons.inj hr).2]
          exact List.mem_append_right old List.mem_cons_self
        exact absurd hmem hslug
      | cons x p =>
        obtain ⟨rfl, hrest⟩ := List.cons.inj hr
        rcases ih hrest with rfl | ⟨r', rfl⟩
        · exact Or.inl rfl
        · exact Or.inr ⟨r', rfl⟩
  · rintro (rfl | h)
    · exact below_childPath p slug
    · exact below_trans h (below_childPath p slug)

@[simp] theorem rebase_append (old new w : List Char) : rebase old new (old ++ w) = new ++ w := by
  rw [rebase, List.drop_left]

/-! ## The tree -/

/-- The path that the parent link of a folder of a workspace leads to. -/
def ParentPath (t : Table) (workspaceId : Id) : Option Id → List Char → Prop
  | none, pp => pp = []
  | some p, pp => ∃ q ∈ t.toList, q.id = p ∧ q.workspaceId = workspaceId ∧ q.path = pp

structure Tree (t : Table) : Prop where
  slug : ∀ r ∈ t.toList, validateSlug r.slug = true
  path : ∀ r ∈ t.toList, ∃ pp, ParentPath t r.workspaceId r.parentId pp ∧ r.path = childPath pp r.slug
  unique : ∀ r ∈ t.toList, ∀ r' ∈ t.toList, r.workspaceId = r'.workspaceId → r.path = r'.path → r.id = r'.id

def ParentOf (t : Table) (i p : Id) : Prop := ∃ r ∈ t.toList, r.id = i ∧ r.parentId = some p

theorem eq_of_id_eq {t : Table} {r r' : Row} (hr : r ∈ t.toList) (hr' : r' ∈ t.toList) (h : r.id = r'.id) :
    r = r' := List.inj_on_of_nodup_map t.nodup hr hr' h

namespace Tree

variable {t : Table} {r q cur : Row}

theorem empty : Tree (.empty : Table) :=
  ⟨fun _ hr => absurd hr List.not_mem_nil, fun _ hr => absurd hr List.not_mem_nil,
    fun _ hr => absurd hr List.not_mem_nil⟩

theorem path_ne_nil (h : Tree t) (hr : r ∈ t.toList) : r.path ≠ [] := by
  obtain ⟨pp, -, hpath⟩ := h.path r hr
  rw [hpath]
  exact childPath_ne_nil pp r.slug

theorem parent_path (h : Tree t) (hr : r ∈ t.toList) (hq : q ∈ t.toList) (hp : r.parentId = some q.id) :
    q.workspaceId = r.workspaceId ∧ r.path = childPath q.path r.slug := by
  obtain ⟨pp, hpp, hpath⟩ := h.path r hr
  rw [hp] at hpp
  obtain ⟨q', hq', hid, hws, rfl⟩ := hpp
  obtain rfl := eq_of_id_eq hq' hq hid
  exact ⟨hws, hpath⟩

/-- **Induction from the roots to the leaves.** -/
theorem rootward (h : Tree t) {P : Row → Prop}
    (root : ∀ r ∈ t.toList, r.parentId = none → r.path = childPath [] r.slug → P r)
    (child : ∀ r ∈ t.toList, ∀ q ∈ t.toList, r.parentId = some q.id → q.workspaceId = r.workspaceId →
      r.path = childPath q.path r.slug → P q → P r) : ∀ r ∈ t.toList, P r := by
  intro r hr
  -- on the length of the path, for that of the parent is a proper prefix
  induction hn : r.path.length using Nat.strong_induction_on generalizing r with
  | _ n ih =>
    obtain ⟨pp, hpp, hpath⟩ := h.path r hr
    cases hparent : r.parentId with
    | none =>
      rw [hparent] at hpp
      exact root r hr hparent (hpp ▸ hpath)
    | some p =>
      rw [hparent] at hpp
      obtain ⟨q, hq, rfl, hws, rfl⟩ := hpp
      have hlt : q.path.length < n := by
        rw [← hn, hpath]
        exact (below_childPath q.path r.slug).length_lt
      exact child r hr q hq hparent hws hpath (ih _ hlt q hq rfl)

theorem literal (h : Tree t) : ∀ r ∈ t.toList, ∀ c ∈ r.path, Literal c := by
  have hslug : ∀ r ∈ t.toList, ∀ c ∈ '/' :: r.slug, Literal c := by
    intro r hr c hc
    rcases List.mem_cons.mp hc with rfl | hc
    · decide
    · exact literal_of_slugChar (Slug.slugChar_of_mem ⟨r.slug, h.slug r hr⟩ hc)
  refine h.rootward ?root ?child
  case root =>
    intro r hr _ hpath c hc
    rw [hpath] at hc
    exact hslug r hr c hc
  case child =>
    intro r hr q _ _ _ hpath ih c hc
    rw [hpath] at hc
    rcases List.mem_append.mp hc with hc | hc
    · exact ih c hc
    · exact hslug r hr c hc

theorem descends_iff (h : Tree t) (hr : r ∈ t.toList) {p : List Char} :
    descends r.path p = true ↔ Below r.path p := like_below (h.literal r hr)

/-- **What the path of a folder goes on after is the path of a folder of its workspace.** -/
theorem exists_above (h : Tree t) {old : List Char} (hold : old ≠ []) :
    ∀ r ∈ t.toList, Below old r.path → ∃ a ∈ t.toList, a.workspaceId = r.workspaceId ∧ a.path = old := by
  refine h.rootward ?root ?child
  case root =>
    intro r hr _ hpath hbelow
    rw [hpath, below_childPath_iff (slash_notMem (h.slug r hr))] at hbelow
    rcases hbelow with hnil | hnil
    · exact absurd hnil.symm hold
    · exact absurd hnil.length_lt (Nat.not_lt_zero _)
  case child =>
    intro r hr q hq _ hws hpath ih hbelow
    rw [hpath, below_childPath_iff (slash_notMem (h.slug r hr))] at hbelow
    rcases hbelow with heq | hbelow
    · exact ⟨q, hq, hws, heq⟩
    · obtain ⟨a, ha, haw, hap⟩ := ih hbelow
      exact ⟨a, ha, haw.trans hws, hap⟩

theorem acyclic (h : Tree t) (i : Id) : ¬ Relation.TransGen (ParentOf t) i i := by
  have hshorter : ∀ {i p}, Relation.TransGen (ParentOf t) i p →
      ∀ q ∈ t.toList, q.id = p → ∀ r ∈ t.toList, r.id = i → q.path.length < r.path.length := by
    intro i p hlinks
    have hlink : ∀ {i p}, ParentOf t i p → ∀ q ∈ t.toList, q.id = p → ∀ r ∈ t.toList, r.id = i →
        q.path.length < r.path.length := by
      rintro i p ⟨r', hr', hid', hparent⟩ q hq rfl r hr rfl
      obtain rfl := eq_of_id_eq hr' hr hid'
      rw [(h.parent_path hr hq hparent).2]
      exact (below_childPath q.path r'.slug).length_lt
    induction hlinks with
    | single hp => exact hlink hp
    | @tail b c hib hbc ih =>
      intro q hq hqid r hr hrid
      obtain ⟨m, hm, hmid, -⟩ := id hbc
      exact (hlink hbc q hq hqid m hm hmid).trans (ih m hm hmid r hr hrid)
  intro hcycle
  obtain ⟨r, hr, hid⟩ : ∃ r ∈ t.toList, r.id = i := by
    cases hcycle with
    | single hp => exact ⟨_, hp.choose_spec.1, hp.choose_spec.2.1⟩
    | tail hib hbc =>
      rcases Relation.TransGen.head'_iff.mp (hib.tail hbc) with ⟨b, ⟨r, hr, hid, -⟩, -⟩
      exact ⟨r, hr, hid⟩
  exact lt_irrefl _ (hshorter hcycle r hr hid r hr hid)

theorem parentId_eq (h : Tree t) {ws : Id} {p p' : Option Id} {pp : List Char} (hp : ParentPath t ws p pp)
    (hp' : ParentPath t ws p' pp) : p = p' := by
  cases p with
  | none =>
    cases p' with
    | none => rfl
    | some b =>
      obtain ⟨q, hq, -, -, hqp⟩ := hp'
      exact absurd (hqp.trans hp) (h.path_ne_nil hq)
  | some a =>
    obtain ⟨q, hq, rfl, hqw, hqp⟩ := hp
    cases p' with
    | none => exact absurd (hqp.trans hp') (h.path_ne_nil hq)
    | some b =>
      obtain ⟨q', hq', rfl, hqw', hqp'⟩ := hp'
      rw [h.unique q hq q' hq' (hqw.trans hqw'.symm) (hqp.trans hqp'.symm)]

theorem parentPath_eq {ws : Id} {p : Option Id} {pp pp' : List Char} (hp : ParentPath t ws p pp)
    (hp' : ParentPath t ws p pp') : pp = pp' := by
  cases p with
  | none => exact hp.trans hp'.symm
  | some a =>
    obtain ⟨q, hq, hid, -, rfl⟩ := hp
    obtain ⟨q', hq', hid', -, rfl⟩ := hp'
    rw [eq_of_id_eq hq hq' (hid.trans hid'.symm)]

theorem constraints (h : Tree t) : constraints t := by
  refine ⟨?unique, ?foreign⟩
  case unique =>
    rintro r hr r' hr' hws (hpath | ⟨hparent, hslug⟩)
    · exact h.unique r hr r' hr' hws hpath
    · obtain ⟨pp, hpp, hpath⟩ := h.path r hr
      obtain ⟨pp', hpp', hpath'⟩ := h.path r' hr'
      rw [← hws, ← hparent] at hpp'
      refine h.unique r hr r' hr' hws ?_
      rw [hpath, hpath', parentPath_eq hpp hpp', hslug]
  case foreign =>
    intro r hr p hp
    obtain ⟨pp, hpp, -⟩ := h.path r hr
    rw [Option.mem_def.mp hp] at hpp
    obtain ⟨q, hq, rfl, -, -⟩ := hpp
    rw [KeyedList.get?_of_mem hq]
    rfl

end Tree

/-! ## A move -/

/-- `newParent` with `parentPath` can take the folder `cur` under the name `slug`. -/
structure Movable (t : Table) (cur : Row) (newParent : Option Id) (slug parentPath : List Char) : Prop where
  tree : Tree t
  mem : cur ∈ t.toList
  slug : validateSlug slug = true
  parent : ParentPath t cur.workspaceId newParent parentPath
  notSelf : parentPath ≠ cur.path
  notBelow : ¬ Below cur.path parentPath

def relocated (cur : Row) (newParent : Option Id) (slug parentPath : List Char) : Row :=
  { cur with parentId := newParent, slug := slug, path := childPath parentPath slug }

/-- The row of a folder after the move of `cur`. -/
def movedRow (cur : Row) (newParent : Option Id) (slug parentPath : List Char) (r : Row) : Row :=
  if r.id = cur.id then relocated cur newParent slug parentPath
  else if r.workspaceId = cur.workspaceId ∧ descends cur.path r.path then
    { r with path := rebase cur.path (childPath parentPath slug) r.path }
  else r

/-- The rows of `t'` are those of `t` after the move. -/
def Moved (t : Table) (cur : Row) (newParent : Option Id) (slug parentPath : List Char) (t' : Table) : Prop :=
  ∀ r', r' ∈ t'.toList ↔ ∃ r ∈ t.toList, r' = movedRow cur newParent slug parentPath r

namespace Movable

variable {t t' : Table} {cur : Row} {np : Option Id} {slug pp : List Char} {r : Row}

theorem movedRow_self : movedRow cur np slug pp cur = relocated cur np slug pp := if_pos rfl

theorem movedRow_id : (movedRow cur np slug pp r).id = r.id := by
  rw [movedRow]
  split_ifs with hid
  · exact hid.symm
  · rfl
  · rfl

variable (h : Movable t cur np slug pp)
include h

theorem movedRow_workspace (hr : r ∈ t.toList) : (movedRow cur np slug pp r).workspaceId = r.workspaceId := by
  rw [movedRow]
  split_ifs with hid
  · rw [eq_of_id_eq hr h.mem hid]
    rfl
  · rfl
  · rfl

theorem movedRow_below (hr : r ∈ t.toList) (hws : r.workspaceId = cur.workspaceId) {w : List Char}
    (hpath : r.path = cur.path ++ '/' :: w) :
    movedRow cur np slug pp r = { r with path := childPath pp slug ++ '/' :: w } := by
  have hne : r.id ≠ cur.id := by
    intro hid
    have hlt : cur.path.length < r.path.length := Below.length_lt ⟨w, hpath⟩
    rw [eq_of_id_eq hr h.mem hid] at hlt
    exact lt_irrefl _ hlt
  rw [movedRow, if_neg hne, if_pos ⟨hws, (h.tree.descends_iff h.mem).mpr ⟨w, hpath⟩⟩, hpath, rebase_append]

theorem movedRow_other (hne : r.id ≠ cur.id) (hnot : r.workspaceId = cur.workspaceId → ¬ Below cur.path r.path) :
    movedRow cur np slug pp r = r := by
  rw [movedRow, if_neg hne, if_neg fun hc => hnot hc.1 ((h.tree.descends_iff h.mem).mp hc.2)]

/-- **A row of the tree is the moved one, below it, or stays.** -/
theorem cases (hr : r ∈ t.toList) : r = cur ∨
    (r.workspaceId = cur.workspaceId ∧ r ≠ cur ∧ ∃ w, r.path = cur.path ++ '/' :: w ∧
      movedRow cur np slug pp r = { r with path := childPath pp slug ++ '/' :: w }) ∨
    (r ≠ cur ∧ (r.workspaceId = cur.workspaceId → r.path ≠ cur.path ∧ ¬ Below cur.path r.path) ∧
      movedRow cur np slug pp r = r) := by
  by_cases hcur : r = cur
  · exact Or.inl hcur
  · have hne : r.id ≠ cur.id := fun hid => hcur (eq_of_id_eq hr h.mem hid)
    by_cases hbelow : r.workspaceId = cur.workspaceId ∧ Below cur.path r.path
    · obtain ⟨hws, w, hw⟩ := hbelow
      exact Or.inr (Or.inl ⟨hws, hcur, w, hw, h.movedRow_below hr hws hw⟩)
    · have hnot : r.workspaceId = cur.workspaceId → ¬ Below cur.path r.path := fun hws hb => hbelow ⟨hws, hb⟩
      refine Or.inr (Or.inr ⟨hcur, fun hws => ⟨fun hp => ?_, hnot hws⟩, h.movedRow_other hne hnot⟩)
      exact hne (h.tree.unique r hr cur h.mem hws hp)

theorem notBelow_childPath : ¬ Below cur.path (childPath pp slug) := by
  rw [below_childPath_iff (slash_notMem h.slug)]
  rintro (heq | hbelow)
  · exact h.notSelf heq
  · exact h.notBelow hbelow

variable (hmoved : Moved t cur np slug pp t')
include hmoved

omit h in
theorem mem_moved (hr : r ∈ t.toList) : movedRow cur np slug pp r ∈ t'.toList := (hmoved _).mpr ⟨r, hr, rfl⟩

theorem parentPath_kept {ws : Id} {p : Option Id} {q : List Char} (hp : ParentPath t ws p q)
    (hnot : ws = cur.workspaceId → q ≠ cur.path ∧ ¬ Below cur.path q) : ParentPath t' ws p q := by
  cases p with
  | none => exact hp
  | some a =>
    obtain ⟨m, hm, rfl, rfl, rfl⟩ := hp
    have hne : m.id ≠ cur.id := by
      intro hid
      obtain rfl := eq_of_id_eq hm h.mem hid
      exact (hnot rfl).1 rfl
    have hstays : movedRow cur np slug pp m = m := h.movedRow_other hne fun hws => (hnot hws).2
    exact ⟨m, hstays ▸ mem_moved hmoved hm, rfl, rfl, rfl⟩

theorem parentPath_moved {p : Option Id} {u : List Char} (hu : Slashed u)
    (hp : ParentPath t cur.workspaceId p (cur.path ++ u)) :
    ParentPath t' cur.workspaceId p (childPath pp slug ++ u) := by
  cases p with
  | none => exact absurd (List.append_eq_nil_iff.mp hp).1 (h.tree.path_ne_nil h.mem)
  | some a =>
    obtain ⟨m, hm, rfl, hws, hpath⟩ := hp
    cases u with
    | nil =>
      have hid : m.id = cur.id := h.tree.unique m hm cur h.mem hws (by rw [hpath, List.append_nil])
      obtain rfl := eq_of_id_eq hm h.mem hid
      refine ⟨_, mem_moved hmoved hm, ?_, ?_, ?_⟩
      all_goals rw [movedRow_self]
      · rfl
      · rfl
      · exact (List.append_nil _).symm
    | cons x w =>
      obtain rfl : x = '/' := hu x rfl
      refine ⟨_, mem_moved hmoved hm, ?_, ?_, ?_⟩
      all_goals rw [h.movedRow_below hm hws hpath]
      exact hws

theorem path_after (hr : r ∈ t.toList) : ∃ q,
    ParentPath t' (movedRow cur np slug pp r).workspaceId (movedRow cur np slug pp r).parentId q ∧
      (movedRow cur np slug pp r).path = childPath q (movedRow cur np slug pp r).slug := by
  rcases h.cases hr with rfl | ⟨hws, -, w, hw, heq⟩ | ⟨-, hnot, heq⟩
  · rw [movedRow_self]
    exact ⟨pp, h.parentPath_kept hmoved h.parent fun _ => ⟨h.notSelf, h.notBelow⟩, rfl⟩
  · rw [heq]
    obtain ⟨q, hq, hpath⟩ := h.tree.path r hr
    have hold : q = cur.path ∨ Below cur.path q := by
      rw [← below_childPath_iff (slash_notMem (h.tree.slug r hr)), ← hpath]
      exact ⟨w, hw⟩
    obtain ⟨u, hu, rfl⟩ : ∃ u, Slashed u ∧ q = cur.path ++ u := by
      rcases hold with rfl | ⟨v, rfl⟩
      · exact ⟨[], slashed_pathText [], (List.append_nil _).symm⟩
      · exact ⟨_, slashed_cons v, rfl⟩
    refine ⟨_, hws ▸ h.parentPath_moved hmoved hu (hws ▸ hq), ?_⟩
    have hrest : '/' :: w = u ++ '/' :: r.slug := by
      rw [hw, childPath, List.append_assoc] at hpath
      exact List.append_cancel_left hpath
    show childPath pp slug ++ '/' :: w = childPath pp slug ++ u ++ '/' :: r.slug
    rw [hrest, List.append_assoc]
  · rw [heq]
    obtain ⟨q, hq, hpath⟩ := h.tree.path r hr
    refine ⟨q, h.parentPath_kept hmoved hq fun hws => ?_, hpath⟩
    have hout : ¬ (q = cur.path ∨ Below cur.path q) := by
      rw [← below_childPath_iff (slash_notMem (h.tree.slug r hr)), ← hpath]
      exact (hnot hws).2
    exact not_or.mp hout

omit hmoved in
theorem not_taken (hfree : ∀ r ∈ t.toList, r.workspaceId = cur.workspaceId → r.path = childPath pp slug → r = cur)
    (hr : r ∈ t.toList) (hws : r.workspaceId = cur.workspaceId) (hcur : r ≠ cur)
    (hnot : ¬ Below cur.path r.path) {u : List Char} (hu : Slashed u) : r.path ≠ childPath pp slug ++ u := by
  intro hpath
  cases u with
  | nil => exact hcur (hfree r hr hws (by rw [hpath, List.append_nil]))
  | cons x w =>
    obtain rfl : x = '/' := hu x rfl
    -- somebody has the new path itself, and that can only be the moved folder
    obtain ⟨a, ha, haw, hap⟩ := h.tree.exists_above (childPath_ne_nil pp slug) r hr ⟨w, hpath⟩
    obtain rfl := hfree a ha (haw.trans hws) hap
    exact hnot (hap ▸ ⟨w, hpath⟩)

omit hmoved in
theorem unique_after
    (hfree : ∀ r ∈ t.toList, r.workspaceId = cur.workspaceId → r.path = childPath pp slug → r = cur)
    {r₁ r₂ : Row} (h₁ : r₁ ∈ t.toList) (h₂ : r₂ ∈ t.toList) (hws : r₁.workspaceId = r₂.workspaceId)
    (hpath : (movedRow cur np slug pp r₁).path = (movedRow cur np slug pp r₂).path) : r₁.id = r₂.id := by
  -- at or below the moved folder with what the path goes on with, or staying
  have hsplit : ∀ r ∈ t.toList,
      (r.workspaceId = cur.workspaceId ∧ ∃ u, Slashed u ∧ r.path = cur.path ++ u ∧
        (movedRow cur np slug pp r).path = childPath pp slug ++ u) ∨
      ((r.workspaceId = cur.workspaceId → ∀ u, Slashed u → r.path ≠ childPath pp slug ++ u) ∧
        (movedRow cur np slug pp r).path = r.path) := by
    intro r hr
    rcases h.cases hr with rfl | ⟨hrw, -, w, hw, heq⟩ | ⟨hcur, hnot, heq⟩
    · refine Or.inl ⟨rfl, [], slashed_pathText [], (List.append_nil _).symm, ?_⟩
      rw [movedRow_self, List.append_nil]
      rfl
    · exact Or.inl ⟨hrw, _, slashed_cons w, hw, by rw [heq]⟩
    · exact Or.inr ⟨fun hrw u hu => h.not_taken hfree hr hrw hcur (hnot hrw).2 hu, by rw [heq]⟩
  rcases hsplit r₁ h₁ with ⟨hw₁, u₁, hu₁, hp₁, hm₁⟩ | ⟨hn₁, hm₁⟩
  · rcases hsplit r₂ h₂ with ⟨hw₂, u₂, -, hp₂, hm₂⟩ | ⟨hn₂, hm₂⟩
    · rw [hm₁, hm₂] at hpath
      refine h.tree.unique r₁ h₁ r₂ h₂ hws ?_
      rw [hp₁, hp₂, List.append_cancel_left hpath]
    · rw [hm₁, hm₂] at hpath
      exact absurd hpath.symm (hn₂ (hws ▸ hw₁) u₁ hu₁)
  · rcases hsplit r₂ h₂ with ⟨hw₂, u₂, hu₂, -, hm₂⟩ | ⟨-, hm₂⟩
    · rw [hm₁, hm₂] at hpath
      exact absurd hpath (hn₁ (hws.trans hw₂) u₂ hu₂)
    · rw [hm₁, hm₂] at hpath
      exact h.tree.unique r₁ h₁ r₂ h₂ hws hpath

/-- **A move to a path that nobody else has leaves a tree.** -/
theorem tree_after
    (hfree : ∀ r ∈ t.toList, r.workspaceId = cur.workspaceId → r.path = childPath pp slug → r = cur) :
    Tree t' := by
  refine ⟨?slug, ?path, ?unique⟩
  case slug =>
    intro r' hr'
    obtain ⟨r, hr, rfl⟩ := (hmoved r').mp hr'
    rcases h.cases hr with rfl | ⟨-, -, w, -, heq⟩ | ⟨-, -, heq⟩
    · rw [movedRow_self]
      exact h.slug
    · rw [heq]
      exact h.tree.slug r hr
    · rw [heq]
      exact h.tree.slug r hr
  case path =>
    intro r' hr'
    obtain ⟨r, hr, rfl⟩ := (hmoved r').mp hr'
    exact h.path_after hmoved hr
  case unique =>
    intro r₁' h₁' r₂' h₂' hws hpath
    obtain ⟨r₁, h₁, rfl⟩ := (hmoved r₁').mp h₁'
    obtain ⟨r₂, h₂, rfl⟩ := (hmoved r₂').mp h₂'
    rw [h.movedRow_workspace h₁, h.movedRow_workspace h₂] at hws
    rw [movedRow_id, movedRow_id]
    exact h.unique_after hfree h₁ h₂ hws hpath

end Movable

end Folders

end Mekhan

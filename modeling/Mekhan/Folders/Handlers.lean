import Mekhan.Folders.Tree

/-!
# What the statements of a folder handler do to a tree

`StageOk` says what a handler knows before each statement, when nobody else changes the rows that it reads:
the rows it sees are a tree, or one whose moved row still waits for the paths below it. Each statement keeps
it (`statement_ok`), so a handler on its own takes a tree to a tree (`alone_tree`).

`delete_finishes_iff` — a `delete_folder` on its own goes through exactly when no child of the folder is
named like a folder with the deleted folder's parent, the deleted folder among them.
-/

namespace Mekhan

namespace Folders

open Infra

/-! ## Writes -/

theorem applyAll_append (t : Table) (ws ws' : List Write) :
    applyAll t (ws ++ ws') = applyAll (applyAll t ws) ws' := List.foldl_append

variable {t : Table} {r : Row}

theorem mem_toList_iff : r ∈ t.toList ↔ t.get? r.id = some r :=
  ⟨KeyedList.get?_of_mem, KeyedList.mem_of_get?⟩

theorem mem_insert_iff {row : Row} : r ∈ (t.insert row).toList ↔ r = row ∨ r ∈ t.toList ∧ r.id ≠ row.id := by
  rw [KeyedList.toList_insert, List.mem_append, List.mem_singleton, List.mem_filter, decide_eq_true_iff]
  exact or_comm

theorem get?_upserts {f : Row → Row} (hf : ∀ r, (f r).id = r.id) {l : List Row} {t : Table}
    (hl : (l.map Row.id).Nodup) (i : Id) :
    (applyAll t (l.map fun r => .upsert (f r))).get? i = ((l.find? (·.id = i)).map f).or (t.get? i) := by
  induction l generalizing t with
  | nil => rfl
  | cons r l ih =>
    obtain ⟨hr, hl⟩ := List.nodup_cons.mp hl
    show (applyAll (t.insert (f r)) (l.map fun r => .upsert (f r))).get? i = _
    rw [ih hl, KeyedList.get?_insert, hf]
    by_cases hi : r.id = i
    · have hnone : l.find? (·.id = i) = none := by
        refine List.find?_eq_none.mpr fun b hb hbi => hr ?_
        rw [hi, ← of_decide_eq_true hbi]
        exact List.mem_map_of_mem hb
      rw [hnone, if_pos hi.symm, List.find?_cons_of_pos (by simpa using hi)]
      rfl
    · rw [if_neg (Ne.symm hi), List.find?_cons_of_neg (by simpa using hi)]

theorem mem_update_iff {f : Row → Row} (hf : ∀ r, (f r).id = r.id) (p : Row → Bool) {r' : Row} :
    r' ∈ (applyAll t ((t.toList.filter p).map fun r => .upsert (f r))).toList ↔
      ∃ r ∈ t.toList, r' = if p r then f r else r := by
  have hget : ∀ i, (applyAll t ((t.toList.filter p).map fun r => .upsert (f r))).get? i =
      (t.get? i).map fun r => if p r then f r else r := by
    intro i
    rw [get?_upserts hf (l := t.toList.filter p) (t.retain p).nodup]
    show (((t.retain p).get? i).map f).or (t.get? i) = _
    cases hi : t.get? i with
    | none =>
      cases hp : (t.retain p).get? i with
      | none => rfl
      | some r =>
        rw [(KeyedList.get?_of_get?_retain hp).1] at hi
        cases hi
    | some r =>
      cases hpr : p r with
      | true =>
        rw [KeyedList.get?_retain_of hi hpr]
        simp [hpr]
      | false =>
        cases hp : (t.retain p).get? i with
        | none => simp [hpr]
        | some q =>
          obtain ⟨hq, hpq⟩ := KeyedList.get?_of_get?_retain hp
          rw [Option.some.inj (hi.symm.trans hq), hpq] at hpr
          cases hpr
  have hid : ∀ r, (if p r then f r else r).id = r.id := by
    intro r
    split
    · exact hf r
    · rfl
  rw [mem_toList_iff, hget, Option.map_eq_some_iff]
  constructor
  · rintro ⟨r, hr, rfl⟩
    exact ⟨r, KeyedList.mem_of_get? hr, rfl⟩
  · rintro ⟨r, hr, rfl⟩
    exact ⟨r, by rw [hid]; exact KeyedList.get?_of_mem hr, rfl⟩

/-! ## The two statements of a move -/

namespace Movable

variable {t : Table} {cur r : Row} {np : Option Id} {slug pp : List Char}

/-- **The first statement puts the folder at its new place, the second one takes the folders below along.** -/
theorem moved_of_statements (h : Movable t cur np slug pp) :
    Moved t cur np slug pp (applyAll (t.insert (relocated cur np slug pp))
      (rewrites cur.workspaceId cur.path (childPath pp slug) (t.insert (relocated cur np slug pp)))) := by
  intro r'
  rw [rewrites, mem_update_iff (f := fun r => { r with path := rebase cur.path (childPath pp slug) r.path })
    fun _ => rfl]
  have hself : descends cur.path (childPath pp slug) = false :=
    eq_false_of_ne_true fun hc => h.notBelow_childPath ((h.tree.descends_iff h.mem).mp hc)
  constructor
  · rintro ⟨r, hr, rfl⟩
    rcases mem_insert_iff.mp hr with rfl | ⟨hr, hne⟩
    · refine ⟨cur, h.mem, ?_⟩
      rw [movedRow_self, if_neg]
      simp [relocated, hself]
    · exact ⟨r, hr, by rw [movedRow, if_neg (show r.id ≠ cur.id from hne)]; simp only [decide_eq_true_eq]⟩
  · rintro ⟨r, hr, rfl⟩
    by_cases hid : r.id = cur.id
    · obtain rfl := eq_of_id_eq hr h.mem hid
      refine ⟨_, mem_insert_iff.mpr (Or.inl rfl), ?_⟩
      rw [movedRow_self, if_neg]
      simp [relocated, hself]
    · exact ⟨r, mem_insert_iff.mpr (Or.inr ⟨hr, hid⟩),
        by rw [movedRow, if_neg hid]; simp only [decide_eq_true_eq]⟩

/-- **The first statement of a move goes through exactly when nobody else has the new path.** -/
theorem constraints_iff (h : Movable t cur np slug pp) : constraints (t.insert (relocated cur np slug pp)) ↔
      ∀ r ∈ t.toList, r.workspaceId = cur.workspaceId → r.path = childPath pp slug → r = cur := by
  constructor
  · rintro ⟨hunique, -⟩ r hr hws hpath
    by_contra hne
    have hid : r.id ≠ cur.id := fun hid => hne (eq_of_id_eq hr h.mem hid)
    have hnew : relocated cur np slug pp ∈ (t.insert (relocated cur np slug pp)).toList :=
      mem_insert_iff.mpr (Or.inl rfl)
    exact hid (hunique r (mem_insert_iff.mpr (Or.inr ⟨hr, hid⟩)) (relocated cur np slug pp) hnew hws
      (Or.inl hpath))
  · intro hfree
    -- a namesake of the moved folder under the new parent has the new path
    have hother : ∀ r ∈ t.toList, r.id ≠ cur.id → r.workspaceId = cur.workspaceId →
        ¬ (r.path = childPath pp slug ∨ r.parentId = np ∧ r.slug = slug) := by
      rintro r hr hid hws (hpath | ⟨hparent, hslug⟩)
      · exact hid (by rw [hfree r hr hws hpath])
      · obtain ⟨q, hq, hpath⟩ := h.tree.path r hr
        rw [hws, hparent] at hq
        have hnew : r.path = childPath pp slug := by rw [hpath, Tree.parentPath_eq hq h.parent, hslug]
        exact hid (by rw [hfree r hr hws hnew])
    refine ⟨?unique, ?foreign⟩
    case unique =>
      intro r hr r' hr' hws hsame
      rcases mem_insert_iff.mp hr with rfl | ⟨hr, hne⟩
      · rcases mem_insert_iff.mp hr' with rfl | ⟨hr', hne'⟩
        · rfl
        · refine absurd ?_ (hother r' hr' hne' hws.symm)
          exact hsame.imp Eq.symm fun hs => ⟨hs.1.symm, hs.2.symm⟩
      · rcases mem_insert_iff.mp hr' with rfl | ⟨hr', hne'⟩
        · exact absurd hsame (hother r hr hne hws)
        · exact h.tree.constraints.1 r hr r' hr' hws hsame
    case foreign =>
      have hkept : ∀ p, (t.get? p).isSome → ((t.insert (relocated cur np slug pp)).get? p).isSome := by
        intro p hp
        rw [KeyedList.get?_insert]
        split
        · rfl
        · exact hp
      intro r hr p hp
      refine hkept p ?_
      rcases mem_insert_iff.mp hr with rfl | ⟨hr, -⟩
      · have hparent := h.parent
        rw [show np = some p from hp] at hparent
        obtain ⟨q, hq, rfl, -, -⟩ := hparent
        rw [KeyedList.get?_of_mem hq]
        rfl
      · exact h.tree.constraints.2 r hr p hp

theorem tree_of_constraints (h : Movable t cur np slug pp)
    (hc : constraints (t.insert (relocated cur np slug pp))) :
    Tree (applyAll (t.insert (relocated cur np slug pp))
      (rewrites cur.workspaceId cur.path (childPath pp slug) (t.insert (relocated cur np slug pp)))) :=
  h.tree_after h.moved_of_statements (h.constraints_iff.mp hc)

end Movable

/-! ## A deletion -/

/-- `delete_folder` of `current` still has `children` to move to the folder with `parentPath`. -/
structure Deleting (t : Table) (current : Row) (parentPath : List Char) (children : List Row) : Prop where
  tree : Tree t
  mem : current ∈ t.toList
  parent : ParentPath t current.workspaceId current.parentId parentPath
  mem_iff : ∀ c, c ∈ children ↔ c ∈ t.toList ∧ c.parentId = some current.id
  nodup : children.Nodup

namespace Deleting

variable {t t' : Table} {cur c r : Row} {pp : List Char} {rest : List Row}

theorem path_current (h : Deleting t cur pp rest) : cur.path = childPath pp cur.slug := by
  obtain ⟨q, hq, hpath⟩ := h.tree.path cur h.mem
  rw [hpath, Tree.parentPath_eq hq h.parent]

theorem child (h : Deleting t cur pp rest) (hc : c ∈ rest) :
    c ∈ t.toList ∧ cur.workspaceId = c.workspaceId ∧ c.path = childPath cur.path c.slug := by
  obtain ⟨hmem, hparent⟩ := (h.mem_iff c).mp hc
  exact ⟨hmem, h.tree.parent_path hmem h.mem hparent⟩

/-- Neither the folder, nor its parent, nor a child of one of them is below a child of the folder. -/
theorem length_lt (h : Deleting t cur pp rest) (hc : c ∈ rest) :
    pp.length < cur.path.length ∧ cur.path.length < c.path.length := by
  refine ⟨?_, ?_⟩
  · rw [h.path_current]
    exact (below_childPath pp cur.slug).length_lt
  · rw [(h.child hc).2.2]
    exact (below_childPath cur.path c.slug).length_lt

theorem notBelow_childPath (h : Deleting t cur pp rest) (hc : c ∈ rest) {q slug : List Char}
    (hq : q = cur.path ∨ q = pp) (hslug : '/' ∉ slug) : ¬ Below c.path (childPath q slug) := by
  obtain ⟨hlt, hlt'⟩ := h.length_lt hc
  have hle : q.length < c.path.length := by
    rcases hq with rfl | rfl
    · exact hlt'
    · exact hlt.trans hlt'
  rw [below_childPath_iff hslug]
  rintro (rfl | hbelow)
  · exact lt_irrefl _ hle
  · exact absurd (hbelow.length_lt.trans hle) (lt_irrefl _)

theorem movable (h : Deleting t cur pp rest) (hc : c ∈ rest) : Movable t c cur.parentId c.slug pp := by
  obtain ⟨hmem, hws, -⟩ := h.child hc
  obtain ⟨hlt, hlt'⟩ := h.length_lt hc
  refine ⟨h.tree, hmem, h.tree.slug c hmem, hws ▸ h.parent, ?notSelf, ?notBelow⟩
  case notSelf =>
    rintro rfl
    omega
  case notBelow =>
    intro hbelow
    have := hbelow.length_lt
    omega

theorem stays (h : Deleting t cur pp (c :: rest)) (hr : r ∈ t.toList) (hne : r ≠ c) {q : List Char}
    (hq : q = cur.path ∨ q = pp) (hpath : r.path = childPath q r.slug) :
    movedRow c cur.parentId c.slug pp r = r := by
  have hc := h.movable (List.mem_cons_self (a := c) (l := rest))
  refine hc.movedRow_other (fun hid => hne (eq_of_id_eq hr hc.mem hid)) fun _ => ?_
  rw [hpath]
  exact h.notBelow_childPath List.mem_cons_self hq (slash_notMem (h.tree.slug r hr))

theorem current_ne_child (h : Deleting t cur pp rest) (hc : c ∈ rest) : cur ≠ c := by
  rintro rfl
  exact lt_irrefl _ (h.length_lt hc).2

/-- **Moving one child leaves the others to be moved.** -/
theorem after (h : Deleting t cur pp (c :: rest)) (hmoved : Moved t c cur.parentId c.slug pp t')
    (ht' : Tree t') : Deleting t' cur pp rest := by
  have hc : Movable t c cur.parentId c.slug pp := h.movable List.mem_cons_self
  obtain ⟨hlt, hlt'⟩ := h.length_lt (List.mem_cons_self (a := c) (l := rest))
  obtain ⟨hcmem, hcws, -⟩ := h.child (List.mem_cons_self (a := c) (l := rest))
  obtain ⟨hcrest, hnodup⟩ := List.nodup_cons.mp h.nodup
  have hcurrent := h.stays h.mem (h.current_ne_child List.mem_cons_self) (Or.inr rfl) h.path_current
  refine ⟨ht', hcurrent ▸ Movable.mem_moved hmoved h.mem, ?parent, ?children, hnodup⟩
  case parent =>
    refine hc.parentPath_kept hmoved h.parent fun _ => ⟨?_, fun hbelow => ?_⟩
    · rintro rfl
      omega
    · have := hbelow.length_lt
      omega
  case children =>
    intro d
    constructor
    · intro hd
      obtain ⟨hdmem, -, hdpath⟩ := h.child (List.mem_cons_of_mem c hd)
      have hdc : d ≠ c := fun heq => hcrest (heq ▸ hd)
      refine ⟨?_, ((h.mem_iff d).mp (List.mem_cons_of_mem c hd)).2⟩
      exact h.stays hdmem hdc (Or.inl rfl) hdpath ▸ Movable.mem_moved hmoved hdmem
    · rintro ⟨hd, hparent⟩
      obtain ⟨r, hr, rfl⟩ := (hmoved d).mp hd
      rcases hc.cases hr with rfl | ⟨-, hrc, w, hw, heq⟩ | ⟨hrc, -, heq⟩
      · -- the moved child is not below the folder any more, which is not its own parent
        rw [Movable.movedRow_self] at hparent
        have hself : cur.parentId = some cur.id := hparent
        have hlong := (h.tree.parent_path h.mem h.mem hself).2
        have := (below_childPath cur.path cur.slug).length_lt
        rw [← hlong] at this
        exact absurd this (lt_irrefl _)
      · rw [heq] at hparent
        have hrpath := (h.tree.parent_path hr h.mem hparent).2
        have hbelow : Below c.path r.path := ⟨w, hw⟩
        rw [hrpath] at hbelow
        exact absurd hbelow
          (h.notBelow_childPath List.mem_cons_self (Or.inl rfl) (slash_notMem (h.tree.slug r hr)))
      · rw [heq] at hparent ⊢
        exact (List.mem_cons.mp ((h.mem_iff r).mpr ⟨hr, hparent⟩)).resolve_left hrc

end Deleting

/-! ## Every statement -/

/-- What a handler knows before a statement, where the rows it read are still the ones it sees. -/
def StageOk (req : Request) (view : Table) : Stage → Prop
  | .start => Tree view
  | .insert parentPath => Tree view ∧ ∀ id ws parent slug, req = .create id ws parent slug →
      validateSlug slug = true ∧ ParentPath view ws parent parentPath
  | .resolve cur _ newSlug => Tree view ∧ cur ∈ view.toList ∧ validateSlug newSlug = true
  | .relocate cur newParent newSlug parentPath => Movable view cur newParent newSlug parentPath
  | .rewrite ws oldPath newPath rest => ∃ t cur np slug pp, Movable t cur np slug pp ∧
      view = t.insert (relocated cur np slug pp) ∧ constraints view ∧
      ws = cur.workspaceId ∧ oldPath = cur.path ∧ newPath = childPath pp slug ∧
      ∀ x ∈ rest, Deleting t x.1 x.2.1 (cur :: x.2.2) ∧ np = x.1.parentId ∧ slug = cur.slug ∧ pp = x.2.1
  | .resolveParent cur => Tree view ∧ cur ∈ view.toList
  | .selectChildren cur parentPath => Tree view ∧ cur ∈ view.toList ∧
      ParentPath view cur.workspaceId cur.parentId parentPath
  | .reparent cur parentPath children => Deleting view cur parentPath children
  | .remove cur => Tree view ∧ cur ∈ view.toList ∧ ∀ r ∈ view.toList, r.parentId ≠ some cur.id
  | .done => Tree view

section Statements

variable {req : Request} {view t : Table} {cur : Row} {np : Option Id} {slug pp : List Char}
  {writes : List Write} {next : Stage}

variable {stage : Stage} {ws : List Write} {children : List Row}

theorem checked_eq_some_iff {α : Type} {writes : List Write} {n next : α} :
    checked view ws n = some (writes, next) ↔ constraints (applyAll view ws) ∧ ws = writes ∧ n = next := by
  rw [checked]
  split_ifs with hc
  · simp [hc]
  · simp [hc]

theorem checked_of {α : Type} {n : α} (hc : constraints (applyAll view ws)) :
    checked view ws n = some (ws, n) := if_pos hc

theorem ok_start (h : Tree view) (hs : statement req view .start = some (writes, next)) :
    StageOk req (applyAll view writes) next := by
  cases req with
  | create id ws parent slug =>
    simp only [statement] at hs
    obtain ⟨hslug, hs⟩ := Option.ite_none_right_eq_some.mp hs
    cases parent with
    | none =>
      cases hs
      refine ⟨h, ?_⟩
      rintro _ _ _ _ ⟨⟩
      exact ⟨hslug, rfl⟩
    | some p =>
      obtain ⟨r, hr, hs⟩ := Option.bind_eq_some_iff.mp hs
      obtain ⟨hws, hs⟩ := Option.ite_none_right_eq_some.mp hs
      cases hs
      refine ⟨h, ?_⟩
      rintro _ _ _ _ ⟨⟩
      exact ⟨hslug, r, KeyedList.mem_of_get? hr, KeyedList.key_of_get? hr, hws, rfl⟩
  | update folderId slug parent =>
    obtain ⟨current, hcur, hs⟩ := Option.bind_eq_some_iff.mp hs
    obtain ⟨hslug, hs⟩ := Option.ite_none_right_eq_some.mp hs
    split_ifs at hs with hmove
    · cases hs
      refine ⟨h, KeyedList.mem_of_get? hcur, ?_⟩
      cases slug with
      | none => exact h.slug current (KeyedList.mem_of_get? hcur)
      | some s => exact hslug
    · cases hs
      exact h
  | delete folderId =>
    obtain ⟨current, hcur, hs⟩ := Option.map_eq_some_iff.mp hs
    cases hs
    exact ⟨h, KeyedList.mem_of_get? hcur⟩

theorem tree_insert (h : Tree view) {row : Row} (hid : view.get? row.id = none)
    (hslug : validateSlug row.slug = true) (hparent : ParentPath view row.workspaceId row.parentId pp)
    (hpath : row.path = childPath pp row.slug) (hc : constraints (view.insert row)) :
    Tree (view.insert row) := by
  have hfresh : ∀ r ∈ view.toList, r.id ≠ row.id := by
    intro r hr heq
    rw [← heq, KeyedList.get?_of_mem hr] at hid
    cases hid
  have hkept : ∀ {ws p q}, ParentPath view ws p q → ParentPath (view.insert row) ws p q := by
    intro ws p q hq
    cases p with
    | none => exact hq
    | some a =>
      obtain ⟨m, hm, hrest⟩ := hq
      exact ⟨m, mem_insert_iff.mpr (Or.inr ⟨hm, hfresh m hm⟩), hrest⟩
  refine ⟨?slug, ?path, fun r hr r' hr' hws hp => hc.1 r hr r' hr' hws (Or.inl hp)⟩
  case slug =>
    intro r hr
    rcases mem_insert_iff.mp hr with rfl | ⟨hr, -⟩
    · exact hslug
    · exact h.slug r hr
  case path =>
    intro r hr
    rcases mem_insert_iff.mp hr with rfl | ⟨hr, -⟩
    · exact ⟨pp, hkept hparent, hpath⟩
    · obtain ⟨q, hq, hrpath⟩ := h.path r hr
      exact ⟨q, hkept hq, hrpath⟩

theorem ok_insert (h : StageOk req view (.insert pp))
    (hs : statement req view (.insert pp) = some (writes, next)) : StageOk req (applyAll view writes) next := by
  cases req with
  | create id ws parent slug =>
    simp only [statement] at hs
    obtain ⟨hid, hs⟩ := Option.ite_none_right_eq_some.mp hs
    obtain ⟨hc, rfl, rfl⟩ := checked_eq_some_iff.mp hs
    obtain ⟨hslug, hparent⟩ := h.2 id ws parent slug rfl
    exact tree_insert h.1 (Option.isNone_iff_eq_none.mp hid) hslug hparent rfl hc
  | update folderId slug parent => cases hs
  | delete folderId => cases hs

/-- **The guard lets nobody move a folder below itself.** -/
theorem ok_resolve (h : StageOk req view (.resolve cur np slug))
    (hs : statement req view (.resolve cur np slug) = some (writes, next)) :
    StageOk req (applyAll view writes) next := by
  obtain ⟨htree, hcur, hslug⟩ := h
  cases np with
  | none =>
    cases hs
    refine ⟨htree, hcur, hslug, rfl, (htree.path_ne_nil hcur).symm, fun hbelow => ?_⟩
    exact absurd hbelow.length_lt (Nat.not_lt_zero _)
  | some p =>
    simp only [statement] at hs
    obtain ⟨-, hs⟩ := Option.ite_none_left_eq_some.mp hs
    obtain ⟨r, hr, hs⟩ := Option.bind_eq_some_iff.mp hs
    obtain ⟨hws, hs⟩ := Option.ite_none_left_eq_some.mp hs
    obtain ⟨hguard, hs⟩ := Option.ite_none_left_eq_some.mp hs
    cases hs
    refine ⟨htree, hcur, hslug, ⟨r, KeyedList.mem_of_get? hr, KeyedList.key_of_get? hr, not_not.mp hws, rfl⟩,
      fun heq => hguard (Or.inl heq), ?_⟩
    rintro ⟨w, hw⟩
    exact hguard (Or.inr ⟨w, by rw [hw, List.append_assoc]; rfl⟩)

theorem ok_relocate (h : Movable view cur np slug pp)
    (hs : statement req view (.relocate cur np slug pp) = some (writes, next)) :
    StageOk req (applyAll view writes) next := by
  obtain ⟨row, hrow, hs⟩ := Option.bind_eq_some_iff.mp hs
  obtain rfl : cur = row := Option.some.inj ((KeyedList.get?_of_mem h.mem).symm.trans hrow)
  obtain ⟨hc, rfl, rfl⟩ := checked_eq_some_iff.mp hs
  exact ⟨view, cur, np, slug, pp, h, rfl, hc, rfl, rfl, rfl, fun _ hx => by cases hx⟩

theorem ok_rewrite {ws : Id} {old new : List Char} {rest : Option (Row × List Char × List Row)}
    (h : StageOk req view (.rewrite ws old new rest))
    (hs : statement req view (.rewrite ws old new rest) = some (writes, next)) :
    StageOk req (applyAll view writes) next := by
  obtain ⟨t, cur, np, slug, pp, hmove, rfl, hc, rfl, rfl, rfl, hrest⟩ := h
  obtain ⟨-, rfl, rfl⟩ := checked_eq_some_iff.mp hs
  have htree := hmove.tree_of_constraints hc
  cases rest with
  | none => exact htree
  | some x =>
    obtain ⟨hdel, rfl, rfl, rfl⟩ := hrest x rfl
    exact hdel.after hmove.moved_of_statements htree

theorem ok_resolveParent (h : StageOk req view (.resolveParent cur))
    (hs : statement req view (.resolveParent cur) = some (writes, next)) :
    StageOk req (applyAll view writes) next := by
  obtain ⟨htree, hcur⟩ := h
  obtain ⟨q, hq, -⟩ := htree.path cur hcur
  simp only [statement] at hs
  cases hparent : cur.parentId with
  | none =>
    rw [hparent] at hs hq
    cases hs
    exact ⟨htree, hcur, by rw [hparent]; rfl⟩
  | some p =>
    rw [hparent] at hs hq
    obtain ⟨m, hm, rfl, hws, rfl⟩ := hq
    cases hs
    refine ⟨htree, hcur, ?_⟩
    rw [hparent, KeyedList.get?_of_mem hm]
    exact ⟨m, hm, rfl, hws, rfl⟩

theorem ok_selectChildren (h : StageOk req view (.selectChildren cur pp))
    (hs : statement req view (.selectChildren cur pp) = some (writes, next)) :
    StageOk req (applyAll view writes) next := by
  obtain ⟨htree, hcur, hparent⟩ := h
  cases hs
  refine ⟨htree, hcur, hparent, fun c => ?_, (view.nodup.of_map Row.id).filter _⟩
  show c ∈ view.toList.filter _ ↔ _
  rw [List.mem_filter, decide_eq_true_iff]
  rfl

theorem statement_reparent_cons {c : Row} {rest : List Row} (h : Deleting view cur pp (c :: rest)) :
    statement req view (.reparent cur pp (c :: rest)) =
      checked view [.upsert (relocated c cur.parentId c.slug pp)]
        (.rewrite cur.workspaceId c.path (childPath pp c.slug) (some (cur, pp, rest))) := by
  rw [statement, KeyedList.get?_of_mem (h.child List.mem_cons_self).1]
  rfl

theorem ok_reparent (h : Deleting view cur pp children)
    (hs : statement req view (.reparent cur pp children) = some (writes, next)) :
    StageOk req (applyAll view writes) next := by
  cases children with
  | nil =>
    cases hs
    exact ⟨h.tree, h.mem, fun r hr hparent => List.not_mem_nil ((h.mem_iff r).mpr ⟨hr, hparent⟩)⟩
  | cons c rest =>
    rw [statement_reparent_cons h] at hs
    obtain ⟨hc, rfl, rfl⟩ := checked_eq_some_iff.mp hs
    refine ⟨view, c, cur.parentId, c.slug, pp, h.movable List.mem_cons_self, rfl, hc,
      (h.child List.mem_cons_self).2.1, rfl, rfl, ?_⟩
    intro x hx
    cases hx
    exact ⟨h, rfl, rfl, rfl⟩

theorem cascade_leaf (hleaf : ∀ r ∈ view.toList, r.parentId ≠ some cur.id) (n : Nat) :
    cascade view n [cur.id] = [cur.id] := by
  cases n with
  | zero => rfl
  | succ n =>
    have hnone : (view.toList.filter fun r => r.parentId.any (· ∈ [cur.id])) = [] := by
      refine List.filter_eq_nil_iff.mpr fun r hr hany => ?_
      cases hp : r.parentId with
      | none => simp [hp] at hany
      | some p => exact hleaf r hr (by simpa [hp] using hany)
    rw [cascade, hnone]
    rfl

theorem tree_remove (h : Tree view) (hleaf : ∀ r ∈ view.toList, r.parentId ≠ some cur.id) :
    Tree (applyWrite view (.delete cur.id)) := by
  have hmem : ∀ {r}, r ∈ (applyWrite view (.delete cur.id)).toList ↔ r ∈ view.toList ∧ r.id ≠ cur.id := by
    intro r
    show r ∈ view.toList.filter _ ↔ _
    rw [List.mem_filter, decide_eq_true_iff]
  refine ⟨fun r hr => h.slug r (hmem.mp hr).1, fun r hr => ?_,
    fun r hr r' hr' => h.unique r (hmem.mp hr).1 r' (hmem.mp hr').1⟩
  obtain ⟨q, hq, hpath⟩ := h.path r (hmem.mp hr).1
  refine ⟨q, ?_, hpath⟩
  cases hp : r.parentId with
  | none =>
    rw [hp] at hq
    exact hq
  | some p =>
    rw [hp] at hq
    obtain ⟨m, hm, rfl, hrest⟩ := hq
    exact ⟨m, hmem.mpr ⟨hm, fun hid => hleaf r (hmem.mp hr).1 (hid ▸ hp)⟩, rfl, hrest⟩

theorem ok_remove (h : StageOk req view (.remove cur))
    (hs : statement req view (.remove cur) = some (writes, next)) : StageOk req (applyAll view writes) next := by
  obtain ⟨htree, -, hleaf⟩ := h
  rw [statement, cascade_leaf hleaf] at hs
  cases hs
  exact tree_remove htree hleaf

/-- **Each statement keeps what the handler knows.** -/
theorem statement_ok (h : StageOk req view stage)
    (hs : statement req view stage = some (writes, next)) : StageOk req (applyAll view writes) next := by
  cases stage with
  | start => exact ok_start h hs
  | insert => exact ok_insert h hs
  | resolve => exact ok_resolve h hs
  | relocate => exact ok_relocate h hs
  | rewrite => exact ok_rewrite h hs
  | resolveParent => exact ok_resolveParent h hs
  | selectChildren => exact ok_selectChildren h hs
  | reparent => exact ok_reparent h hs
  | remove => exact ok_remove h hs
  | done => cases hs

/-- **A handler on its own takes a tree to a tree.** -/
theorem alone_tree {n : Nat} {ops : List Write} (h : StageOk req (applyAll t writes) stage)
    (halone : alone req t n stage writes = some ops) : Tree (applyAll t ops) := by
  induction n generalizing stage writes with
  | zero => cases halone
  | succ n ih =>
    rw [alone] at halone
    split_ifs at halone with hdone
    · obtain rfl := hdone
      cases halone
      exact h
    · obtain ⟨⟨new, next⟩, hs, hrest⟩ := Option.bind_eq_some_iff.mp halone
      refine ih ?_ hrest
      rw [applyAll_append]
      exact statement_ok h hs

/-! ## A deletion on its own -/

/-- A handler on its own gets to its commit. -/
def Finishes (req : Request) (t : Table) (stage : Stage) (writes : List Write) : Prop :=
  ∃ n ops, alone req t n stage writes = some ops

theorem finishes_done : Finishes req t .done writes := ⟨1, writes, rfl⟩

theorem finishes_iff (hstage : stage ≠ .done) : Finishes req t stage writes ↔
    ∃ new next, statement req (applyAll t writes) stage = some (new, next) ∧
      Finishes req t next (writes ++ new) := by
  constructor
  · rintro ⟨n, ops, halone⟩
    cases n with
    | zero => cases halone
    | succ n =>
      rw [alone, if_neg hstage] at halone
      obtain ⟨⟨new, next⟩, hs, hrest⟩ := Option.bind_eq_some_iff.mp halone
      exact ⟨new, next, hs, n, ops, hrest⟩
  · rintro ⟨new, next, hs, n, ops, hrest⟩
    refine ⟨n + 1, ops, ?_⟩
    rw [alone, if_neg hstage, hs]
    exact hrest

theorem finishes_iff_of_statement {next : Stage} {new : List Write} (hstage : stage ≠ .done)
    (hs : statement req (applyAll t writes) stage = some (new, next)) :
    Finishes req t stage writes ↔ Finishes req t next (writes ++ new) := by
  rw [finishes_iff hstage, hs]
  constructor
  · rintro ⟨_, _, ⟨⟩, h⟩
    exact h
  · exact fun h => ⟨_, _, rfl, h⟩

/-- A folder with the parent of another one, itself among them. -/
def SiblingOf (view : Table) (cur s : Row) : Prop :=
  s ∈ view.toList ∧ s.workspaceId = cur.workspaceId ∧ s.parentId = cur.parentId

/-- None of the children is named like a folder at the place they go to. -/
def NoNamesake (view : Table) (cur : Row) (children : List Row) : Prop :=
  ∀ c ∈ children, ∀ s, SiblingOf view cur s → s.slug ≠ c.slug

theorem parentId_ne_self (h : Tree view) (hcur : cur ∈ view.toList) : cur.parentId ≠ some cur.id := by
  intro hself
  have hlt := (below_childPath cur.path cur.slug).length_lt
  rw [← (h.parent_path hcur hcur hself).2] at hlt
  exact lt_irrefl _ hlt

namespace Deleting

variable {c r s : Row} {rest : List Row} {t' : Table}

theorem sibling_path (h : Deleting t cur pp rest) (hs : SiblingOf t cur s) : s.path = childPath pp s.slug := by
  obtain ⟨hmem, hws, hparent⟩ := hs
  obtain ⟨q, hq, hpath⟩ := h.tree.path s hmem
  rw [hws, hparent] at hq
  rw [hpath, Tree.parentPath_eq hq h.parent]

theorem sibling_ne_child (h : Deleting t cur pp rest) (hc : c ∈ rest) (hs : SiblingOf t cur s) : s ≠ c := by
  rintro rfl
  exact parentId_ne_self h.tree h.mem (hs.2.2.symm.trans ((h.mem_iff s).mp hc).2)

theorem free_iff (h : Deleting t cur pp (c :: rest)) :
    constraints (t.insert (relocated c cur.parentId c.slug pp)) ↔ NoNamesake t cur [c] := by
  have hc : c ∈ c :: rest := List.mem_cons_self
  obtain ⟨hcmem, hcws, -⟩ := h.child hc
  rw [(h.movable hc).constraints_iff, NoNamesake, List.forall_mem_singleton]
  constructor
  · intro hfree s hs hslug
    have hpath := h.sibling_path hs
    rw [hslug] at hpath
    exact h.sibling_ne_child hc hs (hfree s hs.1 (hs.2.1.trans hcws) hpath)
  · intro hnone r hr hws hpath
    obtain ⟨q, hq, hrpath⟩ := h.tree.path r hr
    obtain ⟨rfl, hslug⟩ := childPath_inj (slash_notMem (h.tree.slug r hr)) (slash_notMem (h.tree.slug c hcmem))
      (hrpath.symm.trans hpath)
    have hrws : r.workspaceId = cur.workspaceId := hws.trans hcws.symm
    rw [hrws] at hq
    exact absurd hslug (hnone r ⟨hr, hrws, h.tree.parentId_eq hq h.parent⟩)

theorem sibling_after_iff (h : Deleting t cur pp (c :: rest)) (hmoved : Moved t c cur.parentId c.slug pp t') :
    SiblingOf t' cur s ↔ SiblingOf t cur s ∨ s = relocated c cur.parentId c.slug pp := by
  have hc : c ∈ c :: rest := List.mem_cons_self
  have hmove := h.movable hc
  obtain ⟨hcmem, hcws, -⟩ := h.child hc
  constructor
  · rintro ⟨hs, hws, hparent⟩
    obtain ⟨r, hr, rfl⟩ := (hmoved s).mp hs
    rcases hmove.cases hr with rfl | ⟨hrws, hrc, w, hw, heq⟩ | ⟨-, -, heq⟩
    · exact Or.inr Movable.movedRow_self
    · rw [heq] at hws hparent
      have hbelow : Below c.path r.path := ⟨w, hw⟩
      rw [h.sibling_path ⟨hr, hws, hparent⟩] at hbelow
      exact absurd hbelow (h.notBelow_childPath hc (Or.inr rfl) (slash_notMem (h.tree.slug r hr)))
    · rw [heq] at hws hparent ⊢
      exact Or.inl ⟨hr, hws, hparent⟩
  · rintro (hs | rfl)
    · have hstays := h.stays hs.1 (h.sibling_ne_child hc hs) (Or.inr rfl) (h.sibling_path hs)
      exact ⟨hstays ▸ Movable.mem_moved hmoved hs.1, hs.2⟩
    · refine ⟨?_, hcws.symm, rfl⟩
      rw [← Movable.movedRow_self]
      exact Movable.mem_moved hmoved hcmem

theorem slug_ne (h : Deleting t cur pp (c :: rest)) {d : Row} (hd : d ∈ rest) : c.slug ≠ d.slug := by
  intro hslug
  obtain ⟨hcmem, hcws, hcpath⟩ := h.child (List.mem_cons_self (a := c) (l := rest))
  obtain ⟨hdmem, hdws, hdpath⟩ := h.child (List.mem_cons_of_mem c hd)
  have hid := h.tree.unique c hcmem d hdmem (hcws.symm.trans hdws) (by rw [hcpath, hdpath, hslug])
  exact (List.nodup_cons.mp h.nodup).1 (eq_of_id_eq hcmem hdmem hid ▸ hd)

theorem noNamesake_cons_iff (h : Deleting t cur pp (c :: rest))
    (hmoved : Moved t c cur.parentId c.slug pp t') :
    NoNamesake t cur (c :: rest) ↔ NoNamesake t cur [c] ∧ NoNamesake t' cur rest := by
  constructor
  · intro hnone
    refine ⟨fun d hd => hnone d (List.mem_singleton.mp hd ▸ List.mem_cons_self), fun d hd s hs => ?_⟩
    rcases (h.sibling_after_iff hmoved).mp hs with hs | rfl
    · exact hnone d (List.mem_cons_of_mem c hd) s hs
    · exact h.slug_ne hd
  · rintro ⟨hfirst, hrest⟩ d hd s hs
    rcases List.mem_cons.mp hd with rfl | hd
    · exact hfirst d (List.mem_singleton_self d) s hs
    · exact hrest d hd s ((h.sibling_after_iff hmoved).mpr (Or.inl hs))

end Deleting

/-- **The children all go to their new place exactly when none of them is named like a folder there.** -/
theorem reparent_finishes_iff (h : Deleting (applyAll t writes) cur pp children) :
    Finishes req t (.reparent cur pp children) writes ↔ NoNamesake (applyAll t writes) cur children := by
  -- on the children that are left; each move leaves a tree to go on with
  induction children generalizing writes with
  | nil =>
    have hleaf : ∀ r ∈ (applyAll t writes).toList, r.parentId ≠ some cur.id :=
      fun r hr hparent => List.not_mem_nil ((h.mem_iff r).mpr ⟨hr, hparent⟩)
    refine iff_of_true ?_ fun c hc => absurd hc List.not_mem_nil
    have hlast : statement req (applyAll t writes) (.reparent cur pp []) = some ([], .remove cur) := rfl
    rw [finishes_iff_of_statement (by rintro ⟨⟩) hlast, finishes_iff (by rintro ⟨⟩)]
    exact ⟨_, .done, rfl, finishes_done⟩
  | cons c rest ih =>
    have hmove := h.movable (List.mem_cons_self (a := c) (l := rest))
    obtain ⟨-, hcws, -⟩ := h.child (List.mem_cons_self (a := c) (l := rest))
    -- the rows after the first statement of the move, and after the second
    have hfirst : applyAll t (writes ++ [.upsert (relocated c cur.parentId c.slug pp)]) =
        (applyAll t writes).insert (relocated c cur.parentId c.slug pp) := applyAll_append ..
    have hsecond : statement req (applyAll t (writes ++ [.upsert (relocated c cur.parentId c.slug pp)]))
        (.rewrite cur.workspaceId c.path (childPath pp c.slug) (some (cur, pp, rest))) =
        checked ((applyAll t writes).insert (relocated c cur.parentId c.slug pp))
          (rewrites c.workspaceId c.path (childPath pp c.slug)
            ((applyAll t writes).insert (relocated c cur.parentId c.slug pp))) (.reparent cur pp rest) := by
      rw [hfirst, hcws]
      rfl
    have hrest (hc : constraints ((applyAll t writes).insert (relocated c cur.parentId c.slug pp))) :=
      @ih (writes ++ [.upsert (relocated c cur.parentId c.slug pp)] ++
          rewrites c.workspaceId c.path (childPath pp c.slug)
            ((applyAll t writes).insert (relocated c cur.parentId c.slug pp)))
        (by rw [applyAll_append, hfirst]; exact h.after hmove.moved_of_statements (hmove.tree_of_constraints hc))
    rw [finishes_iff (by rintro ⟨⟩), statement_reparent_cons h,
      h.noNamesake_cons_iff hmove.moved_of_statements, ← h.free_iff]
    constructor
    · rintro ⟨new, next, hs, hfin⟩
      obtain ⟨hc, rfl, rfl⟩ := checked_eq_some_iff.mp hs
      obtain ⟨new, next, hs', hfin⟩ := (finishes_iff (by rintro ⟨⟩)).mp hfin
      rw [hsecond] at hs'
      obtain ⟨-, rfl, rfl⟩ := checked_eq_some_iff.mp hs'
      have hnone := (hrest hc).mp hfin
      rw [applyAll_append, hfirst] at hnone
      exact ⟨hc, hnone⟩
    · rintro ⟨hc, hnone⟩
      have htree := hmove.tree_of_constraints hc
      refine ⟨_, _, checked_of hc, ?_⟩
      rw [finishes_iff_of_statement (by rintro ⟨⟩) (hsecond.trans (checked_of htree.constraints))]
      refine (hrest hc).mpr ?_
      rw [applyAll_append, hfirst]
      exact hnone

def childrenOf (t : Table) (cur : Row) : List Row := t.toList.filter fun r => r.parentId = some cur.id

/-- **A `delete_folder` on its own goes through exactly when no child of the folder is named like a folder
with the deleted folder's parent, the deleted folder among them.** -/
theorem delete_finishes_iff (h : Tree t) (hcur : cur ∈ t.toList) :
    Finishes (.delete cur.id) t .start [] ↔ NoNamesake t cur (childrenOf t cur) := by
  have hstart : statement (.delete cur.id) t .start = some ([], .resolveParent cur) := by
    simp only [statement, KeyedList.get?_of_mem hcur, Option.map_some]
  have hparent : ∃ pp, statement (.delete cur.id) t (.resolveParent cur) = some ([], .selectChildren cur pp) := by
    simp only [statement]
    cases cur.parentId with
    | none => exact ⟨_, rfl⟩
    | some p => exact ⟨_, rfl⟩
  obtain ⟨pp, hparent⟩ := hparent
  have hsel : StageOk (.delete cur.id) t (.selectChildren cur pp) := ok_resolveParent ⟨h, hcur⟩ hparent
  have hchildren : statement (.delete cur.id) t (.selectChildren cur pp) =
      some ([], .reparent cur pp (childrenOf t cur)) := rfl
  have hdel : Deleting (applyAll t []) cur pp (childrenOf t cur) := ok_selectChildren hsel hchildren
  rw [finishes_iff_of_statement (by rintro ⟨⟩) hstart, finishes_iff_of_statement (by rintro ⟨⟩) hparent,
    finishes_iff_of_statement (by rintro ⟨⟩) hchildren]
  exact reparent_finishes_iff hdel

end Statements

end Folders

end Mekhan

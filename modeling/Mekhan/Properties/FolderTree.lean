import Mekhan.Folders.Handlers

/-!
# The folders stay a tree

Two moves that read before either of them commits pass the cycle guard both, and a rewrite that matches on
an old prefix misses a folder that was moved away from it in between.
-/

namespace Mekhan

namespace Folders

open Infra

/-! ## The tree of the claim -/

/-- No folder is below itself, and each path is its parent's with its own slug. -/
structure TreeOk (t : Table) : Prop where
  acyclic : ∀ i, ¬ Relation.TransGen (ParentOf t) i i
  path : ∀ r ∈ t.toList, ∃ pp, ParentPath t r.workspaceId r.parentId pp ∧ r.path = childPath pp r.slug
  unique : ∀ r ∈ t.toList, ∀ r' ∈ t.toList, r.workspaceId = r'.workspaceId → r.path = r'.path → r.id = r'.id

variable {s s' : State} {t view : Table} {req : Request} {next : Stage} {new : List Write} {i : Nat}

theorem Tree.ok (h : Tree t) : TreeOk t := ⟨h.acyclic, h.path, h.unique⟩

/-- A child has the name of a folder that stays next to it. -/
def MeetsSibling (t : Table) (cur : Row) : Prop :=
  ∃ c ∈ childrenOf t cur, ∃ s, SiblingOf t cur s ∧ s.id ≠ cur.id ∧ s.slug = c.slug

/-- A `delete_folder` on its own fails only for a remaining sibling. -/
def FailsForSiblingOnly (t : Table) (cur : Row) : Prop :=
  ¬ Finishes (.delete cur.id) t .start [] → MeetsSibling t cur

/-- A child is named like the folder itself, and none is named like a remaining sibling. -/
def Namesake (t : Table) (cur : Row) : Prop :=
  (∃ c ∈ childrenOf t cur, c.slug = cur.slug) ∧ ¬ MeetsSibling t cur

theorem failsForSiblingOnly_iff {cur : Row} (h : Tree t) (hcur : cur ∈ t.toList) :
    FailsForSiblingOnly t cur ↔ ¬ Namesake t cur := by
  have hfails : ¬ Finishes (.delete cur.id) t .start [] ↔
      (∃ c ∈ childrenOf t cur, c.slug = cur.slug) ∨ MeetsSibling t cur := by
    rw [delete_finishes_iff h hcur, NoNamesake]
    push Not
    constructor
    · rintro ⟨c, hc, s, hs, hslug⟩
      by_cases hid : s.id = cur.id
      · rw [eq_of_id_eq hs.1 hcur hid] at hslug
        exact Or.inl ⟨c, hc, hslug.symm⟩
      · exact Or.inr ⟨c, hc, s, hs, hid, hslug⟩
    · rintro (⟨c, hc, hslug⟩ | ⟨c, hc, s, hs, -, hslug⟩)
      · exact ⟨c, hc, cur, ⟨hcur, rfl, rfl⟩, hslug.symm⟩
      · exact ⟨c, hc, s, hs, hslug⟩
  rw [FailsForSiblingOnly, hfails, Namesake]
  by_cases hmeets : MeetsSibling t cur
  · simp [hmeets]
  · simp [hmeets]

/-! ## Reads that are up to date -/

/-- What an open transaction read when it wrote, it would read and write in the same way from the rows
committed now: for an insert, the parent's path; at a commit, everything. -/
def Current (s : State) : Act → Prop
  | .begin _ => True
  | .run i => ∀ tx ∈ s.txs[i]?, ∀ pp, tx.stage = .insert pp →
      statement tx.request s.table .start = some ([], .insert pp)
  | .commit i => ∀ tx ∈ s.txs[i]?, ∃ n, alone tx.request s.table n .start [] = some tx.writes
  | .abort _ => True

/-! ## Runs -/

def Stage.opening : Stage → Bool
  | .start | .insert _ => true
  | _ => false

/-- The tree; a transaction that is opening has nothing to write. -/
structure Inv (s : State) : Prop where
  tree : Tree s.table
  opening : ∀ tx ∈ s.txs, tx.stage.opening = true → tx.writes = []

theorem insert_next {pp : List Char}
    (hs : statement req view (.insert pp) = some (new, next)) : next = .done := by
  cases req with
  | create id ws parent slug =>
    simp only [statement] at hs
    obtain ⟨-, hs⟩ := Option.ite_none_right_eq_some.mp hs
    exact (checked_eq_some_iff.mp hs).2.2.symm
  | update folderId slug parent => cases hs
  | delete folderId => cases hs

theorem statement_opening {stage : Stage}
    (hs : statement req view stage = some (new, next)) (hnext : next.opening = true) : stage = .start ∧ new = [] := by
  cases stage with
  | start =>
    cases req with
    | create id ws parent slug =>
      simp only [statement] at hs
      obtain ⟨-, hs⟩ := Option.ite_none_right_eq_some.mp hs
      cases parent with
      | none =>
        cases hs
        exact ⟨rfl, rfl⟩
      | some p =>
        obtain ⟨r, -, hs⟩ := Option.bind_eq_some_iff.mp hs
        obtain ⟨-, hs⟩ := Option.ite_none_right_eq_some.mp hs
        cases hs
        exact ⟨rfl, rfl⟩
    | update folderId slug parent =>
      obtain ⟨current, -, hs⟩ := Option.bind_eq_some_iff.mp hs
      obtain ⟨-, hs⟩ := Option.ite_none_right_eq_some.mp hs
      split_ifs at hs
      all_goals
        cases hs
        cases hnext
    | delete folderId =>
      obtain ⟨current, -, hs⟩ := Option.map_eq_some_iff.mp hs
      cases hs
      cases hnext
  | insert pp =>
    obtain rfl := insert_next hs
    cases hnext
  | resolve cur np slug =>
    cases np with
    | none =>
      cases hs
      cases hnext
    | some p =>
      simp only [statement] at hs
      obtain ⟨-, hs⟩ := Option.ite_none_left_eq_some.mp hs
      obtain ⟨r, -, hs⟩ := Option.bind_eq_some_iff.mp hs
      obtain ⟨-, hs⟩ := Option.ite_none_left_eq_some.mp hs
      obtain ⟨-, hs⟩ := Option.ite_none_left_eq_some.mp hs
      cases hs
      cases hnext
  | relocate cur np slug pp =>
    obtain ⟨row, -, hs⟩ := Option.bind_eq_some_iff.mp hs
    obtain ⟨-, -, rfl⟩ := checked_eq_some_iff.mp hs
    cases hnext
  | rewrite ws old new rest =>
    obtain ⟨-, -, rfl⟩ := checked_eq_some_iff.mp hs
    cases rest with
    | none => cases hnext
    | some x => cases hnext
  | resolveParent cur =>
    simp only [statement] at hs
    split at hs
    all_goals
      cases hs
      cases hnext
  | selectChildren cur pp =>
    cases hs
    cases hnext
  | reparent cur pp children =>
    cases children with
    | nil =>
      cases hs
      cases hnext
    | cons c rest =>
      obtain ⟨-, -, rfl⟩ := checked_eq_some_iff.mp hs
      cases hnext
  | remove cur =>
    cases hs
    cases hnext
  | done => cases hs

theorem inv_start : Inv State.start := ⟨Tree.empty, fun _ h => absurd h List.not_mem_nil⟩

theorem inv_erase (h : Inv s) (ht : Tree t) :
    Inv ⟨t, s.txs.eraseIdx i⟩ := ⟨ht, fun tx htx => h.opening tx (List.mem_of_mem_eraseIdx htx)⟩

theorem inv_run (h : Inv s) (hc : Current s (.run i)) (hs : step s (.run i) = some s') : Inv s' := by
  obtain ⟨tx, htx, hs⟩ := Option.bind_eq_some_iff.mp hs
  have hmem : tx ∈ s.txs := List.mem_of_getElem? htx
  obtain ⟨-, hs⟩ := Option.ite_none_left_eq_some.mp hs
  cases hstmt : statement tx.request (s.view tx) tx.stage with
  | none =>
    rw [hstmt] at hs
    cases hs
    exact inv_erase h h.tree
  | some out =>
    obtain ⟨new, next⟩ := out
    rw [hstmt] at hs
    obtain ⟨-, hs⟩ := Option.ite_none_left_eq_some.mp hs
    by_cases hins : ∃ pp, tx.stage = .insert pp
    · -- the insert commits at once
      obtain ⟨pp, hpp⟩ := hins
      rw [hpp] at hs hstmt
      cases hs
      have hok : StageOk tx.request s.table (.insert pp) := ok_start h.tree (hc tx htx pp hpp)
      have hview : s.view tx = s.table := by rw [State.view, h.opening tx hmem (by rw [hpp]; rfl)]; rfl
      rw [hview] at hstmt
      have hdone := ok_insert hok hstmt
      rw [insert_next hstmt] at hdone
      exact inv_erase h hdone
    · have hs : some { s with txs := s.txs.set i { tx with stage := next, writes := tx.writes ++ new } } =
          some s' := by
        split at hs
        · exact absurd ⟨_, ‹_›⟩ hins
        · exact hs
      cases hs
      refine ⟨h.tree, fun tx' htx' => ?_⟩
      rcases List.mem_or_eq_of_mem_set htx' with htx' | rfl
      · exact h.opening tx' htx'
      · intro hnext
        obtain ⟨hfirst, rfl⟩ := statement_opening hstmt hnext
        show tx.writes ++ [] = []
        rw [h.opening tx hmem (by rw [hfirst]; rfl)]
        rfl

/-- **A step that rests on reads that are up to date keeps the tree.** -/
theorem inv_step {act : Act} (h : Inv s) (hc : Current s act) (hs : step s act = some s') : Inv s' := by
  cases act with
  | begin req =>
    cases hs
    refine ⟨h.tree, fun tx htx => ?_⟩
    rcases List.mem_append.mp htx with htx | htx
    · exact h.opening tx htx
    · obtain rfl := List.mem_singleton.mp htx
      exact fun _ => rfl
  | run i => exact inv_run h hc hs
  | commit i =>
    obtain ⟨tx, htx, hs⟩ := Option.bind_eq_some_iff.mp hs
    obtain ⟨-, hs⟩ := Option.ite_none_right_eq_some.mp hs
    cases hs
    obtain ⟨n, halone⟩ := hc tx htx
    have hok : StageOk tx.request (applyAll s.table []) .start := h.tree
    exact inv_erase h (alone_tree hok halone)
  | abort i =>
    obtain ⟨-, hs⟩ := Option.ite_none_right_eq_some.mp hs
    cases hs
    exact inv_erase h h.tree

theorem inv_of_run {as : List Act} (hc : Along step Current State.start as)
    (hs : exec step State.start as = some s) : Inv s :=
  exec_invariant_along (fun _ _ _ => inv_step) inv_start hc hs

/-! ## Runs of the handlers -/

def created (id : Id) (parentId : Option Id) (slug : List Char) : List Act :=
  [.begin (.create id 0 parentId slug), .run 0, .run 0]

theorem exists_of_any (as : List Act) (p : State → Bool) (h : (exec step State.start as).any p = true) :
    ∃ s, exec step State.start as = some s ∧ p s = true := by
  cases hs : exec step State.start as with
  | none =>
    rw [hs] at h
    cases h
  | some s =>
    rw [hs] at h
    exact ⟨s, rfl, h⟩

/-- **Where every commit rests on reads that are up to date, the folders are a tree in every state, and a
deletion on its own fails only for a remaining sibling unless a child is a namesake of the folder alone.** -/
theorem folder_tree {as : List Act} {s : State} (hs : exec step State.start as = some s)
    (hc : Along step Current State.start as) :
    TreeOk s.table ∧ ∀ cur ∈ s.table.toList, FailsForSiblingOnly s.table cur ↔ ¬ Namesake s.table cur := by
  have h := inv_of_run hc hs
  exact ⟨h.tree.ok, fun cur hcur => failsForSiblingOnly_iff h.tree hcur⟩

/-- `/a` and `/b`, and then `/b` is moved below `/a`. -/
def movedBelow : List Act :=
  created 1 none ['a'] ++ created 2 none ['b'] ++
    [.begin (.update 2 none (some 1)), .run 0, .run 0, .run 0, .run 0, .commit 0]

theorem current_movedBelow : Along step Current State.start movedBelow := by
  refine along_cons trivial rfl (along_cons ?_ rfl (along_cons ?_ rfl (along_cons trivial rfl
    (along_cons ?_ rfl (along_cons ?_ rfl (along_cons trivial rfl (along_cons ?_ rfl (along_cons ?_ rfl
      (along_cons ?_ rfl (along_cons ?_ rfl (along_cons ?_ rfl trivial)))))))))))
  case refine_9 =>
    rintro tx ⟨⟩
    exact ⟨5, rfl⟩
  all_goals
    rintro tx ⟨⟩ pp hstage
    cases hstage
  · rfl
  · rfl

theorem folder_tree_movedBelow : ∃ s, exec step State.start movedBelow = some s ∧
    TreeOk s.table ∧ ∀ cur ∈ s.table.toList, FailsForSiblingOnly s.table cur ↔ ¬ Namesake s.table cur := by
  obtain ⟨s, hs, -⟩ := exists_of_any movedBelow (fun _ => true) (by decide)
  exact ⟨s, hs, folder_tree hs current_movedBelow⟩

/-- `/a` and `/b`; then `/b` is to be moved below `/a`, and `/a` is moved below `/b` in between. -/
def crossedMoves : List Act :=
  created 1 none ['a'] ++ created 2 none ['b'] ++
    [.begin (.update 2 none (some 1)), .run 0, .run 0] ++
    [.begin (.update 1 none (some 2)), .run 1, .run 1, .run 1, .run 1, .commit 1] ++
    [.run 0, .run 0, .commit 0]

/-- `/a` and `/a/a`. -/
def namesakes : List Act := created 1 none ['a'] ++ created 2 (some 1) ['a']

theorem current_namesakes : Along step Current State.start namesakes := by
  refine along_cons trivial rfl (along_cons ?_ rfl (along_cons ?_ rfl
    (along_cons trivial rfl (along_cons ?_ rfl (along_cons ?_ rfl trivial)))))
  all_goals
    rintro tx ⟨⟩ pp hstage
    cases hstage
  · rfl
  · rfl

/-- **Crossed moves make a cycle, and a folder is not deleted because of its own name.** -/
theorem tree_broken : (∃ s, exec step State.start crossedMoves = some s ∧ ¬ TreeOk s.table) ∧
    ∃ s, exec step State.start namesakes = some s ∧
      ∃ cur ∈ s.table.toList, ¬ FailsForSiblingOnly s.table cur := by
  refine ⟨?cycle, ?deletion⟩
  case cycle =>
    obtain ⟨s, hs, hcycle⟩ := exists_of_any crossedMoves
      (fun s => decide ((∃ r ∈ s.table.toList, r.id = 1 ∧ r.parentId = some 2) ∧
        ∃ r ∈ s.table.toList, r.id = 2 ∧ r.parentId = some 1)) (by decide)
    obtain ⟨hab, hba⟩ := of_decide_eq_true hcycle
    exact ⟨s, hs, fun hok => hok.acyclic 1 ((Relation.TransGen.single hab).tail hba)⟩
  case deletion =>
    obtain ⟨s, hs, halone⟩ := exists_of_any namesakes
      (fun s => decide (∃ cur ∈ s.table.toList, (∃ c ∈ childrenOf s.table cur, c.slug = cur.slug) ∧
        ∀ r ∈ s.table.toList, r.parentId = cur.parentId → r.id = cur.id)) (by decide)
    obtain ⟨cur, hcur, hchild, hothers⟩ := of_decide_eq_true halone
    refine ⟨s, hs, cur, hcur, ?_⟩
    rw [failsForSiblingOnly_iff (inv_of_run current_namesakes hs).tree hcur, not_not]
    refine ⟨hchild, ?_⟩
    rintro ⟨c, -, r, ⟨hr, -, hparent⟩, hid, -⟩
    exact hid (hothers r hr hparent)

end Folders

end Mekhan

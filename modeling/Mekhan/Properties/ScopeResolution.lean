import Mekhan.Infra.Returns
import Mekhan.Scope.Resolution

/-!
# The most specific visible definition

What a binding context sees is a chain: the platform, a workspace, the folders above the home folder and the
template. No two owners on the chain rank alike, so of the definitions of a ref key one outranks the others.
-/

namespace Mekhan

namespace Scopes

open Infra Grants

/-! ## The chain of folders -/

/-- A folder is the home folder or one of its ancestors, segment by segment. -/
def Above (home f : Folder) : Prop := f.workspaceId = home.workspaceId ∧ f.segments <+: home.segments

/-- The folders that `CHAIN_SQL` returns, in its order; none where the home folder does not exist. -/
def chain (db : Db) (home : Option Folder) : List Folder :=
  home.elim [] fun home =>
    (db.folders.toList.filter fun f =>
      f.workspaceId = home.workspaceId && pathAbove (pathText home.segments) (pathText f.segments)).insertionSort
        fun f g => (pathText g.segments).length ≤ (pathText f.segments).length

theorem pathAbove_iff {home f : Folder} :
    pathAbove (pathText home.segments) (pathText f.segments) = true ↔ f.segments <+: home.segments := by
  have htake : (pathText home.segments).take ((pathText f.segments).length + 1) = pathText f.segments ++ ['/'] ↔
      ∃ r, pathText home.segments = pathText f.segments ++ '/' :: r := by
    constructor
    · intro h
      refine ⟨(pathText home.segments).drop ((pathText f.segments).length + 1), ?_⟩
      conv_lhs => rw [← List.take_append_drop ((pathText f.segments).length + 1) (pathText home.segments), h]
      rw [List.append_assoc]
      rfl
    · rintro ⟨r, hr⟩
      have hsplit : pathText f.segments ++ '/' :: r = (pathText f.segments ++ ['/']) ++ r := by simp
      rw [hr, hsplit]
      exact List.take_left' (by simp)
  rw [pathAbove, Bool.or_eq_true, beq_iff_eq, beq_iff_eq, htake, below_iff f.segments_ok home.segments_ok]
  constructor
  · rintro (heq | ⟨s, c, hc⟩)
    · rw [pathText_inj home.segments_ok f.segments_ok heq]
    · exact ⟨s :: c, hc.symm⟩
  · rintro ⟨c, hc⟩
    cases c with
    | nil => exact .inl (by rw [← hc, List.append_nil])
    | cons s c => exact .inr ⟨s, c, hc.symm⟩

variable {db : Db} {home : Option Folder} {f g : Folder}

theorem mem_chain : f ∈ chain db home ↔ f ∈ db.folders.toList ∧ ∃ h ∈ home, Above h f := by
  cases home with
  | none => simp [chain]
  | some home =>
    rw [chain, Option.elim_some, (List.perm_insertionSort _ _).mem_iff, List.mem_filter, Bool.and_eq_true,
      decide_eq_true_eq, pathAbove_iff]
    exact and_congr_right fun _ => ⟨fun h => ⟨home, rfl, h⟩, fun ⟨_, hh, h⟩ => Option.some.inj hh ▸ h⟩

theorem chain_nodup (db : Db) (home : Option Folder) : ((chain db home).map (·.id)).Nodup := by
  cases home with
  | none => exact List.nodup_nil
  | some home =>
    exact (((List.perm_insertionSort _ _).map _).nodup_iff).mpr
      (db.folders.nodup.sublist (List.filter_sublist.map _))

theorem eq_of_depth_eq (hf : f ∈ chain db home) (hg : g ∈ chain db home)
    (h : f.segments.length = g.segments.length) : f.id = g.id := by
  obtain ⟨hfmem, h₀, hh₀, hfws, hfpre⟩ := mem_chain.mp hf
  obtain ⟨hgmem, h₁, hh₁, hgws, hgpre⟩ := mem_chain.mp hg
  obtain rfl : h₀ = h₁ := Option.some.inj (hh₀.symm.trans hh₁)
  have hsegs : f.segments = g.segments := by
    rcases List.prefix_or_prefix_of_prefix hfpre hgpre with hpre | hpre
    · exact hpre.eq_of_length h
    · exact (hpre.eq_of_length h.symm).symm
  exact db.unique f hfmem g hgmem (hfws.trans hgws.symm) (by rw [hsegs])

theorem chain_sorted (db : Db) (home : Option Folder) :
    (chain db home).Pairwise fun f g => (pathText g.segments).length ≤ (pathText f.segments).length := by
  have : Std.Total fun f g : Folder => (pathText g.segments).length ≤ (pathText f.segments).length :=
    ⟨fun f g => le_total _ _⟩
  have : IsTrans Folder fun f g => (pathText g.segments).length ≤ (pathText f.segments).length :=
    ⟨fun _ _ _ hab hbc => le_trans hbc hab⟩
  cases home with
  | none => exact List.Pairwise.nil
  | some home => exact List.pairwise_insertionSort _ _

/-- **The deepest folder comes first.** -/
theorem chain_pairwise (db : Db) (home : Option Folder) :
    (chain db home).Pairwise fun f g => g.segments.length < f.segments.length := by
  have hids : (chain db home).Pairwise fun f g => f.id ≠ g.id := List.pairwise_map.mp (chain_nodup db home)
  refine ((chain_sorted db home).and hids).imp_of_mem fun {f g} hf hg hfg => ?_
  obtain ⟨hle, hne⟩ := hfg
  obtain ⟨-, h₀, hh₀, -, hfpre⟩ := mem_chain.mp hf
  obtain ⟨-, h₁, hh₁, -, hgpre⟩ := mem_chain.mp hg
  obtain rfl : h₀ = h₁ := Option.some.inj (hh₀.symm.trans hh₁)
  have hpre := (length_le_iff hgpre hfpre).mp hle
  exact lt_of_le_of_ne hpre.length_le fun heq => hne (eq_of_depth_eq hf hg heq.symm)

theorem length_le_pathText (segs : List (List Char)) : segs.length ≤ (pathText segs).length := by
  induction segs with
  | nil => exact le_rfl
  | cons s segs ih =>
    rw [pathText_cons, List.length_append, List.length_cons, List.length_cons]
    omega

theorem chain_length_le (db : Db) (home : Option Folder) : (chain db home).length ≤ 2 ^ 30 := by
  cases home with
  | none => exact Nat.zero_le _
  | some home =>
    have hnodup : ((chain db home).map (·.segments.length)).Nodup :=
      List.pairwise_map.mpr ((chain_pairwise db home).imp fun h heq => absurd h (by omega))
    have hsub : (chain db home).map (·.segments.length) ⊆ List.range (home.segments.length + 1) := by
      intro n hn
      obtain ⟨f, hf, rfl⟩ := List.mem_map.mp hn
      obtain ⟨-, h₀, hh₀, -, hpre⟩ := mem_chain.mp hf
      cases hh₀
      exact List.mem_range.mpr (Nat.lt_succ_of_le hpre.length_le)
    have hle := (hnodup.subperm hsub).length_le
    rw [List.length_map, List.length_range] at hle
    have hshort := home.short
    have hsegs := length_le_pathText home.segments
    omega

def homeOf (db : Db) (kind : ScopeKind) (scopeId : Grants.Uuid) : Option Folder :=
  match kind with
  | .folder => db.folders.get? scopeId
  | .template =>
    (db.templateFolders.get? ((db.templates.get? scopeId).elim scopeId (·.baseId))).bind fun home =>
      db.folders.get? home.folderId
  | _ => none

theorem homeChain_eq (db : Db) (baseId : Grants.Uuid) : homeChain db baseId =
      (chain db ((db.templateFolders.get? baseId).bind fun home => db.folders.get? home.folderId)).map (·.id) := by
  rw [homeChain]
  cases db.templateFolders.get? baseId <;> rfl

theorem folders_visibleScopesFor (db : Db) (kind : ScopeKind) (scopeId : Grants.Uuid) :
    (visibleScopesFor db kind scopeId).folders = (chain db (homeOf db kind scopeId)).map (·.id) := by
  cases kind with
  | platform => rfl
  | workspace => rfl
  | folder => rfl
  | template =>
    rw [visibleScopesFor, homeOf]
    cases db.templates.get? scopeId with
    | none => exact homeChain_eq db scopeId
    | some t => exact homeChain_eq db t.baseId

/-! ## Specificity -/

def depth (db : Db) (id : Grants.Uuid) : Nat := (db.folders.get? id).elim 0 (·.segments.length)

def kindRank : ScopeKind → Nat
  | .platform => 0
  | .workspace => 1
  | .folder => 2
  | .template => 3

/-- A template over a folder, a deeper folder over a shallower one, a folder over a workspace, and a workspace over
the platform. -/
def Outranks (db : Db) (s t : Scope) : Prop :=
  kindRank t.kind < kindRank s.kind ∨ s.kind = .folder ∧ t.kind = .folder ∧ depth db t.id < depth db s.id

/-- The least and the greatest specificity of a kind. -/
def band : ScopeKind → Nat × Nat
  | .platform => (0, 0)
  | .workspace => (1, 1)
  | .folder => (2, 2 ^ 30 + 1)
  | .template => (2 ^ 32 - 1, 2 ^ 32 - 1)

theorem band_lt {k k' : ScopeKind} (h : kindRank k < kindRank k') : (band k).2 < (band k').1 := by
  cases k <;> cases k' <;> first | exact absurd h (by decide) | decide

theorem kind_eq_of_rank_eq {k k' : ScopeKind} (h : kindRank k = kindRank k') : k = k' := by
  cases k <;> cases k' <;> first | rfl | exact absurd h (by decide)

section

variable {visible : VisibleScopes} (hfolders : visible.folders = (chain db home).map (·.id))

include hfolders

theorem folderRank_getElem {i : Nat} (hi : i < (chain db home).length) :
    visible.folderRank (chain db home)[i].id = some ((chain db home).length - i) := by
  have hidx : visible.folders.idxOf? (chain db home)[i].id = some i := by
    rw [List.idxOf?_eq_some_iff, hfolders]
    refine ⟨by simpa using hi, by simp, fun j hj => ?_⟩
    have hne := List.pairwise_iff_getElem.mp (chain_nodup db home) j i (by simp; omega) (by simpa using hi) hj
    simpa using hne
  rw [VisibleScopes.folderRank, hidx, hfolders, List.length_map]
  rfl

variable {s t : Scope}

theorem exists_specificity_folder (hkind : s.kind = .folder) (hs : visible.contains s = true) :
    ∃ i, ∃ hi : i < (chain db home).length, (chain db home)[i].id = s.id ∧
      specificity s visible = (chain db home).length - i + 1 ∧
        depth db s.id = (chain db home)[i].segments.length := by
  have hmem : s.id ∈ (chain db home).map (·.id) := by
    rw [VisibleScopes.contains, hkind] at hs
    exact hfolders ▸ List.contains_iff_mem.mp hs
  obtain ⟨f, hf, hid⟩ := List.mem_map.mp hmem
  obtain ⟨i, hi, rfl⟩ := List.getElem_of_mem hf
  have hlen := chain_length_le db home
  refine ⟨i, hi, hid, ?_, ?_⟩
  · rw [specificity, hkind]
    simp only [← hid, folderRank_getElem hfolders hi, Option.map_some, Option.getD_some]
    omega
  · rw [depth, ← hid, KeyedList.get?_of_mem (mem_chain.mp hf).1]
    rfl

theorem specificity_mem_band (hs : visible.contains s = true) :
    (band s.kind).1 ≤ specificity s visible ∧ specificity s visible ≤ (band s.kind).2 := by
  cases hkind : s.kind with
  | folder =>
    obtain ⟨i, hi, -, hspec, -⟩ := exists_specificity_folder hfolders hkind hs
    have hlen := chain_length_le db home
    exact ⟨show 2 ≤ _ by omega, show _ ≤ 2 ^ 30 + 1 by omega⟩
  | platform => rw [specificity, hkind]; exact ⟨le_rfl, le_rfl⟩
  | workspace => rw [specificity, hkind]; exact ⟨le_rfl, le_rfl⟩
  | template => rw [specificity, hkind]; exact ⟨le_rfl, le_rfl⟩

theorem specificity_folder_lt_iff (hskind : s.kind = .folder) (htkind : t.kind = .folder)
    (hs : visible.contains s = true) (ht : visible.contains t = true) :
    (specificity t visible < specificity s visible ↔ depth db t.id < depth db s.id) ∧
      (specificity t visible = specificity s visible → s.id = t.id) := by
  obtain ⟨i, hi, hsid, hsspec, hsdepth⟩ := exists_specificity_folder hfolders hskind hs
  obtain ⟨j, hj, htid, htspec, htdepth⟩ := exists_specificity_folder hfolders htkind ht
  have hdeeper := List.pairwise_iff_getElem.mp (chain_pairwise db home)
  rw [hsdepth, htdepth]
  rcases Nat.lt_trichotomy i j with hlt | rfl | hgt
  · have := hdeeper i j hi hj hlt
    exact ⟨by omega, by omega⟩
  · exact ⟨by omega, fun _ => hsid.symm.trans htid⟩
  · have := hdeeper j i hj hi hgt
    exact ⟨by omega, by omega⟩

/-- **Among visible owners, the specificity is the order of the owners.** -/
theorem specificity_lt_iff (hs : visible.contains s = true) (ht : visible.contains t = true) :
    specificity t visible < specificity s visible ↔ Outranks db s t := by
  have hsband := specificity_mem_band hfolders hs
  have htband := specificity_mem_band hfolders ht
  rcases Nat.lt_trichotomy (kindRank t.kind) (kindRank s.kind) with hlt | heq | hgt
  · have := band_lt hlt
    exact iff_of_true (by omega) (.inl hlt)
  · have hkind := kind_eq_of_rank_eq heq
    by_cases hfolder : s.kind = .folder
    · rw [(specificity_folder_lt_iff hfolders hfolder (hkind.trans hfolder) hs ht).1, Outranks]
      exact ⟨fun h => .inr ⟨hfolder, hkind.trans hfolder, h⟩,
        fun h => h.elim (fun h => absurd heq h.ne) fun h => h.2.2⟩
    · have hsame : specificity t visible = specificity s visible := by
        rw [specificity, specificity, hkind]
        cases hs : s.kind <;> first | rfl | exact absurd hs hfolder
      refine iff_of_false hsame.not_lt ?_
      rintro (hlt | ⟨hs, -⟩)
      · exact absurd heq hlt.ne
      · exact hfolder hs
  · have := band_lt hgt
    refine iff_of_false (by omega) ?_
    rintro (hlt | ⟨hs, ht, -⟩)
    · exact absurd hgt hlt.asymm
    · rw [hs, ht] at hgt
      exact absurd hgt (Nat.lt_irrefl _)

theorem eq_of_specificity_eq (hs : visible.contains s = true) (ht : visible.contains t = true)
    (h : specificity s visible = specificity t visible) : s = t := by
  have hsband := specificity_mem_band hfolders hs
  have htband := specificity_mem_band hfolders ht
  have hkind : s.kind = t.kind := by
    apply kind_eq_of_rank_eq
    rcases Nat.lt_trichotomy (kindRank s.kind) (kindRank t.kind) with hlt | heq | hgt
    · have := band_lt hlt
      omega
    · exact heq
    · have := band_lt hgt
      omega
  have hid : s.id = t.id := by
    unfold VisibleScopes.contains at hs ht
    cases hs' : s.kind with
    | platform => rw [s.platform hs', t.platform (hkind.symm.trans hs')]
    | workspace =>
      rw [hs'] at hs
      rw [hkind.symm.trans hs'] at ht
      exact Option.some.inj ((of_decide_eq_true hs).symm.trans (of_decide_eq_true ht))
    | folder =>
      exact (specificity_folder_lt_iff hfolders hs' (hkind.symm.trans hs') hs ht).2 h.symm
    | template =>
      rw [hs'] at hs
      rw [hkind.symm.trans hs'] at ht
      exact Option.some.inj ((of_decide_eq_true hs).symm.trans (of_decide_eq_true ht))
  cases s
  cases t
  cases hkind
  cases hid
  rfl

end

/-! ## Resolving -/

section

variable {T : Type} {items items' : List (ScopedItem T)} {visible : VisibleScopes}

theorem distinctScopes_length_le (items : List (ScopedItem T)) : (distinctScopes items).length ≤ items.length := by
  induction items using List.reverseRecOn with
  | nil => exact le_rfl
  | append_singleton items c ih =>
    have hstep : distinctScopes (items ++ [c]) =
        if c.scope ∈ distinctScopes items then distinctScopes items else distinctScopes items ++ [c.scope] := by
      rw [distinctScopes, List.foldl_append]
      rfl
    rw [hstep, List.length_append, List.length_singleton]
    split
    · omega
    · rw [List.length_append, List.length_singleton]
      omega

/-- No two definitions of a ref key rank alike. -/
def Ranked (visible : VisibleScopes) (items : List (ScopedItem T)) : Prop :=
  items.Pairwise fun a b => a.refKey = b.refKey → specificity a.scope visible ≠ specificity b.scope visible

theorem Ranked.candidates (h : Ranked visible items) (key : String) :
    (items.filter (·.refKey = key)).Pairwise fun a b => specificity a.scope visible ≠ specificity b.scope visible := by
  refine (h.sublist List.filter_sublist).imp_of_mem fun {a b} ha hb hab => hab ?_
  rw [of_decide_eq_true (List.mem_filter.mp ha).2, of_decide_eq_true (List.mem_filter.mp hb).2]

def winning (visible : VisibleScopes) (items : List (ScopedItem T)) (key : String) : Option (ScopedItem T) :=
  (top visible (items.filter (·.refKey = key))).head?

theorem winning_eq_some_iff (h : Ranked visible items) {key : String} {w : ScopedItem T} :
    winning visible items key = some w ↔ w ∈ items ∧ w.refKey = key ∧ ∀ other ∈ items, other.refKey = key →
      specificity other.scope visible ≤ specificity w.scope visible := by
  rw [winning, top, head?_best_eq_some_iff (h.candidates key)]
  simp only [List.mem_filter, decide_eq_true_eq, and_assoc, and_imp]

theorem winning_isSome {key : String} {item : ScopedItem T} (hitem : item ∈ items) (hkey : item.refKey = key) :
    (winning visible items key).isSome := by
  rw [winning, top, List.isSome_head?]
  exact best_ne_nil (List.ne_nil_of_mem (List.mem_filter.mpr ⟨hitem, decide_eq_true hkey⟩))

theorem winning_perm (h : Ranked visible items) (hperm : items.Perm items') (key : String) :
    winning visible items key = winning visible items' key :=
  head?_best_perm (h.candidates key) (hperm.filter _)

theorem winner_eq (h : Ranked visible items) (key : String) :
    winner visible key (items.filter (·.refKey = key)) =
      .ok ((winning visible items key).toList.map fun c => (key, c)) := by
  have hle : (top visible (items.filter (·.refKey = key))).length ≤ 1 := best_length_le_one (h.candidates key)
  rw [winner, if_neg (not_lt.mpr ((distinctScopes_length_le _).trans hle))]
  rfl

def winners (visible : VisibleScopes) (items : List (ScopedItem T)) : List (String × ScopedItem T) :=
  ((refKeys items).map fun key => (winning visible items key).toList.map fun c => (key, c)).flatten

theorem resolveRefsRanked_eq (h : Ranked visible items) :
    resolveRefsRanked visible items = .ok (winners visible items) := by
  rw [resolveRefsRanked, Returns.mapM_eq_ok fun key _ => winner_eq h key]
  rfl

theorem lookup_flatten (f : String → Option (ScopedItem T)) (key : String) : ∀ keys : List String,
    ((keys.map fun k => (f k).toList.map fun c => (k, c)).flatten).lookup key = if key ∈ keys then f key else none
  | [] => rfl
  | k :: keys => by
    rw [List.map_cons, List.flatten_cons, List.lookup_append, lookup_flatten f key keys]
    cases hk : f k with
    | none => grind
    | some c => grind

theorem mem_refKeys {key : String} : key ∈ refKeys items ↔ ∃ item ∈ items, item.refKey = key := by
  rw [refKeys, (List.perm_insertionSort _ _).mem_iff, List.mem_dedup, List.mem_map]

theorem lookup_winners (visible : VisibleScopes) (items : List (ScopedItem T)) (key : String) :
    (winners visible items).lookup key = winning visible items key := by
  rw [winners, lookup_flatten]
  split
  · rfl
  · next hno =>
    have hnone : items.filter (·.refKey = key) = [] := by
      refine List.filter_eq_nil_iff.mpr fun item hitem hkey => hno (mem_refKeys.mpr ⟨item, hitem, ?_⟩)
      exact of_decide_eq_true hkey
    rw [winning, hnone]
    rfl

theorem refKeys_perm (hperm : items.Perm items') : refKeys items = refKeys items' := by
  have hdedup := (hperm.map (·.refKey)).dedup
  exact List.Perm.eq_of_pairwise (fun a b _ _ => le_antisymm) (List.pairwise_insertionSort _ _)
    (List.pairwise_insertionSort _ _)
    (((List.perm_insertionSort _ _).trans hdedup).trans (List.perm_insertionSort _ _).symm)

theorem winners_perm (h : Ranked visible items) (hperm : items.Perm items') :
    winners visible items = winners visible items' := by
  rw [winners, winners, refKeys_perm hperm]
  exact congrArg List.flatten (List.map_congr_left fun key _ => by rw [winning_perm h hperm key])

/-- At most one item for each owner and ref key. -/
def OneEach (items : List (ScopedItem T)) : Prop :=
  items.Pairwise fun a b => ¬ (a.scope = b.scope ∧ a.refKey = b.refKey)

/-- A visible item of a ref key, over all other visible ones. -/
structure MostSpecific (db : Db) (visible : VisibleScopes) (items : List (ScopedItem T)) (key : String)
    (w : ScopedItem T) : Prop where
  mem : w ∈ items
  refKey : w.refKey = key
  contains : visible.contains w.scope = true
  outranks : ∀ other ∈ items, other.refKey = key → visible.contains other.scope = true →
    other = w ∨ Outranks db w.scope other.scope

theorem OneEach.eq_of_scope_eq (h : OneEach items) {a b : ScopedItem T} (ha : a ∈ items) (hb : b ∈ items)
    (hscope : a.scope = b.scope) (hkey : a.refKey = b.refKey) : a = b := by
  have : Std.Symm fun a b : ScopedItem T => ¬ (a.scope = b.scope ∧ a.refKey = b.refKey) :=
    ⟨fun _ _ hab heq => hab ⟨heq.1.symm, heq.2.symm⟩⟩
  by_contra hne
  exact List.Pairwise.forall h ha hb hne ⟨hscope, hkey⟩

theorem ranked_of_oneEach (hfolders : visible.folders = (chain db home).map (·.id)) (h : OneEach items) :
    Ranked visible (items.filter fun i => visible.contains i.scope) := by
  refine (h.sublist List.filter_sublist).imp_of_mem fun {a b} ha hb hab hkey hspec => hab ⟨?_, hkey⟩
  exact eq_of_specificity_eq hfolders (List.mem_filter.mp ha).2 (List.mem_filter.mp hb).2 hspec

theorem winning_iff_mostSpecific (hfolders : visible.folders = (chain db home).map (·.id)) (h : OneEach items)
    {key : String} {w : ScopedItem T} :
    winning visible (items.filter fun i => visible.contains i.scope) key = some w ↔
      MostSpecific db visible items key w := by
  rw [winning_eq_some_iff (ranked_of_oneEach hfolders h), List.mem_filter]
  constructor
  · rintro ⟨⟨hmem, hcontains⟩, hkey, hall⟩
    refine ⟨hmem, hkey, hcontains, fun other hother hokey hocontains => ?_⟩
    by_cases hscope : other.scope = w.scope
    · exact .inl (h.eq_of_scope_eq hother hmem hscope (hokey.trans hkey.symm))
    · refine .inr ((specificity_lt_iff hfolders hcontains hocontains).mp ?_)
      refine lt_of_le_of_ne (hall other (List.mem_filter.mpr ⟨hother, hocontains⟩) hokey) fun heq => hscope ?_
      exact eq_of_specificity_eq hfolders hocontains hcontains heq
  · intro hw
    refine ⟨⟨hw.mem, hw.contains⟩, hw.refKey, fun other hother hokey => ?_⟩
    obtain ⟨homem, hocontains⟩ := List.mem_filter.mp hother
    rcases hw.outranks other homem hokey hocontains with rfl | hover
    · exact le_rfl
    · exact ((specificity_lt_iff hfolders hw.contains hocontains).mpr hover).le

theorem resolveVisible_eq (hfolders : visible.folders = (chain db home).map (·.id)) (h : OneEach items) :
    resolveVisible visible items = .ok (winners visible (items.filter fun i => visible.contains i.scope)) :=
  resolveRefsRanked_eq (ranked_of_oneEach hfolders h)

theorem resolveOneVisible_eq (h : Ranked visible items) (key : String) :
    resolveOneVisible visible key items = .ok ((winners visible items).lookup key) := by
  have hsame : winning visible (items.filter (·.refKey = key)) key = winning visible items key := by
    rw [winning, winning, List.filter_filter]
    simp only [Bool.and_self]
  have hwinning : (winners visible (items.filter (·.refKey = key))).lookup key =
      (winners visible items).lookup key := by
    rw [lookup_winners, lookup_winners, hsame]
  unfold resolveOneVisible
  dsimp only
  split
  · next hempty =>
    rw [← hwinning, List.isEmpty_iff.mp hempty]
    rfl
  · rw [resolveRefsRanked_eq (h.sublist List.filter_sublist), ← hwinning]
    rfl

/-- **The resolution picks the most specific visible definition, whatever else is in the list.** -/
theorem resolveVisible_mostSpecific (db : Db) (kind : ScopeKind) (scopeId : Grants.Uuid) (items : List (ScopedItem T))
    (h : OneEach items) :
    let visible := visibleScopesFor db kind scopeId
    (∃ folders : List Folder, visible.folders = folders.map (·.id) ∧
        (∀ f, f ∈ folders ↔ f ∈ db.folders.toList ∧ ∃ home ∈ homeOf db kind scopeId, Above home f) ∧
        folders.Pairwise fun f g => g.segments.length < f.segments.length) ∧
      ∃ found, resolveVisible visible items = .ok found ∧
        (∀ key w, found.lookup key = some w ↔ MostSpecific db visible items key w) ∧
        (∀ item ∈ items, visible.contains item.scope = true → (found.lookup item.refKey).isSome) ∧
        (∀ items', (items'.filter fun i => visible.contains i.scope) =
            (items.filter fun i => visible.contains i.scope) → resolveVisible visible items' = .ok found) ∧
        (∀ items', items'.Perm items → resolveVisible visible items' = .ok found) ∧
        ∀ key, resolveOneVisible visible key (items.filter fun i => visible.contains i.scope) =
          .ok (found.lookup key) := by
  intro visible
  have hfolders : visible.folders = _ := folders_visibleScopesFor db kind scopeId
  have hranked := ranked_of_oneEach hfolders h
  have hfound := resolveVisible_eq hfolders h
  refine ⟨⟨_, hfolders, fun f => mem_chain, chain_pairwise db _⟩, _, hfound, fun key w => ?_, fun item hitem hvis => ?_,
    fun items' hsame => ?_, fun items' hperm => ?_, resolveOneVisible_eq hranked⟩
  · rw [lookup_winners]
    exact winning_iff_mostSpecific hfolders h
  · rw [lookup_winners]
    exact winning_isSome (List.mem_filter.mpr ⟨hitem, hvis⟩) rfl
  · rw [← hfound, resolveVisible, resolveVisible, hsame]
  · have hone : OneEach items' := (hperm.pairwise_iff fun hab heq => hab ⟨heq.1.symm, heq.2.symm⟩).mpr h
    rw [resolveVisible_eq hfolders hone, winners_perm (ranked_of_oneEach hfolders hone) (hperm.filter _)]

end

def nestedFolders : Db where
  folders := ⟨[⟨1, 7, [['a']], by simp [Segments], by decide⟩, ⟨2, 7, [['a'], ['b']], by simp [Segments], by decide⟩],
    by decide⟩
  templates := .empty
  templateFolders := .empty
  unique := by decide

/-- One ref key, defined in the workspace and in both folders. -/
def shadowedItems : List (ScopedItem Nat) :=
  [⟨⟨.workspace, 7, nofun⟩, "db", 0⟩, ⟨⟨.folder, 2, nofun⟩, "db", 2⟩, ⟨⟨.folder, 1, nofun⟩, "db", 1⟩]

theorem resolveVisible_nested : ∃ found,
    resolveVisible (visibleScopesFor nestedFolders .folder 2) shadowedItems = .ok found ∧ (found.lookup "db").map (·.item) = some 2 := by
  have hone : OneEach shadowedItems := by
    unfold OneEach shadowedItems
    decide
  obtain ⟨-, found, hfound, hlookup, -⟩ := resolveVisible_mostSpecific nestedFolders .folder 2 shadowedItems hone
  refine ⟨found, hfound, ?_⟩
  have hdeep : MostSpecific nestedFolders (visibleScopesFor nestedFolders .folder 2) shadowedItems "db"
      ⟨⟨.folder, 2, nofun⟩, "db", 2⟩ := by
    refine ⟨by simp [shadowedItems], rfl, by decide, fun other hother _ _ => ?_⟩
    simp only [shadowedItems, List.mem_cons, List.not_mem_nil, or_false] at hother
    rcases hother with rfl | rfl | rfl
    · exact .inr (.inl (by decide))
    · exact .inl rfl
    · exact .inr (.inr ⟨rfl, rfl, by decide⟩)
  rw [(hlookup "db" _).mpr hdeep]
  rfl

end Scopes

end Mekhan

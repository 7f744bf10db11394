import Mekhan.Infra.TreePath

/-!
# The path of a folder

A folder's `path` column holds the slugs of its ancestors and its own, each after a slash. A slug has no
character that a `LIKE` pattern reads, so the subtree tests of the SQL are tests of a prefix of slugs.
-/

namespace Mekhan

namespace Folders

open Infra

/-! ## Slugs -/

/-- `[a-z0-9-]` -/
def slugChar (c : Char) : Bool :=
  (decide ('a' ≤ c) && decide (c ≤ 'z')) || (decide ('0' ≤ c) && decide (c ≤ '9')) || c == '-'

/-- `validate_slug` accepts the slug. -/
def validateSlug (slug : List Char) : Bool := !slug.isEmpty && slug.all slugChar

abbrev Slug := {slug : List Char // validateSlug slug = true}

theorem literal_of_slugChar {c : Char} (h : slugChar c = true) : Literal c := by
  refine ⟨?_, ?_, ?_⟩
  all_goals
    rintro rfl
    exact absurd h (by decide)

theorem Slug.slugChar_of_mem (s : Slug) {c : Char} (h : c ∈ s.1) : slugChar c = true :=
  List.all_eq_true.mp (Bool.and_eq_true_iff.mp s.2).2 c h

theorem Slug.slash_notMem (s : Slug) : '/' ∉ s.1 :=
  fun h => absurd (s.slugChar_of_mem h) (by decide)

/-! ## Paths -/

structure FolderPath where
  slugs : List Slug
  ne : slugs ≠ []
deriving DecidableEq

namespace FolderPath

variable (p q home : FolderPath)

def segments : List (List Char) := p.slugs.map (·.1)

/-- What the `path` column holds. -/
def text : List Char := pathText p.segments

/-- `length(path)` -/
def depth : Nat := p.text.length

theorem segments_ok : Segments p.segments := by
  intro s hs
  obtain ⟨slug, _, rfl⟩ := List.mem_map.mp hs
  exact slug.slash_notMem

theorem literal_text : ∀ c ∈ p.text, Literal c := by
  intro c hc
  obtain ⟨s, hs, hcs⟩ := List.mem_flatMap.mp hc
  obtain ⟨slug, _, rfl⟩ := List.mem_map.mp hs
  rcases List.mem_cons.mp hcs with rfl | hcs
  · decide
  · exact literal_of_slugChar (slug.slugChar_of_mem hcs)

variable {p q home}

theorem text_inj (h : p.text = q.text) : p = q := by
  have hsegs : p.segments = q.segments := pathText_inj p.segments_ok q.segments_ok h
  have hslugs : p.slugs = q.slugs := List.map_injective_iff.mpr Subtype.val_injective hsegs
  cases p
  cases q
  simpa using hslugs

theorem segments_prefix_iff : p.segments <+: q.segments ↔ p.slugs <+: q.slugs := by
  constructor
  · rintro ⟨c, hc⟩
    obtain ⟨a, b, hab, ha, _⟩ := List.map_eq_append_iff.mp hc.symm
    exact ⟨b, by rw [hab, List.map_injective_iff.mpr Subtype.val_injective ha]⟩
  · exact fun h => h.map _

end FolderPath

/-- `$home = path OR $home LIKE path || '/%'` -/
def under (home path : FolderPath) : Bool :=
  home.text == path.text || like home.text (path.text ++ ['/', '%'])

variable {p q home : FolderPath}

/-- **The ancestry test of the queries is the prefix order on slugs.** -/
theorem under_iff : under home p = true ↔ p.slugs <+: home.slugs := by
  rw [under, Bool.or_eq_true, beq_iff_eq, like_below p.literal_text]
  constructor
  · rintro (heq | hbelow)
    · rw [FolderPath.text_inj heq]
    · obtain ⟨s, c, hc⟩ := (below_iff p.segments_ok home.segments_ok).mp hbelow
      exact FolderPath.segments_prefix_iff.mp ⟨s :: c, hc.symm⟩
  · intro h
    obtain ⟨c, hc⟩ := FolderPath.segments_prefix_iff.mpr h
    cases c with
    | nil => exact Or.inl (by rw [FolderPath.text, ← hc, List.append_nil]; rfl)
    | cons s c => exact Or.inr ((below_iff p.segments_ok home.segments_ok).mpr ⟨s, c, hc.symm⟩)

theorem depth_le_iff (hp : under home p = true) (hq : under home q = true) :
    p.depth ≤ q.depth ↔ p.slugs <+: q.slugs := by
  rw [FolderPath.depth, FolderPath.depth, FolderPath.text, FolderPath.text,
    length_le_iff (FolderPath.segments_prefix_iff.mpr (under_iff.mp hp))
      (FolderPath.segments_prefix_iff.mpr (under_iff.mp hq)), FolderPath.segments_prefix_iff]

theorem eq_of_depth_eq (hp : under home p = true) (hq : under home q = true)
    (h : p.depth = q.depth) : p = q := by
  have hpq := (depth_le_iff hp hq).mp h.le
  have hqp := (depth_le_iff hq hp).mp h.ge
  have hslugs : p.slugs = q.slugs := hpq.eq_of_length (Nat.le_antisymm hpq.length_le hqp.length_le)
  cases p
  cases q
  simpa using hslugs

end Folders

end Mekhan

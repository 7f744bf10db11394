import Mathlib.Computability.Language

/-!
# Regular patterns

Patterns over any alphabet whose letters are classes of symbols, the language each describes, and a
test by derivatives.

* `begins_of_test` — what a matched word begins with.
* `mem_many_one`, `mem_plus_one`, `mem_word` — the words of classes.
-/

namespace Infra

/-- Regular expressions whose letters are tests of a character. -/
inductive Pattern (α : Type) where
  | nothing
  | empty
  | one (p : α → Bool)
  | alt (a b : Pattern α)
  | seq (a b : Pattern α)
  | many (a : Pattern α)

namespace Pattern

variable {α : Type}

/-- The language a pattern stands for. -/
def lang : Pattern α → Language α
  | nothing => 0
  | empty => 1
  | one p => {w | ∃ c, p c = true ∧ w = [c]}
  | alt a b => a.lang + b.lang
  | seq a b => a.lang * b.lang
  | many a => KStar.kstar a.lang

/-- `a?` -/
def opt (a : Pattern α) : Pattern α := alt empty a

/-- `a+` -/
def plus (a : Pattern α) : Pattern α := seq a (many a)

/-- `a{n}` -/
def times (a : Pattern α) : Nat → Pattern α
  | 0 => empty
  | n + 1 => seq a (times a n)

def word : List (α → Bool) → Pattern α
  | [] => empty
  | p :: ps => seq (one p) (word ps)

/-! ## The test -/

/-- Whether the empty word is matched. -/
def nullable : Pattern α → Bool
  | nothing => false
  | empty => true
  | one _ => false
  | alt a b => a.nullable || b.nullable
  | seq a b => a.nullable && b.nullable
  | many _ => true

/-- What is left to match after a character. -/
def deriv (c : α) : Pattern α → Pattern α
  | nothing => nothing
  | empty => nothing
  | one p => if p c then empty else nothing
  | alt a b => alt (a.deriv c) (b.deriv c)
  | seq a b => if a.nullable then alt (seq (a.deriv c) b) (b.deriv c) else seq (a.deriv c) b
  | many a => seq (a.deriv c) (many a)

/-- Matching by derivatives. -/
def test : Pattern α → List α → Bool
  | a, [] => a.nullable
  | a, c :: w => (a.deriv c).test w

/-- Whether a word may begin with a symbol. -/
def begins (c : α) : Pattern α → Bool
  | nothing => false
  | empty => false
  | one p => p c
  | alt a b => a.begins c || b.begins c
  | seq a b => a.begins c || (a.nullable && b.begins c)
  | many a => a.begins c

/-! ## The words of a pattern -/

theorem mem_nothing (w : List α) : ¬ w ∈ (nothing : Pattern α).lang := Language.notMem_zero w

variable {w : List α} {a b : Pattern α} {c : α}

@[simp] theorem mem_empty : w ∈ (empty : Pattern α).lang ↔ w = [] :=
  Language.mem_one w

@[simp] theorem mem_one {p : α → Bool} : w ∈ (one p).lang ↔ ∃ c, p c = true ∧ w = [c] := Iff.rfl

@[simp] theorem mem_alt : w ∈ (alt a b).lang ↔ w ∈ a.lang ∨ w ∈ b.lang := Language.mem_add a.lang b.lang w

@[simp] theorem mem_seq : w ∈ (seq a b).lang ↔ ∃ u ∈ a.lang, ∃ v ∈ b.lang, u ++ v = w := Language.mem_mul

@[simp] theorem mem_opt : w ∈ a.opt.lang ↔ w = [] ∨ w ∈ a.lang := by
  unfold opt
  rw [mem_alt, mem_empty]

theorem mem_many_one {p : α → Bool} : w ∈ (many (one p)).lang ↔ ∀ c ∈ w, p c = true := by
  show w ∈ KStar.kstar (one p).lang ↔ _
  rw [Language.mem_kstar]
  constructor
  · rintro ⟨ws, rfl, hws⟩ c hc
    obtain ⟨u, hu, hcu⟩ := List.mem_flatten.mp hc
    obtain ⟨d, hd, rfl⟩ := hws u hu
    rwa [List.mem_singleton.mp hcu]
  · intro h
    refine ⟨w.map fun c => [c], ?_, ?_⟩
    · induction w with
      | nil => rfl
      | cons c w ih =>
        rw [List.map_cons, List.flatten_cons, ← ih fun d hd => h d (List.mem_cons_of_mem _ hd)]
        rfl
    · intro u hu
      obtain ⟨c, hc, rfl⟩ := List.mem_map.mp hu
      exact ⟨c, h c hc, rfl⟩

theorem mem_plus_one {p : α → Bool} : w ∈ (plus (one p)).lang ↔ w ≠ [] ∧ ∀ c ∈ w, p c = true := by
  unfold plus
  rw [mem_seq]
  constructor
  · rintro ⟨u, ⟨c, hc, rfl⟩, v, hv, rfl⟩
    refine ⟨by simp, ?_⟩
    intro d hd
    rcases List.mem_cons.mp hd with rfl | hd
    · exact hc
    · exact mem_many_one.mp hv d hd
  · rintro ⟨hne, hall⟩
    cases w with
    | nil => exact absurd rfl hne
    | cons c w =>
      exact ⟨[c], ⟨c, hall c List.mem_cons_self, rfl⟩, w,
        mem_many_one.mpr fun d hd => hall d (List.mem_cons_of_mem _ hd), rfl⟩

theorem mem_word {ps : List (α → Bool)} : w ∈ (word ps).lang ↔ List.Forall₂ (fun p c => p c = true) ps w := by
  induction ps generalizing w with
  | nil =>
    rw [word, mem_empty, List.forall₂_nil_left_iff]
  | cons p ps ih =>
    rw [word, mem_seq, List.forall₂_cons_left_iff]
    constructor
    · rintro ⟨u, ⟨c, hc, rfl⟩, v, hv, rfl⟩
      exact ⟨c, v, hc, ih.mp hv, rfl⟩
    · rintro ⟨c, v, hc, hv, rfl⟩
      exact ⟨[c], ⟨c, hc, rfl⟩, v, ih.mpr hv, rfl⟩

/-! ## The test decides the language -/

theorem nullable_iff : a.nullable = true ↔ [] ∈ a.lang := by
  induction a with
  | nothing => simpa [nullable] using mem_nothing []
  | empty => simp [nullable]
  | one p => simp [nullable]
  | alt a b iha ihb => simp [nullable, iha, ihb]
  | seq a b iha ihb => simp [nullable, iha, ihb]
  | many a => exact iff_of_true rfl (Language.nil_mem_kstar a.lang)

theorem cons_mem_many : c :: w ∈ (many a).lang ↔ ∃ u, c :: u ∈ a.lang ∧ ∃ v ∈ (many a).lang, u ++ v = w := by
  show c :: w ∈ KStar.kstar a.lang ↔ _
  constructor
  · intro h
    obtain ⟨ws, hw, hws⟩ := Language.mem_kstar_iff_exists_nonempty.mp h
    cases ws with
    | nil => cases hw
    | cons first rest =>
      obtain ⟨hfirst, hne⟩ := hws first List.mem_cons_self
      cases first with
      | nil => exact absurd rfl hne
      | cons d u =>
        rw [List.flatten_cons, List.cons_append] at hw
        cases hw
        exact ⟨u, hfirst, rest.flatten, Language.mem_kstar.mpr ⟨rest, rfl, fun y hy =>
          (hws y (List.mem_cons_of_mem _ hy)).1⟩, rfl⟩
  · rintro ⟨u, hu, v, hv, rfl⟩
    obtain ⟨ws, rfl, hws⟩ := Language.mem_kstar.mp hv
    refine Language.mem_kstar.mpr ⟨(c :: u) :: ws, rfl, ?_⟩
    intro y hy
    rcases List.mem_cons.mp hy with rfl | hy
    · exact hu
    · exact hws y hy

theorem cons_mem_seq : c :: w ∈ (seq a b).lang ↔
      (∃ u, c :: u ∈ a.lang ∧ ∃ v ∈ b.lang, u ++ v = w) ∨ ([] ∈ a.lang ∧ c :: w ∈ b.lang) := by
  rw [mem_seq]
  constructor
  · rintro ⟨u, hu, v, hv, huv⟩
    cases u with
    | nil =>
      obtain rfl : v = c :: w := huv
      exact Or.inr ⟨hu, hv⟩
    | cons d u =>
      cases huv
      exact Or.inl ⟨u, hu, v, hv, rfl⟩
  · rintro (⟨u, hu, v, hv, rfl⟩ | ⟨ha, hb⟩)
    · exact ⟨c :: u, hu, v, hv, rfl⟩
    · exact ⟨[], ha, c :: w, hb, rfl⟩

theorem mem_deriv : w ∈ (a.deriv c).lang ↔ c :: w ∈ a.lang := by
  induction a generalizing w with
  | nothing => exact iff_of_false (mem_nothing w) (mem_nothing (c :: w))
  | empty => simpa [deriv] using mem_nothing w
  | one p =>
    by_cases hp : p c
    · simp [deriv, hp]
    · simpa [deriv, hp] using mem_nothing w
  | alt a b iha ihb => simp only [deriv, mem_alt, iha, ihb]
  | seq a b iha ihb =>
    rw [cons_mem_seq, ← nullable_iff]
    by_cases hnull : a.nullable
    · simp only [deriv, hnull, if_true, mem_alt, mem_seq, iha, ihb, true_and]
    · simp only [deriv, hnull, Bool.false_eq_true, if_false, mem_seq, iha, false_and, or_false]
  | many a iha => simp only [deriv, mem_seq, iha, cons_mem_many]

/-- **The test decides the language of a pattern.** -/
theorem test_iff : a.test w = true ↔ w ∈ a.lang := by
  induction w generalizing a with
  | nil => exact nullable_iff
  | cons c w ih => exact ih.trans mem_deriv

theorem begins_of_mem (h : c :: w ∈ a.lang) : a.begins c = true := by
  induction a generalizing w with
  | nothing => exact absurd h (mem_nothing _)
  | empty => exact absurd (mem_empty.mp h) (by simp)
  | one p =>
    obtain ⟨d, hd, heq⟩ := mem_one.mp h
    rw [begins, (List.cons.inj heq).1, hd]
  | alt a b iha ihb =>
    rcases mem_alt.mp h with ha | hb
    · simp [begins, iha ha]
    · simp [begins, ihb hb]
  | seq a b iha ihb =>
    rcases cons_mem_seq.mp h with ⟨u, hu, -⟩ | ⟨hnil, hb⟩
    · simp [begins, iha hu]
    · simp [begins, nullable_iff.mpr hnil, ihb hb]
  | many a iha =>
    obtain ⟨u, hu, -⟩ := cons_mem_many.mp h
    exact iha hu

theorem begins_of_test (h : a.test (c :: w) = true) : a.begins c = true :=
  begins_of_mem (test_iff.mp h)

end Pattern

end Infra

import Mekhan.Infra.Pattern

/-!
# Paths of a tree, as text

A path is a list of segments; its text puts a separator before each of them. What is below a path in the
text, by a `LIKE` pattern or a prefix, is below it in the tree.

* `length_le_iff` — of two prefixes of one path, the longer text is the longer path.
-/

namespace Infra

/-! ## The text of a path -/

/-- A separator before each segment. -/
def pathText (segs : List (List Char)) : List Char := segs.flatMap ('/' :: ·)

variable {a b c : List (List Char)} {s t u v r w : List Char}

@[simp] theorem pathText_nil : pathText [] = [] := rfl

@[simp] theorem pathText_cons (s : List Char) (segs : List (List Char)) :
    pathText (s :: segs) = '/' :: s ++ pathText segs := rfl

@[simp] theorem pathText_append (a b : List (List Char)) :
    pathText (a ++ b) = pathText a ++ pathText b := List.flatMap_append

/-- No segment has a separator in it. -/
def Segments (segs : List (List Char)) : Prop := ∀ s ∈ segs, '/' ∉ s

/-- What is empty or starts at a separator. -/
def Slashed (l : List Char) : Prop := ∀ x ∈ l.head?, x = '/'

theorem slashed_cons (r : List Char) : Slashed ('/' :: r) := fun _ hx => (Option.some.inj hx).symm

theorem slashed_pathText (segs : List (List Char)) : Slashed (pathText segs) := by
  cases segs with
  | nil => exact fun _ hx => by cases hx
  | cons s segs => exact slashed_cons _

theorem Slashed.append (hu : Slashed u) (hv : Slashed v) : Slashed (u ++ v) := by
  cases u with
  | nil => exact hv
  | cons x u => exact fun y hy => hu y hy

theorem segment_inj (hs : '/' ∉ s) (ht : '/' ∉ t) (hu : Slashed u) (hv : Slashed v)
    (h : s ++ u = t ++ v) : s = t ∧ u = v := by
  induction s generalizing t with
  | nil =>
    cases t with
    | nil => exact ⟨rfl, h⟩
    | cons y t =>
      -- the first character of the other segment would be a separator
      have hy : y = '/' := hu y (by rw [show u = y :: (t ++ v) from h]; rfl)
      exact absurd (hy ▸ List.mem_cons_self) ht
  | cons x s ih =>
    cases t with
    | nil =>
      have hx : x = '/' := hv x (by rw [show v = x :: (s ++ u) from h.symm]; rfl)
      exact absurd (hx ▸ List.mem_cons_self) hs
    | cons y t =>
      obtain ⟨rfl, hrest⟩ := List.cons.inj h
      obtain ⟨rfl, rfl⟩ := ih (fun hm => hs (List.mem_cons_of_mem _ hm))
        (fun hm => ht (List.mem_cons_of_mem _ hm)) hrest
      exact ⟨rfl, rfl⟩

theorem pathText_split (ha : Segments a) (hb : Segments b) (hw : Slashed w)
    (h : pathText a ++ w = pathText b) : ∃ c, b = a ++ c ∧ w = pathText c := by
  induction a generalizing b with
  | nil => exact ⟨b, rfl, h⟩
  | cons s a ih =>
    cases b with
    | nil => cases h
    | cons t b =>
      have htail : s ++ (pathText a ++ w) = t ++ pathText b := by
        simpa only [pathText_cons, List.cons_append, List.append_assoc, List.cons.injEq, true_and]
          using h
      obtain ⟨rfl, hrest⟩ := segment_inj (ha s List.mem_cons_self) (hb t List.mem_cons_self)
        ((slashed_pathText a).append hw) (slashed_pathText b) htail
      obtain ⟨c, rfl, hc⟩ := ih (fun x hx => ha x (List.mem_cons_of_mem _ hx))
        (fun x hx => hb x (List.mem_cons_of_mem _ hx)) hrest
      exact ⟨c, rfl, hc⟩

theorem pathText_eq_nil : pathText a = [] ↔ a = [] := by
  cases a with
  | nil => exact iff_of_true rfl rfl
  | cons s a => exact iff_of_false (by simp) (by simp)

theorem pathText_inj (ha : Segments a) (hb : Segments b) (h : pathText a = pathText b) : a = b := by
  obtain ⟨c, rfl, hc⟩ := pathText_split ha hb (slashed_pathText []) (by rw [pathText_nil, List.append_nil, h])
  rw [pathText_eq_nil.mp hc.symm, List.append_nil]

/-- **A path is below another one in the text exactly when it is below it in the tree.** -/
theorem below_iff (ha : Segments a) (hb : Segments b) :
    (∃ r, pathText b = pathText a ++ '/' :: r) ↔ ∃ s c, b = a ++ s :: c := by
  constructor
  · rintro ⟨r, hr⟩
    obtain ⟨c, rfl, hc⟩ := pathText_split ha hb (slashed_cons r) hr.symm
    cases c with
    | nil => cases hc
    | cons s c => exact ⟨s, c, rfl⟩
  · rintro ⟨s, c, rfl⟩
    exact ⟨s ++ pathText c, by rw [pathText_append, pathText_cons, List.cons_append]⟩

theorem length_le_iff (ha : a <+: c) (hb : b <+: c) :
    (pathText a).length ≤ (pathText b).length ↔ a <+: b := by
  constructor
  · intro hle
    rcases List.prefix_or_prefix_of_prefix ha hb with hab | ⟨d, rfl⟩
    · exact hab
    · cases d with
      | nil => rw [List.append_nil]
      | cons s d =>
        rw [pathText_append, pathText_cons, List.length_append, List.length_append, List.length_cons] at hle
        omega
  · rintro ⟨d, rfl⟩
    rw [pathText_append, List.length_append]
    exact Nat.le_add_right _ _

/-! ## `LIKE` -/

/-- One character of a pattern that is not escaped. -/
def likeSymbol (c : Char) : Pattern Char :=
  if c = '%' then .many (.one fun _ => true)
  else if c = '_' then .one fun _ => true
  else .one (· == c)

/-- The pattern that `LIKE` reads: a backslash takes the next character as it is. -/
def likePattern : List Char → Pattern Char
  | [] => .empty
  | [c] => if c = '\\' then .nothing else .seq (likeSymbol c) .empty
  | c :: e :: p =>
    if c = '\\' then .seq (.one (· == e)) (likePattern p) else .seq (likeSymbol c) (likePattern (e :: p))

/-- `text LIKE pattern` -/
def like (text pattern : List Char) : Bool := (likePattern pattern).test text

/-- A character that stands for itself in a pattern. -/
def Literal (c : Char) : Prop := c ≠ '%' ∧ c ≠ '_' ∧ c ≠ '\\'

instance (c : Char) : Decidable (Literal c) := inferInstanceAs (Decidable (_ ∧ _))

theorem likePattern_cons {x : Char} (hx : x ≠ '\\') (p : List Char) :
    likePattern (x :: p) = .seq (likeSymbol x) (likePattern p) := by
  cases p with
  | nil => exact if_neg hx
  | cons e p => exact if_neg hx

theorem mem_likePattern_literal {x : Char} (hx : Literal x) {p : List Char} :
    w ∈ (likePattern (x :: p)).lang ↔ ∃ u ∈ (likePattern p).lang, w = x :: u := by
  have hsymbol : likeSymbol x = .one (· == x) := by
    rw [likeSymbol, if_neg hx.1, if_neg hx.2.1]
  rw [likePattern_cons hx.2.2, hsymbol, Pattern.mem_seq]
  constructor
  · rintro ⟨_, ⟨y, hy, rfl⟩, u, hu, rfl⟩
    exact ⟨u, hu, by rw [eq_of_beq hy]; rfl⟩
  · rintro ⟨u, hu, rfl⟩
    exact ⟨[x], ⟨x, beq_self_eq_true x, rfl⟩, u, hu, rfl⟩

theorem mem_likePattern_any : w ∈ (likePattern ['%']).lang := by
  rw [likePattern_cons (by decide), Pattern.mem_seq]
  exact ⟨w, Pattern.mem_many_one.mpr fun _ _ => rfl, [], Pattern.mem_empty.mpr rfl, List.append_nil w⟩

/-- **`LIKE text || '/%'` matches what goes on after the text at a separator.** -/
theorem like_below (hs : ∀ x ∈ s, Literal x) : like w (s ++ ['/', '%']) = true ↔ ∃ r, w = s ++ '/' :: r := by
  rw [like, Pattern.test_iff]
  induction s generalizing w with
  | nil =>
    rw [List.nil_append, mem_likePattern_literal (by decide)]
    exact ⟨fun ⟨u, _, hu⟩ => ⟨u, hu⟩, fun ⟨r, hr⟩ => ⟨r, mem_likePattern_any, hr⟩⟩
  | cons x s ih =>
    rw [List.cons_append, mem_likePattern_literal (hs x List.mem_cons_self)]
    constructor
    · rintro ⟨u, hu, rfl⟩
      obtain ⟨r, rfl⟩ := (ih fun y hy => hs y (List.mem_cons_of_mem _ hy)).mp hu
      exact ⟨r, rfl⟩
    · rintro ⟨r, rfl⟩
      exact ⟨s ++ '/' :: r, (ih fun y hy => hs y (List.mem_cons_of_mem _ hy)).mpr ⟨r, rfl⟩, rfl⟩

end Infra

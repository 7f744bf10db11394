import Mekhan.Catalogue.QueryDsl
import Mekhan.Infra.Returns
import Mathlib.Data.List.TakeWhile

/-!
# What the readers of the query language compute

Every slice of `query_dsl.rs` is at a character boundary: it is taken at an ASCII character that was
found before. So each reader returns, and what it returns is said here without offsets.
-/

namespace Mekhan

namespace QueryDsl

open Infra

/-! ## Slices -/

/-- A byte position between two texts cuts them apart. -/
theorem sliceFrom_append (a b : Text) : sliceFrom (a ++ b) (byteLen a) = .ok b := by
  rw [sliceFrom, splitAt?_append]

theorem sliceTo_append (a b : Text) : sliceTo (a ++ b) (byteLen a) = .ok a := by
  rw [sliceTo, splitAt?_append]

variable {c unit : Char} {a b s v : Text}

theorem sliceFrom_cons (hc : c.utf8Size = 1) (b : Text) : sliceFrom (c :: b) 1 = .ok b := by
  have h := sliceFrom_append [c] b
  rwa [byteLen_cons, hc, byteLen_nil] at h

theorem lenMinusOne_append (hc : c.utf8Size = 1) (a : Text) : lenMinusOne (a ++ [c]) = .ok (byteLen a) := by
  have hlen : byteLen (a ++ [c]) = byteLen a + 1 := by simp [hc]
  rw [lenMinusOne, if_neg (by omega), hlen, Nat.add_sub_cancel]

theorem find_charIndicesFrom : ∀ {i : Nat}, c ∉ v →
    ((charIndicesFrom i v).find? fun entry => entry.2 = c) = none := by
  induction v with
  | nil =>
    intro i _
    rfl
  | cons d v ih =>
    intro i hc
    have hd : d ≠ c := fun h => hc (h ▸ List.mem_cons_self ..)
    rw [charIndicesFrom, List.find?_cons_of_neg (by simpa using hd)]
    exact ih fun h => hc (List.mem_cons_of_mem _ h)

theorem find_charIndicesFrom_append : ∀ {i : Nat}, c ∉ a →
    ((charIndicesFrom i (a ++ c :: b)).find? fun entry => entry.2 = c) = some (i + byteLen a, c) := by
  induction a with
  | nil =>
    intro i _
    simp [charIndicesFrom]
  | cons d a ih =>
    intro i hc
    have hd : d ≠ c := fun h => hc (h ▸ List.mem_cons_self ..)
    rw [List.cons_append, charIndicesFrom, List.find?_cons_of_neg (by simpa using hd),
      ih fun h => hc (List.mem_cons_of_mem _ h), byteLen_cons, Nat.add_assoc]

theorem split_first (c : Char) (v : Text) : c ∉ v ∨ ∃ a b, v = a ++ c :: b ∧ c ∉ a := by
  by_cases hc : c ∈ v
  · exact Or.inr (List.eq_append_cons_of_mem hc)
  · exact Or.inl hc

/-! ## Quotes -/

/-- `unquote` without offsets. -/
def readQuoted (v : Text) : Unquoted :=
  match v with
  | '"' :: rest =>
    match rest.dropWhile (· ≠ '"') with
    | [] => ⟨rest, true, some "unterminated quote"⟩
    | [_] => ⟨rest.takeWhile (· ≠ '"'), true, none⟩
    | _ => ⟨v, true, some "unexpected characters after closing quote"⟩
  | _ => ⟨v, false, none⟩

/-- A word has no quote in front, or one that stays open, or one that is closed. -/
theorem quoted_cases (v : Text) : v.head? ≠ some '"' ∨ (∃ rest, v = '"' :: rest ∧ '"' ∉ rest) ∨
    ∃ inner after, v = '"' :: (inner ++ '"' :: after) ∧ '"' ∉ inner := by
  cases v with
  | nil => exact Or.inl (by simp)
  | cons c rest =>
    by_cases hc : c = '"'
    · subst hc
      rcases split_first '"' rest with hnone | ⟨inner, after, rfl, hinner⟩
      · exact Or.inr (Or.inl ⟨rest, rfl, hnone⟩)
      · exact Or.inr (Or.inr ⟨inner, after, rfl, hinner⟩)
    · exact Or.inl (by simpa using hc)

theorem all_ne_of_notMem (h : c ∉ v) : ∀ d ∈ v, decide (d ≠ c) = true := by
  intro d hd
  exact decide_eq_true fun hdc => h (hdc ▸ hd)

theorem readQuoted_plain (h : v.head? ≠ some '"') : readQuoted v = ⟨v, false, none⟩ := by
  unfold readQuoted
  split
  · exact absurd rfl h
  · rfl

theorem readQuoted_open {rest : Text} (h : '"' ∉ rest) :
    readQuoted ('"' :: rest) = ⟨rest, true, some "unterminated quote"⟩ := by
  have hdrop : rest.dropWhile (· ≠ '"') = [] := by
    rw [List.dropWhile_eq_nil_iff]
    exact all_ne_of_notMem h
  simp only [readQuoted, hdrop]

theorem readQuoted_closed {inner : Text} (h : '"' ∉ inner) (after : Text) :
    readQuoted ('"' :: (inner ++ '"' :: after)) =
      if after = [] then ⟨inner, true, none⟩
      else ⟨'"' :: (inner ++ '"' :: after), true, some "unexpected characters after closing quote"⟩ := by
  have hdrop : (inner ++ '"' :: after).dropWhile (· ≠ '"') = '"' :: after := by
    rw [List.dropWhile_append_of_pos (all_ne_of_notMem h)]
    simp
  have htake : (inner ++ '"' :: after).takeWhile (· ≠ '"') = inner := by
    rw [List.takeWhile_append_of_pos (all_ne_of_notMem h)]
    simp
  cases after with
  | nil => simp only [readQuoted, hdrop, htake, if_true]
  | cons c after => simp only [readQuoted, hdrop, reduceCtorEq, if_false]

/-- The byte positions of the source never cut a character. -/
theorem unquote_eq (v : Text) : unquote v = .ok (readQuoted v) := by
  have hsize : ('"' : Char).utf8Size = 1 := by decide
  have hindices : ∀ rest, (charIndices ('"' :: rest)).drop 1 = charIndicesFrom 1 rest := by
    intro rest
    simp [charIndices, charIndicesFrom, hsize]
  rcases quoted_cases v with hplain | ⟨rest, rfl, hnone⟩ | ⟨inner, after, rfl, hinner⟩
  · rw [readQuoted_plain hplain]
    simp only [unquote, ne_eq, hplain, not_false_eq_true, if_true]
    rfl
  · rw [readQuoted_open hnone]
    simp only [unquote, List.head?_cons, ne_eq, not_true_eq_false, if_false, hindices,
      find_charIndicesFrom hnone, sliceFrom_cons hsize]
    rfl
  · rw [readQuoted_closed hinner]
    simp only [unquote, List.head?_cons, ne_eq, not_true_eq_false, if_false, hindices,
      find_charIndicesFrom_append hinner]
    cases after with
    | nil =>
      have hlen := lenMinusOne_append hsize ('"' :: inner)
      have hslice := sliceTo_append ('"' :: inner) ['"']
      rw [byteLen_cons, hsize, List.cons_append] at hlen hslice
      simp only [hlen, pure, Except.pure, bind, Except.bind, not_true_eq_false, if_false, if_true,
        slice, hslice, sliceFrom_cons hsize]
    | cons c after =>
      have hpos : 0 < c.utf8Size := Char.utf8Size_pos c
      obtain ⟨n, hn, hne⟩ : ∃ n, lenMinusOne ('"' :: (inner ++ '"' :: c :: after)) = .ok n ∧
          1 + byteLen inner ≠ n := by
        refine ⟨byteLen ('"' :: (inner ++ '"' :: c :: after)) - 1, ?_, ?_⟩
        · rw [lenMinusOne, if_neg]
          rw [byteLen_cons, hsize]
          omega
        · simp only [byteLen_cons, byteLen_append, hsize]
          omega
      simp only [hn, hne, pure, Except.pure, bind, Except.bind, not_false_eq_true, if_true,
        reduceCtorEq, if_false]

/-! ## Numbers -/

theorem splitFirst_of_notMem (h : c ∉ v) : splitFirst c v = (v, none) := by
  have hdrop : v.dropWhile (· ≠ c) = [] := by
    rw [List.dropWhile_eq_nil_iff]
    exact all_ne_of_notMem h
  rw [splitFirst, hdrop]

theorem splitFirst_append (h : c ∉ a) : splitFirst c (a ++ c :: b) = (a, some b) := by
  have ha := all_ne_of_notMem h
  rw [splitFirst, List.dropWhile_append_of_pos ha, List.takeWhile_append_of_pos ha]
  simp

/-- One digit or more. -/
def Digits (v : Text) : Prop := v ≠ [] ∧ ∀ c ∈ v, F64.isDigit c = true

theorem Digits.notMem (h : Digits v) {c : Char} (hc : F64.isDigit c = false) : c ∉ v := by
  intro hmem
  exact absurd (h.2 c hmem) (by simp [hc])

/-- Digits, with a point and more digits where there is one. -/
theorem isNumUnsigned_iff : isNumUnsigned s = true ↔
    Digits s ∨ ∃ whole frac, Digits whole ∧ Digits frac ∧ s = whole ++ '.' :: frac := by
  have hpoint : F64.isDigit '.' = false := by decide
  rcases split_first '.' s with hnone | ⟨a, b, rfl, ha⟩
  · have hsimple : isNumUnsigned s = true ↔ Digits s := by
      simp [isNumUnsigned, splitFirst_of_notMem hnone, Digits]
    rw [hsimple]
    refine ⟨Or.inl, ?_⟩
    rintro (h | ⟨whole, frac, -, -, rfl⟩)
    · exact h
    · exact absurd (by simp) hnone
  · have hsplit : isNumUnsigned (a ++ '.' :: b) = true ↔ Digits a ∧ Digits b := by
      simp [isNumUnsigned, splitFirst_append ha, Digits, and_assoc]
    rw [hsplit]
    constructor
    · rintro ⟨hwhole, hfrac⟩
      exact Or.inr ⟨a, b, hwhole, hfrac, rfl⟩
    · rintro (h | ⟨whole, frac, hwhole, hfrac, heq⟩)
      · exact absurd (by simp) (h.notMem hpoint)
      · obtain ⟨rfl, rfl⟩ : a = whole ∧ b = frac := by
          have hsame := congrArg (splitFirst '.') heq
          rw [splitFirst_append ha, splitFirst_append (hwhole.notMem hpoint)] at hsame
          exact ⟨(Prod.mk.inj hsame).1, Option.some.inj (Prod.mk.inj hsame).2⟩
        exact ⟨hwhole, hfrac⟩

theorem head_isNumUnsigned (h : isNumUnsigned s = true) : ∃ c rest, s = c :: rest ∧ F64.isDigit c = true := by
  rcases isNumUnsigned_iff.mp h with hdigits | ⟨whole, frac, hdigits, -, rfl⟩
  · obtain ⟨c, rest, rfl⟩ := List.exists_cons_of_ne_nil hdigits.1
    exact ⟨c, rest, rfl, hdigits.2 c List.mem_cons_self⟩
  · obtain ⟨c, rest, rfl⟩ := List.exists_cons_of_ne_nil hdigits.1
    exact ⟨c, rest ++ '.' :: frac, rfl, hdigits.2 c List.mem_cons_self⟩

theorem splitSign_isNumUnsigned (h : isNumUnsigned s = true) : F64.splitSign s = (false, s) := by
  obtain ⟨c, rest, rfl, hc⟩ := head_isNumUnsigned h
  unfold F64.splitSign
  split
  · next heq => exact absurd hc (by rw [(List.cons.inj heq).1]; decide)
  · next heq => exact absurd hc (by rw [(List.cons.inj heq).1]; decide)
  · rfl

theorem leadingNumber_append (hunit : unit.utf8Size = 1) (number : Text) : leadingNumber (number ++ [unit]) =
      .ok (if isNumUnsigned number then F64.parse number else none) := by
  simp only [leadingNumber, lenMinusOne_append hunit, bind, Except.bind, sliceTo_append]
  cases hnumber : isNumUnsigned number with
  | true =>
    obtain ⟨c, rest, hcons, -⟩ := head_isNumUnsigned hnumber
    rw [if_neg (by simp [hcons])]
    rfl
  | false => simp [pure, Except.pure]

theorem byteExponent_ascii {exp : Nat} (h : byteExponent unit = some exp) : unit.utf8Size = 1 := by
  unfold byteExponent at h
  split at h
  · next h' => exact h' ▸ rfl
  · split at h
    · next h' => exact h' ▸ rfl
    · split at h
      · next h' => exact h' ▸ rfl
      · split at h
        · next h' => exact h' ▸ rfl
        · cases h

/-- Whatever the text, no slice fails. -/
theorem parseByte_returns (s : Text) : Returns (parseByte s) := by
  unfold parseByte
  dsimp only
  split
  · exact .ok none
  · next exp hexp =>
    obtain ⟨unit, hunit, hexp⟩ := Option.bind_eq_some_iff.mp hexp
    obtain ⟨number, hbody⟩ := List.getLast?_eq_some_iff.mp hunit
    rw [hbody, leadingNumber_append (byteExponent_ascii hexp)]
    exact .ok _

theorem unit_ascii (h : unit ∈ ['m', 'h', 'd', 'w', 'y']) : unit.utf8Size = 1 := by
  simp only [List.mem_cons, List.not_mem_nil, or_false] at h
  rcases h with rfl | rfl | rfl | rfl | rfl <;> rfl

theorem parseRelDate_append (hunit : unit ∈ ['m', 'h', 'd', 'w', 'y']) (number : Text) :
    parseRelDate ('-' :: (number ++ [unit])) =
      .ok ((if isNumUnsigned number then F64.parse number else none).map fun m => (m, unit)) := by
  simp only [parseRelDate, List.getLast?_concat, hunit, not_true_eq_false, if_false,
    leadingNumber_append (unit_ascii hunit)]
  rfl

/-- A relative date is a minus sign, a number and a unit. -/
theorem parseRelDate_cases (s : Text) : parseRelDate s = .ok none ∨
    ∃ number unit, unit ∈ ['m', 'h', 'd', 'w', 'y'] ∧ s = '-' :: (number ++ [unit]) := by
  unfold parseRelDate
  split
  · next rest =>
    split
    · exact Or.inl rfl
    · next unit hlast =>
      split
      · exact Or.inl rfl
      · next hunit =>
        obtain ⟨number, rfl⟩ := List.getLast?_eq_some_iff.mp hlast
        exact Or.inr ⟨number, unit, Decidable.not_not.mp hunit, rfl⟩
  · exact Or.inl rfl

theorem parseRelDate_returns (s : Text) : Returns (parseRelDate s) := by
  rcases parseRelDate_cases s with hnone | ⟨number, unit, hunit, rfl⟩
  · exact ⟨none, hnone⟩
  · exact ⟨_, parseRelDate_append hunit number⟩

/-! ## Classification -/

/-- No value of a comparison makes the parser panic. -/
theorem isComparableValue_returns (field value : Text) : Returns (isComparableValue field value) := by
  obtain ⟨size, hsize⟩ := parseByte_returns value
  obtain ⟨date, hdate⟩ := parseRelDate_returns value
  unfold isComparableValue
  simp only [hsize, hdate, pure, Except.pure, bind, Except.bind]
  (repeat' split) <;> exact .ok _

theorem sugared_returns (make : Text → QueryTerm) (rest : Text) : Returns (sugared make rest) := by
  unfold sugared
  rw [unquote_eq]
  simp only [bind, Except.bind]
  (repeat' split) <;> exact .ok _

theorem find_eq_none (h : c ∉ v) : find c v = none := by
  rw [find, charIndices, find_charIndicesFrom h, Option.map_none]

theorem find_append (h : c ∉ a) : find c (a ++ c :: b) = some (byteLen a) := by
  rw [find, charIndices, find_charIndicesFrom_append h, Option.map_some, Nat.zero_add]

theorem sliceFrom_after (hc : c.utf8Size = 1) (a b : Text) :
    sliceFrom (a ++ c :: b) (byteLen a + 1) = .ok b := by
  have h := sliceFrom_append (a ++ [c]) b
  rwa [byteLen_append, byteLen_cons, byteLen_nil, hc, List.append_assoc] at h

/-- The key of an attribute ends at the first equals sign. -/
theorem classifyContain_attr {key value : Text} (hkey : '=' ∉ key) (hne : key ≠ []) (raw : Text) :
    classifyContain .attr (key ++ '=' :: value) raw =
      sugared (fun v => .contain .attr (some key) v raw) value := by
  have hpos : byteLen key ≠ 0 := by
    cases key with
    | nil => exact absurd rfl hne
    | cons c key =>
      have hc := Char.utf8Size_pos c
      rw [byteLen_cons]
      omega
  unfold classifyContain
  rw [if_pos rfl, find_append hkey]
  split
  · next h => cases h
  · next h => exact absurd (Option.some.inj h) hpos
  · next pos _ h =>
    cases h
    rw [sliceTo_append, sliceFrom_after (by decide)]
    rfl

theorem classifyContain_keyless {rest : Text} (h : '=' ∉ rest ∨ rest.head? = some '=') (raw : Text) :
    classifyContain .attr rest raw = .ok (.error "attr term requires KEY=VALUE") := by
  unfold classifyContain
  rw [if_pos rfl]
  rcases h with hnone | hhead
  · rw [find_eq_none hnone]
    rfl
  · obtain ⟨value, rfl⟩ : ∃ value, rest = '=' :: value := by
      cases rest with
      | nil => cases hhead
      | cons c value => exact ⟨value, by rw [Option.some.inj hhead]⟩
    rw [show find '=' ('=' :: value) = some 0 from find_append (a := []) (by simp)]
    rfl

theorem classifyContain_returns (name : ContainName) (rest raw : Text) :
    Returns (classifyContain name rest raw) := by
  by_cases hname : name = .attr
  · subst hname
    rcases split_first '=' rest with hnone | ⟨key, value, rfl, hkey⟩
    · exact ⟨_, classifyContain_keyless (Or.inl hnone) raw⟩
    · by_cases hne : key = []
      · subst hne
        exact ⟨_, classifyContain_keyless (Or.inr rfl) raw⟩
      · rw [classifyContain_attr hkey hne]
        exact sugared_returns _ value
  · unfold classifyContain
    rw [if_neg hname]
    exact sugared_returns _ rest

theorem classifyFilter_returns (field : Text) (op : OpText) (rest raw : Text) :
    Returns (classifyFilter field op rest raw) := by
  obtain ⟨comparable, hcomparable⟩ := isComparableValue_returns field (readQuoted rest).value
  unfold classifyFilter
  simp only [unquote_eq, hcomparable, pure, Except.pure, bind, Except.bind]
  (repeat' split) <;> exact .ok _

theorem classifyToken_returns (raw : Text) : Returns (classifyToken raw) := by
  unfold classifyToken
  simp only [unquote_eq, pure, Except.pure, bind, Except.bind]
  split
  · split <;> exact .ok _
  · split
    · split
      · exact sugared_returns _ _
      · split
        · exact classifyContain_returns _ _ _
        · exact classifyFilter_returns _ _ _ _
    · split <;> exact .ok _

theorem parseToken_returns (st : ParseState) (tok : Word) : Returns (parseToken st tok) := by
  obtain ⟨c, hc⟩ := classifyToken_returns tok.text
  unfold parseToken
  simp only [hc, pure, Except.pure, bind, Except.bind]
  (repeat' split) <;> exact .ok _

theorem parseQuery_returns (input : Text) : Returns (parseQuery input) := by
  have hfold : Returns ((tokenize input).foldlM parseToken ⟨[], [], .obj [], false⟩) :=
    (Returns.foldlM_iff (P := fun _ => True)
      (fun st tok _ => iff_of_true (parseToken_returns st tok) trivial) _).mpr fun _ _ => trivial
  exact hfold.bind fun st => .ok _

end QueryDsl

end Mekhan

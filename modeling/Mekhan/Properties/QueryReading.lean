import Mekhan.Catalogue.QueryLanguage
import Mekhan.Catalogue.QueryReaders
import Mathlib.Tactic.IntervalCases

/-!
# Tokens on both sides

The readers of the server and those of the browser, one by one: where the server counts bytes, the
browser has a regular expression.
-/

namespace Mekhan

namespace QueryDsl

open Infra

/-! ## Quotes -/

variable {c : Char} {raw s suffix v : Text}

theorem findIdx?_of_notMem (h : c ∉ v) : v.findIdx? (· = c) = none := by
  rw [List.findIdx?_eq_none_iff]
  intro d hd
  exact decide_eq_false fun hdc => h (hdc ▸ hd)

variable {a number rest : Text} {unit : Char} {op : OpText}

theorem findIdx?_append_cons (h : c ∉ a) (b : Text) : (a ++ c :: b).findIdx? (· = c) = some a.length := by
  rw [List.findIdx?_append, findIdx?_of_notMem h, List.findIdx?_cons]
  simp

theorem unquote_agrees (v : Text) : readQuoted v = QueryLanguage.unquote v := by
  rcases quoted_cases v with hplain | ⟨rest, rfl, hnone⟩ | ⟨inner, after, rfl, hinner⟩
  · rw [readQuoted_plain hplain, QueryLanguage.unquote, if_pos hplain]
  · simp only [readQuoted_open hnone, QueryLanguage.unquote, List.head?_cons, ne_eq, not_true_eq_false,
      if_false, List.drop_succ_cons, List.drop_zero, findIdx?_of_notMem hnone]
  · simp only [readQuoted_closed hinner, QueryLanguage.unquote, List.head?_cons, ne_eq,
      not_true_eq_false, if_false, List.drop_succ_cons, List.drop_zero, findIdx?_append_cons hinner]
    cases after with
    | nil => simp
    | cons c after => simp

/-! ## Numbers -/

theorem mem_plus_digit : v ∈ (Pattern.plus QueryLanguage.digit).lang ↔ Digits v :=
  Pattern.mem_plus_one

theorem mem_char : v ∈ (QueryLanguage.char c).lang ↔ v = [c] := by
  simp [QueryLanguage.char]

theorem mem_unsignedRe : s ∈ QueryLanguage.unsignedRe.lang ↔ isNumUnsigned s = true := by
  rw [isNumUnsigned_iff]
  simp only [QueryLanguage.unsignedRe, Pattern.mem_seq, Pattern.mem_opt, mem_plus_digit, mem_char]
  constructor
  · rintro ⟨whole, hwhole, rest, rfl | ⟨point, rfl, frac, hfrac, rfl⟩, rfl⟩
    · exact Or.inl (by simpa using hwhole)
    · exact Or.inr ⟨whole, frac, hwhole, hfrac, rfl⟩
  · rintro (h | ⟨whole, frac, hwhole, hfrac, rfl⟩)
    · exact ⟨s, h, [], Or.inl rfl, List.append_nil s⟩
    · exact ⟨whole, hwhole, '.' :: frac, Or.inr ⟨['.'], rfl, frac, hfrac, rfl⟩, rfl⟩

theorem numRe_agrees (s : Text) : QueryLanguage.numRe.test s = isNum s := by
  rw [Bool.eq_iff_iff, Pattern.test_iff]
  simp only [QueryLanguage.numRe, Pattern.mem_seq, Pattern.mem_opt, mem_char, mem_unsignedRe]
  constructor
  · rintro ⟨sign, rfl | rfl, number, hnumber, rfl⟩
    · obtain ⟨c, rest, rfl, hc⟩ := head_isNumUnsigned hnumber
      have hne : c ≠ '-' := by
        rintro rfl
        exact absurd hc (by decide)
      unfold isNum
      split
      · next heq => exact absurd (List.cons.inj heq).1 hne
      · exact hnumber
    · exact hnumber
  · intro h
    unfold isNum at h
    split at h
    · next rest => exact ⟨['-'], Or.inr rfl, rest, h, rfl⟩
    · exact ⟨[], Or.inl rfl, s, h, rfl⟩

theorem takeWhile_digits (h : Digits v) (rest : Text) (hrest : ∀ c ∈ rest.head?, F64.isDigit c = false) :
    (v ++ rest).takeWhile F64.isDigit = v ∧ (v ++ rest).dropWhile F64.isDigit = rest := by
  rw [List.takeWhile_append_of_pos h.2, List.dropWhile_append_of_pos h.2]
  cases rest with
  | nil => simp
  | cons c rest =>
    have hc : F64.isDigit c = false := hrest c rfl
    simp [hc]

theorem toLower_cases (c : Char) : c.toLower = c ∨
    ∃ n < 26, c = Char.ofNat (65 + n) ∧ c.toLower = Char.ofNat (97 + n) := by
  by_cases hc : 'A' ≤ c ∧ c ≤ 'Z'
  · have hmin : 65 ≤ c.toNat := hc.1
    have hmax : c.toNat ≤ 90 := hc.2
    have hof : c = Char.ofNat (65 + (c.toNat - 65)) := by
      rw [Nat.add_sub_cancel' hmin, Char.ofNat_toNat]
    have hall : ∀ n < 26, (Char.ofNat (65 + n)).toLower = Char.ofNat (97 + n) := by decide
    refine Or.inr ⟨c.toNat - 65, by omega, hof, ?_⟩
    rw [← hall _ (by omega), ← hof]
  · left
    unfold Char.toLower
    split
    · next h => exact absurd h hc
    · rfl

theorem toLower_eq_of_noLetter {p : Char → Bool}
    (h : ∀ n < 26, p (Char.ofNat (65 + n)) = false ∧ p (Char.ofNat (97 + n)) = false) (c : Char) :
    p c.toLower = p c := by
  rcases toLower_cases c with hsame | ⟨n, hn, hc, hlower⟩
  · rw [hsame]
  · rw [hlower, hc, (h n hn).1, (h n hn).2]

theorem isDigit_toLower (c : Char) : F64.isDigit c.toLower = F64.isDigit c :=
  toLower_eq_of_noLetter (by decide) c

theorem toLower_of_isDigit (h : F64.isDigit c = true) : c.toLower = c := by
  rcases toLower_cases c with hsame | ⟨n, hn, rfl, -⟩
  · exact hsame
  · have hall : ∀ n < 26, F64.isDigit (Char.ofNat (65 + n)) = false := by decide
    exact absurd h (by simp [hall n hn])

theorem parse_isNumUnsigned (h : isNumUnsigned s = true) : (F64.parse s).isSome = true := by
  have hnumber : (F64.parseNumber false s).isSome = true := by
    rcases isNumUnsigned_iff.mp h with hdigits | ⟨whole, frac, hwhole, hfrac, rfl⟩
    · obtain ⟨htake, hdrop⟩ := takeWhile_digits hdigits [] (by simp)
      rw [List.append_nil] at htake hdrop
      simp [F64.parseNumber, htake, hdrop, F64.parseFraction, F64.parseExponent, hdigits.1]
    · obtain ⟨htake, hdrop⟩ := takeWhile_digits hwhole ('.' :: frac) (by simp; decide)
      obtain ⟨htake', hdrop'⟩ := takeWhile_digits hfrac [] (by simp)
      rw [List.append_nil] at htake' hdrop'
      simp [F64.parseNumber, htake, hdrop, F64.parseFraction, F64.parseExponent, htake', hdrop', hwhole.1]
  -- The first character is a digit, so the text is none of the words.
  obtain ⟨c, rest, rfl, hc⟩ := head_isNumUnsigned h
  have hword : ∀ d more, F64.isDigit d = false → (c :: rest).map Char.toLower ≠ d :: more := by
    intro d more hd hmap
    rw [List.map_cons, toLower_of_isDigit hc] at hmap
    rw [(List.cons.inj hmap).1] at hc
    exact absurd hc (by simp [hd])
  unfold F64.parse
  rw [splitSign_isNumUnsigned h]
  dsimp only
  rw [if_neg (not_or.mpr ⟨hword _ _ (by decide), hword _ _ (by decide)⟩), if_neg (hword _ _ (by decide))]
  exact hnumber

/-! ## Sizes -/

theorem digits_map_toLower : Digits (v.map Char.toLower) ↔ Digits v := by
  simp [Digits, isDigit_toLower]

theorem isNumUnsigned_map_toLower (v : Text) : isNumUnsigned (v.map Char.toLower) = isNumUnsigned v := by
  have hpoint : ∀ c : Char, c.toLower = '.' ↔ c = '.' := by
    intro c
    have h := toLower_eq_of_noLetter (p := fun c => decide (c = '.')) (by decide) c
    simpa using h
  rw [Bool.eq_iff_iff, isNumUnsigned_iff, isNumUnsigned_iff, digits_map_toLower]
  refine or_congr_right ?_
  constructor
  · rintro ⟨whole, frac, hwhole, hfrac, hv⟩
    obtain ⟨w, rest, rfl, rfl, hrest⟩ := List.map_eq_append_iff.mp hv
    obtain ⟨c, f, rfl, hc, rfl⟩ := List.map_eq_cons_iff.mp hrest
    obtain rfl := (hpoint c).mp hc
    exact ⟨w, f, digits_map_toLower.mp hwhole, digits_map_toLower.mp hfrac, rfl⟩
  · rintro ⟨whole, frac, hwhole, hfrac, rfl⟩
    refine ⟨whole.map Char.toLower, frac.map Char.toLower, digits_map_toLower.mpr hwhole,
      digits_map_toLower.mpr hfrac, ?_⟩
    rw [List.map_append, List.map_cons, (hpoint '.').mpr rfl]

theorem stripSuffix_append (a suffix : Text) : stripSuffix suffix (a ++ suffix) = some a := by
  rw [stripSuffix, if_pos (List.suffix_append a suffix)]
  simp

theorem eq_of_stripSuffix (h : stripSuffix suffix v = some a) : v = a ++ suffix := by
  unfold stripSuffix at h
  split at h
  · next hsuffix =>
    obtain ⟨start, rfl⟩ := hsuffix
    cases h
    simp
  · cases h

theorem stripSuffix_eq_none (h : ∀ a, v ≠ a ++ suffix) : stripSuffix suffix v = none := by
  rw [stripSuffix, if_neg]
  rintro ⟨a, ha⟩
  exact h a ha.symm

structure IsSize (number : Text) (unit : Char) (suffix : Text) : Prop where
  number : isNumUnsigned number = true
  unit : (byteExponent unit).isSome = true
  suffix : suffix = [] ∨ suffix = ['b'] ∨ suffix = ['i', 'b']

theorem byteExponent_isSome : (byteExponent c).isSome = true ↔ c ∈ ['k', 'm', 'g', 't'] := by
  unfold byteExponent
  (repeat' split) <;> simp_all

theorem mem_byteRe : s ∈ QueryLanguage.byteRe.lang ↔
    ∃ number unit suffix, s.map Char.toLower = number ++ unit :: suffix ∧ IsSize number unit suffix := by
  simp only [QueryLanguage.byteRe, Pattern.mem_seq, Pattern.mem_opt, Pattern.mem_one,
    mem_unsignedRe, decide_eq_true_eq]
  constructor
  · rintro ⟨number, hnumber, rest, ⟨last, ⟨unit, hunit, rfl⟩, suffix, hsuffix, rfl⟩, rfl⟩
    refine ⟨number.map Char.toLower, unit.toLower, suffix.map Char.toLower, by simp, ?_, ?_, ?_⟩
    · rw [isNumUnsigned_map_toLower]
      exact hnumber
    · exact byteExponent_isSome.mpr hunit
    · rcases hsuffix with rfl | ⟨first, rfl | ⟨i, hi, rfl⟩, second, ⟨b, hb, rfl⟩, rfl⟩
      · exact Or.inl rfl
      · exact Or.inr (Or.inl (by simp [hb]))
      · exact Or.inr (Or.inr (by simp [hi, hb]))
  · rintro ⟨number, unit, suffix, hs, hsize⟩
    obtain ⟨n, rest, rfl, rfl, hrest⟩ := List.map_eq_append_iff.mp hs
    obtain ⟨u, w, rfl, rfl, rfl⟩ := List.map_eq_cons_iff.mp hrest
    refine ⟨n, by rw [← isNumUnsigned_map_toLower]; exact hsize.number, u :: w,
      ⟨[u], ⟨u, byteExponent_isSome.mp hsize.unit, rfl⟩, w, ?_, rfl⟩, rfl⟩
    rcases hsize.suffix with hnil | hb | hib
    · exact Or.inl (List.map_eq_nil_iff.mp hnil)
    · obtain ⟨b, t, rfl, hlower, ht⟩ := List.map_eq_cons_iff.mp hb
      obtain rfl := List.map_eq_nil_iff.mp ht
      exact Or.inr ⟨[], Or.inl rfl, [b], ⟨b, hlower, rfl⟩, rfl⟩
    · obtain ⟨i, t, rfl, hi, ht⟩ := List.map_eq_cons_iff.mp hib
      obtain ⟨b, t', rfl, hb, ht'⟩ := List.map_eq_cons_iff.mp ht
      obtain rfl := List.map_eq_nil_iff.mp ht'
      exact Or.inr ⟨[i], Or.inr ⟨i, hi, rfl⟩, [b], ⟨b, hb, rfl⟩, rfl⟩

def sizeBody (lower : Text) : Text :=
  match stripSuffix ['i', 'b'] lower with
  | some stripped => stripped
  | none => (stripSuffix ['b'] lower).getD lower

theorem sizeBody_append (h : IsSize number unit suffix) :
    sizeBody (number ++ unit :: suffix) = number ++ [unit] := by
  have hne : unit ≠ 'i' ∧ unit ≠ 'b' := by
    have hunit := byteExponent_isSome.mp h.unit
    simp only [List.mem_cons, List.not_mem_nil, or_false] at hunit
    rcases hunit with rfl | rfl | rfl | rfl <;> decide
  rcases h.suffix with rfl | rfl | rfl
  · have hib : ∀ a, number ++ [unit] ≠ a ++ ['i', 'b'] := by
      intro a ha
      have hlast := congrArg List.getLast? ha
      rw [List.getLast?_concat, List.getLast?_append_of_ne_nil _ (by simp)] at hlast
      exact hne.2 (Option.some.inj hlast)
    have hb : ∀ a, number ++ [unit] ≠ a ++ ['b'] := by
      intro a ha
      have hlast := congrArg List.getLast? ha
      rw [List.getLast?_concat, List.getLast?_concat] at hlast
      exact hne.2 (Option.some.inj hlast)
    rw [sizeBody, stripSuffix_eq_none hib, stripSuffix_eq_none hb]
    rfl
  · have hib : ∀ a, number ++ [unit, 'b'] ≠ a ++ ['i', 'b'] := by
      intro a ha
      exact hne.1 (List.cons.inj (List.append_inj_right' ha rfl)).1
    have hsplit : number ++ [unit, 'b'] = (number ++ [unit]) ++ ['b'] := by simp
    rw [sizeBody, stripSuffix_eq_none hib, hsplit, stripSuffix_append]
    rfl
  · have hsplit : number ++ [unit, 'i', 'b'] = (number ++ [unit]) ++ ['i', 'b'] := by simp
    rw [sizeBody, hsplit, stripSuffix_append]

theorem sizeBody_cases (lower : Text) : ∃ suffix, lower = sizeBody lower ++ suffix ∧
    (suffix = [] ∨ suffix = ['b'] ∨ suffix = ['i', 'b']) := by
  unfold sizeBody
  split
  · next stripped h => exact ⟨_, eq_of_stripSuffix h, Or.inr (Or.inr rfl)⟩
  · cases hb : stripSuffix ['b'] lower with
    | some stripped => exact ⟨_, eq_of_stripSuffix hb, Or.inr (Or.inl rfl)⟩
    | none => exact ⟨[], (List.append_nil lower).symm, Or.inl rfl⟩

theorem parseByte_eq (s : Text) : parseByte s =
    match (sizeBody (s.map Char.toLower)).getLast?.bind byteExponent with
    | none => .ok none
    | some exp =>
      (leadingNumber (sizeBody (s.map Char.toLower)) >>= fun mantissa =>
        .ok (mantissa.map fun m => (m, exp))) := rfl

theorem parseByte_append {exp : Nat}
    (hbody : sizeBody (s.map Char.toLower) = number ++ [unit]) (hexp : byteExponent unit = some exp) :
    parseByte s = .ok ((if isNumUnsigned number then F64.parse number else none).map fun m => (m, exp)) := by
  rw [parseByte_eq, hbody, List.getLast?_concat, Option.bind_some, hexp]
  simp only [leadingNumber_append (byteExponent_ascii hexp)]
  rfl

theorem byteRe_agrees (s : Text) :
    QueryLanguage.byteRe.test s = true ↔ ∃ size, parseByte s = .ok (some size) := by
  rw [Pattern.test_iff, mem_byteRe]
  constructor
  · rintro ⟨number, unit, suffix, hs, hsize⟩
    obtain ⟨exp, hexp⟩ := Option.isSome_iff_exists.mp hsize.unit
    obtain ⟨m, hm⟩ := Option.isSome_iff_exists.mp (parse_isNumUnsigned hsize.number)
    refine ⟨(m, exp), ?_⟩
    rw [parseByte_append (by rw [hs]; exact sizeBody_append hsize) hexp, if_pos hsize.number, hm]
    rfl
  · rintro ⟨size, hparse⟩
    obtain ⟨suffix, hlower, hsuffix⟩ := sizeBody_cases (s.map Char.toLower)
    cases hlast : (sizeBody (s.map Char.toLower)).getLast?.bind byteExponent with
    | none =>
      rw [parseByte_eq, hlast] at hparse
      exact absurd (Except.ok.inj hparse) (by simp)
    | some exp =>
      obtain ⟨unit, hunit, hexp⟩ := Option.bind_eq_some_iff.mp hlast
      obtain ⟨number, hbody⟩ := List.getLast?_eq_some_iff.mp hunit
      rw [parseByte_append hbody hexp] at hparse
      obtain ⟨m, hm, -⟩ := Option.map_eq_some_iff.mp (Except.ok.inj hparse)
      split at hm
      · next hnumber =>
        refine ⟨number, unit, suffix, ?_, hnumber, by simp [hexp], hsuffix⟩
        rw [hlower, hbody, List.append_assoc]
        rfl
      · cases hm

/-! ## Dates -/

theorem relDateRe_agrees (s : Text) :
    QueryLanguage.relDateRe.test s = true ↔ ∃ date, parseRelDate s = .ok (some date) := by
  rw [Pattern.test_iff]
  simp only [QueryLanguage.relDateRe, Pattern.mem_seq, mem_char, mem_unsignedRe, Pattern.mem_one,
    decide_eq_true_eq]
  constructor
  · rintro ⟨sign, rfl, rest, ⟨number, hnumber, last, ⟨unit, hunit, rfl⟩, rfl⟩, rfl⟩
    obtain ⟨m, hm⟩ := Option.isSome_iff_exists.mp (parse_isNumUnsigned hnumber)
    refine ⟨(m, unit), ?_⟩
    rw [List.singleton_append, parseRelDate_append hunit, if_pos hnumber, hm]
    rfl
  · rintro ⟨date, hdate⟩
    rcases parseRelDate_cases s with hnone | ⟨number, unit, hunit, rfl⟩
    · exact absurd (Except.ok.inj (hnone.symm.trans hdate)) (by simp)
    · rw [parseRelDate_append hunit] at hdate
      obtain ⟨m, hm, -⟩ := Option.map_eq_some_iff.mp (Except.ok.inj hdate)
      split at hm
      · next hnumber =>
        exact ⟨['-'], rfl, number ++ [unit], ⟨number, hnumber, [unit], ⟨unit, hunit, rfl⟩, rfl⟩, rfl⟩
      · cases hm

theorem charAt?_forall₂ {ps : List (Char → Bool)} (hascii : ∀ p ∈ ps, ∀ c, p c = true → c.utf8Size = 1)
    {s : Text} : (∀ i p, ps[i]? = some p → (charAt? s i).any p = true) ↔
      ∃ first rest, s = first ++ rest ∧ List.Forall₂ (fun p c => p c = true) ps first := by
  induction ps generalizing s with
  | nil => exact iff_of_true (by simp) ⟨[], s, rfl, .nil⟩
  | cons p ps ih =>
    have hps : ∀ q ∈ ps, ∀ c, q c = true → c.utf8Size = 1 := fun q hq =>
      hascii q (List.mem_cons_of_mem _ hq)
    constructor
    · intro h
      obtain ⟨c, hhead, hc⟩ := (Option.any_eq_true _ _).mp (h 0 p rfl)
      rw [charAt?_zero] at hhead
      obtain ⟨tail, rfl⟩ := List.head?_eq_some_iff.mp hhead
      have hsize := hascii p List.mem_cons_self c hc
      obtain ⟨first, rest, rfl, hfirst⟩ := (ih hps).mp fun i q hq => by
        have hnext := h (i + 1) q hq
        rwa [charAt?_cons hsize] at hnext
      exact ⟨c :: first, rest, rfl, .cons hc hfirst⟩
    · rintro ⟨first, rest, rfl, hfirst⟩
      obtain ⟨c, more, hc, hmore, rfl⟩ := List.forall₂_cons_left_iff.mp hfirst
      have hsize := hascii p List.mem_cons_self c hc
      intro i q hq
      cases i with
      | zero =>
        cases hq
        simpa using hc
      | succ i =>
        rw [List.cons_append, charAt?_cons hsize]
        exact (ih hps).mpr ⟨more, rest, rfl, hmore⟩ i q hq

def isoClasses : List (Char → Bool) :=
  let d := F64.isDigit
  let dash (c : Char) : Bool := c = '-'
  [d, d, d, d, dash, d, d, dash, d, d]

theorem mem_isoDateRe : s ∈ QueryLanguage.isoDateRe.lang ↔
    ∃ date rest, s = date ++ rest ∧ List.Forall₂ (fun p c => p c = true) isoClasses date ∧
      (rest = [] ∨ ∃ sep more, rest = sep :: more ∧ (sep = 'T' ∨ sep = ' ') ∧
        ∀ c ∈ more, QueryLanguage.isLineTerminator c = false) := by
  have hlang : QueryLanguage.isoDateRe.lang = (Pattern.seq (Pattern.word isoClasses)
      (.opt (.seq (.one fun c => c = 'T' || c = ' ') (.many QueryLanguage.dot)))).lang := by
    have hassoc : ∀ d m o : Language Char,
        (d * (d * (d * (d * 1)))) * (m * ((d * (d * 1)) * (m * ((d * (d * 1)) * o)))) =
          (d * (d * (d * (d * (m * (d * (d * (m * (d * (d * 1)))))))))) * o := by
      intro d m o
      simp only [mul_assoc, one_mul]
    exact hassoc _ _ _
  rw [hlang]
  simp only [Pattern.mem_seq, Pattern.mem_word, Pattern.mem_opt, Pattern.mem_one, QueryLanguage.dot,
    Pattern.mem_many_one]
  constructor
  · rintro ⟨date, hdate, rest, hrest, rfl⟩
    refine ⟨date, rest, rfl, hdate, ?_⟩
    rcases hrest with rfl | ⟨first, ⟨sep, hsep, rfl⟩, more, hmore, rfl⟩
    · exact Or.inl rfl
    · exact Or.inr ⟨sep, more, rfl, by simpa using hsep, by simpa using hmore⟩
  · rintro ⟨date, rest, rfl, hdate, hrest⟩
    refine ⟨date, hdate, rest, ?_, rfl⟩
    rcases hrest with rfl | ⟨sep, more, rfl, hsep, hmore⟩
    · exact Or.inl rfl
    · exact Or.inr ⟨[sep], ⟨sep, by simpa using hsep, rfl⟩, more, by simpa using hmore, rfl⟩

theorem isDigit_ascii (h : F64.isDigit c = true) : c.utf8Size = 1 := by
  have hmax : c ≤ '9' := by simpa [F64.isDigit] using (Bool.and_eq_true_iff.mp h).2
  have hle : c.val ≤ 127 := UInt32.le_trans hmax (by decide)
  exact Char.utf8Size_eq_one_iff.mpr hle

theorem isoClasses_ascii : ∀ p ∈ isoClasses, ∀ c, p c = true → c.utf8Size = 1 := by
  have hdash : ∀ c : Char, decide (c = '-') = true → c.utf8Size = 1 := by
    intro c hc
    rw [of_decide_eq_true hc]
    decide
  intro p hp
  simp only [isoClasses, List.mem_cons, List.not_mem_nil, or_false] at hp
  rcases hp with rfl | rfl | rfl | rfl | rfl | rfl | rfl | rfl | rfl | rfl
  all_goals first | exact fun c => isDigit_ascii | exact hdash

theorem byteLen_ascii {ps : List (Char → Bool)} (hascii : ∀ p ∈ ps, ∀ c, p c = true → c.utf8Size = 1)
    {v : Text} (h : List.Forall₂ (fun p c => p c = true) ps v) : byteLen v = ps.length := by
  induction h with
  | nil => rfl
  | cons hc _ ih =>
    rw [byteLen_cons, hascii _ List.mem_cons_self _ hc,
      ih fun q hq => hascii q (List.mem_cons_of_mem _ hq), List.length_cons, Nat.add_comm]

theorem isoTests_iff : ([0, 1, 2, 3, 5, 6, 8, 9].all (fun i => (charAt? s i).any F64.isDigit) &&
      charAt? s 4 = some '-' && charAt? s 7 = some '-') = true ↔
        ∀ i p, isoClasses[i]? = some p → (charAt? s i).any p = true := by
  have hdash : ∀ i, charAt? s i = some '-' ↔ (charAt? s i).any (fun c => c = '-') = true := by
    intro i
    cases charAt? s i <;> simp
  simp only [List.all_cons, List.all_nil, Bool.and_true, Bool.and_eq_true, decide_eq_true_eq, hdash]
  constructor
  · rintro ⟨⟨⟨h0, h1, h2, h3, h5, h6, h8, h9⟩, h4⟩, h7⟩ i p hp
    have hlen : i < 10 := (List.getElem?_eq_some_iff.mp hp).1
    interval_cases i <;> obtain rfl := Option.some.inj hp <;> assumption
  · intro h
    exact ⟨⟨⟨h 0 _ rfl, h 1 _ rfl, h 2 _ rfl, h 3 _ rfl, h 5 _ rfl, h 6 _ rfl, h 8 _ rfl, h 9 _ rfl⟩,
      h 4 _ rfl⟩, h 7 _ rfl⟩

theorem isIsoDate_iff : isIsoDate s = true ↔
    ∃ date rest, s = date ++ rest ∧ List.Forall₂ (fun p c => p c = true) isoClasses date ∧
      (rest = [] ∨ ∃ sep more, rest = sep :: more ∧ (sep = 'T' ∨ sep = ' ')) := by
  -- What follows the date, by offsets.
  have hafter : ∀ date rest : Text, byteLen date = 10 →
      ((byteLen (date ++ rest) = 10 || charAt? (date ++ rest) 10 = some 'T' ||
        charAt? (date ++ rest) 10 = some ' ') = true ↔
          rest = [] ∨ ∃ sep more, rest = sep :: more ∧ (sep = 'T' ∨ sep = ' ')) := by
    intro date rest hlen
    have hhead : charAt? (date ++ rest) 10 = rest.head? := by
      rw [← hlen, charAt?_append]
    rw [hhead, byteLen_append, hlen]
    cases rest with
    | nil => simp
    | cons c more =>
      have hne : c.utf8Size ≠ 0 := (Char.utf8Size_pos c).ne'
      simp [hne]
  have hlen : ∀ {date : Text}, List.Forall₂ (fun p c => p c = true) isoClasses date →
      byteLen date = 10 := fun hdate => byteLen_ascii isoClasses_ascii hdate
  unfold isIsoDate
  dsimp only
  constructor
  · intro h
    split at h
    · cases h
    · split at h
      · cases h
      · next htests =>
        rw [Bool.not_eq_true', Bool.not_eq_false, isoTests_iff, charAt?_forall₂ isoClasses_ascii] at htests
        obtain ⟨date, rest, rfl, hdate⟩ := htests
        exact ⟨date, rest, rfl, hdate, (hafter date rest (hlen hdate)).mp h⟩
  · rintro ⟨date, rest, rfl, hdate, hrest⟩
    have htests := isoTests_iff.mpr ((charAt?_forall₂ isoClasses_ascii).mpr ⟨date, rest, rfl, hdate⟩)
    rw [if_neg (by rw [byteLen_append, hlen hdate]; omega), htests]
    exact (hafter date rest (hlen hdate)).mpr hrest

theorem isoDateRe_agrees (h : ∀ c ∈ s, QueryLanguage.isLineTerminator c = false) :
    QueryLanguage.isoDateRe.test s = isIsoDate s := by
  rw [Bool.eq_iff_iff, Pattern.test_iff, mem_isoDateRe, isIsoDate_iff]
  constructor
  · rintro ⟨date, rest, hs, hdate, hrest⟩
    exact ⟨date, rest, hs, hdate, hrest.imp_right fun ⟨sep, more, hmore, hsep, _⟩ =>
      ⟨sep, more, hmore, hsep⟩⟩
  · rintro ⟨date, rest, rfl, hdate, hrest⟩
    refine ⟨date, rest, rfl, hdate, hrest.imp_right ?_⟩
    rintro ⟨sep, more, rfl, hsep⟩
    refine ⟨sep, more, rfl, hsep, fun c hc => h c ?_⟩
    exact List.mem_append_right _ (List.mem_cons_of_mem _ hc)

/-! ## Classification -/

theorem returnsSome_iff {α : Type} {x : Except Panic (Option α)} {test : Bool}
    (hx : Returns x) (h : test = true ↔ ∃ a, x = .ok (some a)) : (x.map Option.isSome) = .ok test := by
  obtain ⟨o, rfl⟩ := hx
  cases o with
  | none =>
    have hfalse : test = false := by
      rw [← Bool.not_eq_true, h]
      rintro ⟨a, ha⟩
      exact absurd (Except.ok.inj ha) (by simp)
    rw [hfalse]
    rfl
  | some a =>
    rw [h.mpr ⟨a, rfl⟩]
    rfl

theorem isComparableValue_agrees {value : Text} (field : Text)
    (h : ∀ c ∈ value, QueryLanguage.isLineTerminator c = false) :
    isComparableValue field value = .ok (QueryLanguage.isComparableValue field value) := by
  obtain ⟨size, hsize⟩ := parseByte_returns value
  obtain ⟨date, hdate⟩ := parseRelDate_returns value
  have hbyte : QueryLanguage.byteRe.test value = size.isSome := by
    have hmap := returnsSome_iff ⟨size, hsize⟩ (byteRe_agrees value)
    rw [hsize] at hmap
    exact (Except.ok.inj hmap).symm
  have hrel : QueryLanguage.relDateRe.test value = date.isSome := by
    have hmap := returnsSome_iff ⟨date, hdate⟩ (relDateRe_agrees value)
    rw [hdate] at hmap
    exact (Except.ok.inj hmap).symm
  unfold isComparableValue QueryLanguage.isComparableValue
  rw [numRe_agrees, hbyte, hrel, isoDateRe_agrees h]
  simp only [hsize, hdate, pure, Except.pure, bind, Except.bind]
  cases isNum value <;> cases isBytesField field <;> cases size.isSome <;> cases isAtField field <;>
    cases date.isSome <;> cases isIsoDate value <;> rfl

theorem sugared_agrees (make : Text → QueryTerm) (rest : Text) :
    sugared make rest = .ok (QueryLanguage.sugared make rest) := by
  unfold sugared QueryLanguage.sugared
  rw [unquote_eq, unquote_agrees]
  obtain ⟨value, quoted, error⟩ := QueryLanguage.unquote rest
  simp only [bind, Except.bind, pure, Except.pure]
  cases error with
  | some e => rfl
  | none =>
    dsimp only
    split <;> rfl

theorem classifyContain_agrees (name : ContainName) (rest raw : Text) :
    classifyContain name rest raw = .ok (QueryLanguage.classifyContain name rest raw) := by
  by_cases hname : name = .attr
  · subst hname
    rcases split_first '=' rest with hnone | ⟨key, value, rfl, hkey⟩
    · rw [classifyContain_keyless (Or.inl hnone), QueryLanguage.classifyContain, if_pos rfl,
        findIdx?_of_notMem hnone]
    · by_cases hne : key = []
      · subst hne
        rw [classifyContain_keyless (Or.inr rfl), QueryLanguage.classifyContain, if_pos rfl,
          findIdx?_append_cons hkey]
        rfl
      · have hparts : (key ++ '=' :: value).take key.length = key ∧
            (key ++ '=' :: value).drop (key.length + 1) = value := by
          constructor
          · exact List.take_left
          · rw [← List.drop_drop, List.drop_left]
            rfl
        rw [classifyContain_attr hkey hne, sugared_agrees, QueryLanguage.classifyContain, if_pos rfl,
          findIdx?_append_cons hkey]
        split
        · next h => cases h
        · next h => exact absurd (List.length_eq_zero_iff.mp (Option.some.inj h)) hne
        · next h =>
          rw [← Option.some.inj h, hparts.1, hparts.2]
  · rw [classifyContain, if_neg hname, sugared_agrees, QueryLanguage.classifyContain, if_neg hname]

theorem value_subset (rest : Text) : ∀ c ∈ (readQuoted rest).value, c ∈ rest := by
  intro c hc
  rcases quoted_cases rest with hplain | ⟨inner, rfl, hnone⟩ | ⟨inner, after, rfl, hinner⟩
  · rwa [readQuoted_plain hplain] at hc
  · rw [readQuoted_open hnone] at hc
    exact List.mem_cons_of_mem _ hc
  · rw [readQuoted_closed hinner] at hc
    split at hc
    · exact List.mem_cons_of_mem _ (List.mem_append_left _ hc)
    · exact hc

theorem classifyFilter_agrees (field : Text) (op : OpText) (raw : Text)
    (h : ∀ c ∈ rest, QueryLanguage.isLineTerminator c = false) :
    classifyFilter field op rest raw = .ok (QueryLanguage.classifyFilter field op rest raw) := by
  have hvalue : ∀ c ∈ (readQuoted rest).value, QueryLanguage.isLineTerminator c = false :=
    fun c hc => h c (value_subset rest c hc)
  have hcomparable := isComparableValue_agrees field hvalue
  unfold classifyFilter QueryLanguage.classifyFilter
  rw [unquote_eq, ← unquote_agrees]
  generalize readQuoted rest = u at hcomparable
  obtain ⟨value, quoted, error⟩ := u
  simp only [hcomparable, bind, Except.bind, pure, Except.pure]
  split
  · rfl
  · cases error with
    | some e => rfl
    | none =>
      dsimp only
      split
      · rfl
      · split
        · rfl
        · cases (if quoted = true then baseOp op else listOp (baseOp op) value).isComparison <;>
            cases QueryLanguage.isComparableValue field value <;> rfl

/-! ## Filters -/

theorem fieldRe_test_iff : QueryLanguage.fieldRe.test v = true ↔
    ∃ c more, v = c :: more ∧ isFieldStart c = true ∧ ∀ d ∈ more, isFieldChar d = true := by
  rw [Pattern.test_iff]
  simp only [QueryLanguage.fieldRe, Pattern.mem_seq, Pattern.mem_one, Pattern.mem_many_one]
  constructor
  · rintro ⟨first, ⟨c, hc, rfl⟩, more, hmore, rfl⟩
    exact ⟨c, more, rfl, hc, hmore⟩
  · rintro ⟨c, more, rfl, hc, hmore⟩
    exact ⟨[c], ⟨c, hc, rfl⟩, more, hmore, rfl⟩

/-- No line ends inside the text. -/
def SingleLine (v : Text) : Prop := ∀ c ∈ v, QueryLanguage.isLineTerminator c = false

instance (v : Text) : Decidable (SingleLine v) := List.decidableBAll _ v

theorem findSome?_opTexts (after : Text) : (QueryLanguage.opTexts.findSome? fun op =>
    if op.1.isPrefixOf after then some (op.2, after.drop op.1.length) else none) =
      (matchOp after).map fun op => (op, after.drop op.len) := by
  unfold matchOp
  split
  case h_5 tail hne =>
    cases tail with
    | nil => rfl
    | cons d tail =>
      have hd : d ≠ '=' := fun hd => hne tail (by rw [hd])
      simp [QueryLanguage.opTexts, OpText.len, hd.symm]
  case h_6 tail hne =>
    cases tail with
    | nil => rfl
    | cons d tail =>
      have hd : d ≠ '=' := fun hd => hne tail (by rw [hd])
      simp [QueryLanguage.opTexts, OpText.len, hd.symm]
  case h_11 h1 h2 h3 h4 h5 h6 h7 h8 h9 h10 =>
    simp only [QueryLanguage.opTexts, List.findSome?_cons, List.isPrefixOf_iff_prefix]
    have hnone : ∀ first : Text, (∀ tail, after ≠ first ++ tail) → ¬ first <+: after := by
      rintro first hfirst ⟨tail, htail⟩
      exact hfirst tail htail.symm
    rw [if_neg (hnone _ h1), if_neg (hnone _ h2), if_neg (hnone _ h3), if_neg (hnone _ h4),
      if_neg (hnone _ h5), if_neg (hnone _ h6), if_neg (hnone _ h7), if_neg (hnone _ h8),
      if_neg (hnone _ h9), if_neg (hnone _ h10)]
    rfl
  all_goals simp [QueryLanguage.opTexts, OpText.len]

theorem opTexts_singleLine : ∀ op ∈ QueryLanguage.opTexts, SingleLine op.1 := by decide

theorem execOp_eq (after : Text) : QueryLanguage.execOp after =
    if SingleLine after then (matchOp after).map fun op => (op, after.drop op.len) else none := by
  rw [← findSome?_opTexts]
  unfold QueryLanguage.execOp
  by_cases h : SingleLine after
  · rw [if_pos h]
    congr 1
    funext op
    have hdrop : ((after.drop op.1.length).all fun c => !QueryLanguage.isLineTerminator c) = true :=
      List.all_eq_true.mpr fun c hc => by rw [h c (List.mem_of_mem_drop hc)]; rfl
    simp only [hdrop, Bool.and_true]
  · rw [if_neg h, List.findSome?_eq_none_iff]
    intro op hop
    refine if_neg fun hmatch => h ?_
    obtain ⟨hstart, hrest⟩ := Bool.and_eq_true_iff.mp hmatch
    obtain ⟨tail, rfl⟩ := List.isPrefixOf_iff_prefix.mp hstart
    intro c hc
    rcases List.mem_append.mp hc with hc | hc
    · exact opTexts_singleLine op hop c hc
    · rw [List.drop_left] at hrest
      exact Bool.not_eq_eq_eq_not.mp (List.all_eq_true.mp hrest c hc)

theorem head_of_matchOp {after : Text} (h : matchOp after = some op) :
    ∃ c tail, after = c :: tail ∧ isFieldChar c = false := by
  unfold matchOp at h
  split at h
  case h_11 => cases h
  all_goals exact ⟨_, _, rfl, by decide⟩

theorem findSome?_of_unique {α β : Type} {f : α → Option β} {l : List α} {a : α} (ha : a ∈ l)
    (h : ∀ b ∈ l, f b ≠ none → b = a) : l.findSome? f = f a := by
  induction l with
  | nil => cases ha
  | cons b l ih =>
    rw [List.findSome?_cons]
    cases hb : f b with
    | some v => rw [← h b List.mem_cons_self (by simp [hb]), hb]
    | none =>
      dsimp only
      rcases List.mem_cons.mp ha with rfl | hmem
      · rw [hb, List.findSome?_eq_none_iff]
        intro c hc
        by_contra hne
        rw [h c (List.mem_cons_of_mem _ hc) hne] at hne
        exact hne hb
      · exact ih hmem fun c hc => h c (List.mem_cons_of_mem _ hc)

theorem isFieldChar_bounds (h : isFieldChar c = true) : 46 ≤ c.toNat ∧ c.toNat ≤ 122 := by
  simp only [isFieldChar, isAsciiAlphabetic, F64.isDigit, Bool.or_eq_true, Bool.and_eq_true,
    decide_eq_true_eq] at h
  rcases h with (((⟨hmin, hmax⟩ | ⟨hmin, hmax⟩) | ⟨hmin, hmax⟩) | rfl) | rfl
  · exact ⟨Nat.le_trans (by decide) (show 97 ≤ c.toNat from hmin), hmax⟩
  · exact ⟨Nat.le_trans (by decide) (show 65 ≤ c.toNat from hmin),
      Nat.le_trans (show c.toNat ≤ 90 from hmax) (by decide)⟩
  · exact ⟨Nat.le_trans (by decide) (show 48 ≤ c.toNat from hmin),
      Nat.le_trans (show c.toNat ≤ 57 from hmax) (by decide)⟩
  · decide
  · decide

theorem isFieldChar_singleLine (h : isFieldChar c = true) : QueryLanguage.isLineTerminator c = false := by
  obtain ⟨hmin, hmax⟩ := isFieldChar_bounds h
  have hne : ∀ d : Char, d.toNat < 46 → c ≠ d := by
    rintro d hd rfl
    omega
  simp only [QueryLanguage.isLineTerminator, hne '\n' (by decide), hne '\r' (by decide),
    decide_false, Bool.false_or, Bool.or_eq_false_iff, beq_eq_false_iff_ne]
  omega

theorem isFieldChar_of_isFieldStart (h : isFieldStart c = true) : isFieldChar c = true := by
  unfold isFieldStart at h
  unfold isFieldChar
  rcases Bool.or_eq_true_iff.mp h with halpha | hunder
  · rw [halpha]
    rfl
  · simp [of_decide_eq_true hunder]

theorem take_field (first : Char) (tail : Text) :
    (first :: tail).take ((tail.takeWhile isFieldChar).length + 1) = first :: tail.takeWhile isFieldChar ∧
      (first :: tail).drop ((tail.takeWhile isFieldChar).length + 1) = tail.dropWhile isFieldChar := by
  have hsplit := List.takeWhile_append_dropWhile (p := isFieldChar) (l := tail)
  have htake := @List.take_left _ (tail.takeWhile isFieldChar) (tail.dropWhile isFieldChar)
  have hdrop := @List.drop_left _ (tail.takeWhile isFieldChar) (tail.dropWhile isFieldChar)
  rw [hsplit] at htake hdrop
  rw [List.take_succ_cons, List.drop_succ_cons, htake]
  exact ⟨rfl, hdrop⟩

theorem length_field {tail : Text} {n : Nat} (hfield : ∀ d ∈ tail.take n, isFieldChar d = true)
    {c : Char} {rest : Text} (hdrop : tail.drop n = c :: rest) (hc : isFieldChar c = false) :
    n = (tail.takeWhile isFieldChar).length := by
  have hlen : (tail.take n).length = n := by
    have hpos := congrArg List.length hdrop
    rw [List.length_drop, List.length_cons] at hpos
    rw [List.length_take]
    omega
  have htake : tail.takeWhile isFieldChar = tail.take n := by
    conv_lhs => rw [← List.take_append_drop n tail, hdrop]
    rw [List.takeWhile_append_of_pos hfield, List.takeWhile_cons, hc]
    simp
  rw [htake, hlen]

theorem filterRe_eq (raw : Text) : QueryLanguage.filterRe raw =
    if SingleLine raw then matchFilter raw else none := by
  cases raw with
  | nil => decide
  | cons first tail =>
    obtain ⟨htake, hdrop⟩ := take_field first tail
    have hall : ∀ c ∈ tail.takeWhile isFieldChar, isFieldChar c = true := fun c hc =>
      List.mem_takeWhile_imp hc
    -- Only the longest field can be followed by an operator.
    have hunique : ∀ n ∈ (List.range ((first :: tail).length + 1)).reverse,
        (if QueryLanguage.fieldRe.test ((first :: tail).take n) then
          (QueryLanguage.execOp ((first :: tail).drop n)).map fun m =>
            ((first :: tail).take n, m.1, m.2)
        else none) ≠ none → n = (tail.takeWhile isFieldChar).length + 1 := by
      intro n _ hne
      have hfield : QueryLanguage.fieldRe.test ((first :: tail).take n) = true := by
        by_contra hno
        exact hne (if_neg hno)
      rw [if_pos hfield] at hne
      obtain ⟨c, more, hcons, -, hmore⟩ := fieldRe_test_iff.mp hfield
      cases n with
      | zero => cases hcons
      | succ n =>
        cases hcons
        obtain ⟨m, hm⟩ := Option.ne_none_iff_exists'.mp hne
        obtain ⟨m', hm', -⟩ := Option.map_eq_some_iff.mp hm
        rw [execOp_eq] at hm'
        split at hm'
        · obtain ⟨op, hop, -⟩ := Option.map_eq_some_iff.mp hm'
          obtain ⟨d, rest, hrest, hd⟩ := head_of_matchOp hop
          rw [length_field hmore hrest hd]
        · cases hm'
    have hmem : (tail.takeWhile isFieldChar).length + 1 ∈
        (List.range ((first :: tail).length + 1)).reverse := by
      have hlen := (List.takeWhile_prefix isFieldChar (l := tail)).length_le
      rw [List.mem_reverse, List.mem_range, List.length_cons]
      omega
    unfold QueryLanguage.filterRe
    rw [findSome?_of_unique hmem hunique, htake, hdrop, execOp_eq]
    by_cases hfirst : isFieldStart first = true
    · have hfieldRe : QueryLanguage.fieldRe.test (first :: tail.takeWhile isFieldChar) = true :=
        fieldRe_test_iff.mpr ⟨first, _, rfl, hfirst, hall⟩
      have hlines : SingleLine (tail.dropWhile isFieldChar) ↔ SingleLine (first :: tail) := by
        constructor
        · intro h c hc
          rcases List.mem_cons.mp hc with rfl | hc
          · exact isFieldChar_singleLine (isFieldChar_of_isFieldStart hfirst)
          · rw [← List.takeWhile_append_dropWhile (p := isFieldChar) (l := tail)] at hc
            rcases List.mem_append.mp hc with hc | hc
            · exact isFieldChar_singleLine (hall c hc)
            · exact h c hc
        · intro h c hc
          exact h c (List.mem_cons_of_mem _ ((List.dropWhile_sublist _).mem hc))
      rw [if_pos hfieldRe]
      simp only [hlines, matchFilter, hfirst, if_true]
      split
      · rw [Option.map_map]
        rfl
      · rfl
    · have hfieldRe : QueryLanguage.fieldRe.test (first :: tail.takeWhile isFieldChar) = false := by
        by_contra htest
        obtain ⟨c, more, hcons, hc, -⟩ := fieldRe_test_iff.mp (Bool.eq_true_of_not_eq_false htest)
        rw [← (List.cons.inj hcons).1] at hc
        exact hfirst hc
      simp [matchFilter, hfirst, hfieldRe]

theorem rest_subset {field : Text} (h : matchFilter raw = some (field, op, rest)) : ∀ c ∈ rest, c ∈ raw := by
  cases raw with
  | nil => exact absurd h (by simp [matchFilter])
  | cons first tail =>
    simp only [matchFilter] at h
    split at h
    · obtain ⟨op', -, hparts⟩ := Option.map_eq_some_iff.mp h
      obtain ⟨-, hparts⟩ := Prod.mk.inj hparts
      obtain ⟨-, rfl⟩ := Prod.mk.inj hparts
      intro c hc
      exact List.mem_cons_of_mem _ ((List.dropWhile_sublist _).mem (List.mem_of_mem_drop hc))
    · cases h

/-! ## Tokens -/

/-- A filter whose value goes over several lines: the two parsers differ. -/
def Spanning (raw : Text) : Prop :=
  raw.head? ≠ some '"' ∧ (matchFilter raw).isSome = true ∧ ¬ SingleLine raw

instance (raw : Text) : Decidable (Spanning raw) := inferInstanceAs (Decidable (_ ∧ _ ∧ _))

/-- **A token on one line stands for the same on both sides.** -/
theorem classifyToken_agrees (h : ¬ Spanning raw) :
    classifyToken raw = .ok (QueryLanguage.classifyToken raw) := by
  unfold classifyToken QueryLanguage.classifyToken
  rw [unquote_eq, unquote_agrees]
  simp only [pure, Except.pure, bind, Except.bind]
  by_cases hquote : raw.head? = some '"'
  · rw [if_pos hquote, if_pos hquote]
    cases (QueryLanguage.unquote raw).error <;> rfl
  · have hfilter : QueryLanguage.filterRe raw = matchFilter raw := by
      rw [filterRe_eq]
      split
      · rfl
      · next hlines =>
        by_contra hne
        exact h ⟨hquote, Option.isSome_iff_ne_none.mpr fun hnone => hne hnone.symm, hlines⟩
    rw [if_neg hquote, if_neg hquote, hfilter]
    cases hmatch : matchFilter raw with
    | none =>
      dsimp only
      split <;> rfl
    | some m =>
      obtain ⟨field, op, rest⟩ := m
      have hlines : SingleLine raw := by
        by_contra hlines
        exact h ⟨hquote, by simp [hmatch], hlines⟩
      have hrest : ∀ c ∈ rest, QueryLanguage.isLineTerminator c = false := fun c hc =>
        hlines c (rest_subset hmatch c hc)
      dsimp only
      split
      · exact sugared_agrees _ rest
      · cases (if op = .colon then containName field else none) with
        | some name => exact classifyContain_agrees name rest raw
        | none => exact classifyFilter_agrees field op raw hrest

/-- A filter with a line terminator, which a token has in quotes only, is an error in the browser. -/
theorem classifyToken_spanning (h : Spanning raw) (hquote : '"' ∈ raw) :
    QueryLanguage.classifyToken raw = .error "could not parse term" := by
  unfold QueryLanguage.classifyToken
  rw [if_neg h.1, filterRe_eq, if_neg h.2.2]
  have hany : (raw.any fun c => c = ':' || c = '<' || c = '>' || c = '"') = true :=
    List.any_eq_true.mpr ⟨'"', hquote, by simp⟩
  simp only [hany, if_true]

end QueryDsl

end Mekhan

import Mathlib.Data.List.Basic
import Mathlib.Algebra.Ring.Nat

/-!
# Words with quotes

A text is split into words at its spaces, where a double quote glues what follows up to the next one.
What a space is and how wide a character counts are parameters.
-/

namespace Infra

/-- A word and the position it starts at. -/
structure Word where
  text : List Char
  start : Nat
  deriving DecidableEq

namespace Word

variable (isSpace : Char → Bool) (width : Char → Nat)

/-- Whether the text is inside quotes after a character. -/
def quoteAfter (inQuote : Bool) (c : Char) : Bool := if c = '"' then !inQuote else inQuote

/-- The words from an offset on; a word that has begun comes with whether it is inside quotes. -/
def scan : Nat → Option (Word × Bool) → List Char → List Word
  | _, none, [] => []
  | _, some (word, _), [] => [word]
  | i, none, c :: rest =>
    if isSpace c then scan (i + width c) none rest
    else scan (i + width c) (some (⟨[c], i⟩, quoteAfter false c)) rest
  | i, some (word, inQuote), c :: rest =>
    if inQuote || !isSpace c then
      scan (i + width c) (some (⟨word.text ++ [c], word.start⟩, quoteAfter inQuote c)) rest
    else word :: scan (i + width c) none rest

/-- Splits at white space outside quotes. -/
def words (text : List Char) : List Word := scan isSpace width 0 none text

/-- The text without the spaces outside quotes. -/
def keep : Bool → List Char → List Char
  | _, [] => []
  | inQuote, c :: rest =>
    if inQuote || !isSpace c then c :: keep (quoteAfter inQuote c) rest else keep inQuote rest

def unquoted : Bool → List Char → List Char
  | _, [] => []
  | inQuote, c :: rest =>
    if inQuote then unquoted (quoteAfter inQuote c) rest
    else c :: unquoted (quoteAfter inQuote c) rest

variable {isSpace width}

variable {rest : List Char} {i : Nat} {inQuote : Bool}

theorem scan_space_or_begin {c : Char} : scan isSpace width i none (c :: rest) =
    if isSpace c then scan isSpace width (i + width c) none rest
    else scan isSpace width (i + width c) (some (⟨[c], i⟩, quoteAfter false c)) rest := rfl

theorem scan_go_on_or_end {w : Word × Bool} {c : Char} : scan isSpace width i (some w) (c :: rest) =
      if w.2 || !isSpace c then
        scan isSpace width (i + width c) (some (⟨w.1.text ++ [c], w.1.start⟩, quoteAfter w.2 c)) rest
      else w.1 :: scan isSpace width (i + width c) none rest := rfl

theorem keep_cons {c : Char} : keep isSpace inQuote (c :: rest) =
    if inQuote || !isSpace c then c :: keep isSpace (quoteAfter inQuote c) rest else keep isSpace inQuote rest := rfl

theorem flatten_scan (text : List Char) : ∀ (i : Nat) (current : Option (Word × Bool)),
    ((scan isSpace width i current text).map Word.text).flatten = (current.elim [] fun w => w.1.text) ++
        keep isSpace (current.elim false Prod.snd) text := by
  induction text with
  | nil =>
    intro i current
    cases current <;> simp [scan, keep]
  | cons c rest ih =>
    intro i current
    cases current with
    | none =>
      by_cases hc : isSpace c
      · simp [scan_space_or_begin, keep_cons, hc, ih]
      · simp [scan_space_or_begin, keep_cons, hc, ih]
    | some w =>
      obtain ⟨word, inQuote⟩ := w
      by_cases hc : (inQuote || !isSpace c) = true
      · simp only [scan_go_on_or_end, keep_cons, hc, if_true, ih, Option.elim_some]
        rw [List.append_assoc]
        rfl
      · have hquote : inQuote = false := by
          cases inQuote with
          | false => rfl
          | true => exact absurd rfl hc
        subst hquote
        simp only [scan_go_on_or_end, keep_cons, hc, Bool.false_eq_true, if_false, List.map_cons, List.flatten_cons, ih,
          Option.elim_some, Option.elim_none, List.nil_append]

theorem flatten_words (text : List Char) :
    ((words isSpace width text).map Word.text).flatten = keep isSpace false text :=
  flatten_scan text 0 none

theorem scan_congr {isSpace' : Char → Bool} (hquote : isSpace '"' = false) {text : List Char} :
    ∀ {i : Nat} {current : Option (Word × Bool)},
      (∀ c ∈ unquoted (current.elim false Prod.snd) text, isSpace c = isSpace' c) →
        scan isSpace width i current text = scan isSpace' width i current text := by
  induction text with
  | nil =>
    intro i current _
    cases current <;> rfl
  | cons c rest ih =>
    -- A space outside quotes is no quote, so what follows is outside quotes too.
    have hafter : isSpace c = true → quoteAfter false c = false := by
      intro hspace
      have hne : c ≠ '"' := by
        rintro rfl
        exact absurd hspace (by simp [hquote])
      rw [quoteAfter, if_neg hne]
    have houtside : (∀ d ∈ unquoted false (c :: rest), isSpace d = isSpace' d) →
        isSpace c = isSpace' c ∧
          ∀ d ∈ unquoted (quoteAfter false c) rest, isSpace d = isSpace' d := by
      intro h
      exact ⟨h c (by simp [unquoted]), fun d hd => h d (by simp [unquoted, hd])⟩
    intro i current h
    cases current with
    | none =>
      obtain ⟨hc, hrest⟩ := houtside h
      simp only [scan_space_or_begin, ← hc]
      split
      · next hspace =>
        rw [hafter hspace] at hrest
        exact ih hrest
      · exact ih hrest
    | some w =>
      obtain ⟨word, inQuote⟩ := w
      cases inQuote with
      | true =>
        simp only [scan_go_on_or_end, Bool.true_or, if_true]
        exact ih h
      | false =>
        obtain ⟨hc, hrest⟩ := houtside h
        simp only [scan_go_on_or_end, ← hc, Bool.false_or, Bool.not_eq_true']
        split
        · exact ih hrest
        · next hspace =>
          rw [hafter (by simpa using hspace)] at hrest
          rw [@ih _ none hrest]

theorem words_congr {isSpace' : Char → Bool} (hquote : isSpace '"' = false) {text : List Char}
    (h : ∀ c ∈ unquoted false text, isSpace c = isSpace' c) :
    words isSpace width text = words isSpace' width text := scan_congr hquote h

/-- White space occurs only in a text with a quote. -/
def Quoted (isSpace : Char → Bool) (text : List Char) : Prop :=
  ∀ c ∈ text, isSpace c = true → '"' ∈ text

variable {a text w : List Char} {c : Char}

theorem quoted_scan : ∀ {i : Nat} {current : Option (Word × Bool)},
      (∀ w ∈ current, Quoted isSpace w.1.text ∧ (w.2 = true → '"' ∈ w.1.text)) →
        ∀ word ∈ scan isSpace width i current text, Quoted isSpace word.text := by
  induction text with
  | nil =>
    intro i current hcurrent word hword
    cases current with
    | none => cases hword
    | some w =>
      rw [List.mem_singleton.mp hword]
      exact (hcurrent w rfl).1
  | cons c rest ih =>
    have hnone : ∀ w ∈ (none : Option (Word × Bool)),
        Quoted isSpace w.1.text ∧ (w.2 = true → '"' ∈ w.1.text) := fun w hw => absurd hw (by simp)
    intro i current hcurrent word hword
    cases current with
    | none =>
      simp only [scan_space_or_begin] at hword
      split at hword
      · exact ih hnone word hword
      · next hc =>
        refine ih (fun w hw => ?_) word hword
        cases hw
        constructor
        · intro d hd hspace
          rw [List.mem_singleton.mp hd] at hspace
          exact absurd hspace hc
        · intro hquote
          have hc' : c = '"' := by simpa [quoteAfter] using hquote
          simp [hc']
    | some w =>
      obtain ⟨hquoted, hopen⟩ := hcurrent w rfl
      simp only [scan_go_on_or_end] at hword
      split at hword
      · next hkept =>
        refine ih (fun w' hw' => ?_) word hword
        cases hw'
        constructor
        · intro d hd hspace
          apply List.mem_append_left
          rcases List.mem_append.mp hd with hd | hd
          · exact hquoted d hd hspace
          · rw [List.mem_singleton.mp hd] at hspace
            exact hopen (by simpa [hspace] using hkept)
        · intro hquote
          show '"' ∈ w.1.text ++ [c]
          by_cases hc : c = '"'
          · simp [hc]
          · rw [quoteAfter, if_neg hc] at hquote
            exact List.mem_append_left _ (hopen hquote)
      · rcases List.mem_cons.mp hword with rfl | hword
        · exact hquoted
        · exact ih hnone word hword

theorem quoted_words (text : List Char) : ∀ word ∈ words isSpace width text, Quoted isSpace word.text :=
  quoted_scan fun w hw => absurd hw (by simp)

/-! ## Starts -/

theorem start_mem_scan (hwidth : ∀ c, 0 < width c) {text : List Char} :
    ∀ {i : Nat} {current : Option (Word × Bool)} {word : Word}, word ∈ scan isSpace width i current text →
        i ≤ word.start ∨ ∃ w ∈ current, word.start = w.1.start := by
  induction text with
  | nil =>
    intro i current word hword
    cases current with
    | none => cases hword
    | some w => exact Or.inr ⟨w, rfl, by rw [List.mem_singleton.mp hword]⟩
  | cons c rest ih =>
    have hc := hwidth c
    intro i current word hword
    cases current with
    | none =>
      simp only [scan_space_or_begin] at hword
      split at hword
      · obtain hle | ⟨w, hw, -⟩ := ih hword
        · exact Or.inl (by omega)
        · cases hw
      · obtain hle | ⟨w, hw, hstart⟩ := ih hword
        · exact Or.inl (by omega)
        · cases hw
          exact Or.inl (Nat.le_of_eq hstart.symm)
    | some w =>
      simp only [scan_go_on_or_end] at hword
      split at hword
      · obtain hle | ⟨w', hw', hstart⟩ := ih hword
        · exact Or.inl (by omega)
        · cases hw'
          exact Or.inr ⟨w, rfl, hstart⟩
      · rcases List.mem_cons.mp hword with rfl | hword
        · exact Or.inr ⟨w, rfl, rfl⟩
        · obtain hle | ⟨w', hw', -⟩ := ih hword
          · exact Or.inl (by omega)
          · cases hw'

theorem pairwise_scan (hwidth : ∀ c, 0 < width c) {text : List Char} :
    ∀ {i : Nat} {current : Option (Word × Bool)}, (∀ w ∈ current, w.1.start < i) →
      (scan isSpace width i current text).Pairwise fun a b => a.start < b.start := by
  induction text with
  | nil =>
    intro i current _
    cases current <;> simp [scan]
  | cons c rest ih =>
    have hc := hwidth c
    intro i current hcurrent
    cases current with
    | none =>
      simp only [scan_space_or_begin]
      split
      · exact ih fun w hw => absurd hw (by simp)
      · refine ih fun w hw => ?_
        cases hw
        exact Nat.lt_add_of_pos_right hc
    | some w =>
      have hw := hcurrent w rfl
      simp only [scan_go_on_or_end]
      split
      · refine ih fun w' hw' => ?_
        cases hw'
        show w.1.start < i + width c
        omega
      · refine List.pairwise_cons.mpr ⟨?_, ih fun w' hw' => absurd hw' (by simp)⟩
        intro word hword
        obtain hle | ⟨w', hw', -⟩ := start_mem_scan hwidth hword
        · omega
        · cases hw'

theorem starts_words (hwidth : ∀ c, 0 < width c) (text : List Char) :
    (words isSpace width text).Pairwise fun a b => a.start < b.start :=
  pairwise_scan hwidth fun w hw => absurd hw (by simp)

/-- How wide the first characters of a text are. -/
def offset (width : Char → Nat) (text : List Char) (n : Nat) : Nat := ((text.take n).map width).sum

/-- A word measured by another width: it starts where the characters before it end. -/
def remeasure (width : Char → Nat) (text : List Char) (word : Word) : Word :=
  ⟨word.text, offset width text word.start⟩

theorem scan_remeasure (text before : List Char) : ∀ (current : Option (Word × Bool)),
      (scan isSpace (fun _ => 1) before.length current text).map
          (remeasure width (before ++ text)) = scan isSpace width (offset width before before.length)
          (current.map fun w => (remeasure width (before ++ text) w.1, w.2)) text := by
  induction text generalizing before with
  | nil =>
    intro current
    cases current <;> rfl
  | cons c rest ih =>
    intro current
    have hlen : before.length + 1 = (before ++ [c]).length := by simp
    have hoffset : offset width before before.length + width c =
        offset width (before ++ [c]) (before ++ [c]).length := by
      unfold offset
      rw [List.take_length, List.take_length, List.map_append, List.sum_append]
      simp
    have happend : before ++ c :: rest = (before ++ [c]) ++ rest := by simp
    have hstart : remeasure width (before ++ c :: rest) ⟨[c], before.length⟩ =
        ⟨[c], offset width before before.length⟩ := by
      simp [remeasure, offset]
    cases current with
    | none =>
      simp only [scan_space_or_begin, Option.map_none]
      split
      · rw [hlen, happend, hoffset, ih (before ++ [c]) none]
        rfl
      · rw [← hstart, hlen, happend, hoffset, ih (before ++ [c])]
        rfl
    | some w =>
      simp only [scan_go_on_or_end, Option.map_some]
      split
      · rw [hlen, happend, hoffset, ih (before ++ [c])]
        rfl
      · rw [List.map_cons, hlen, happend, hoffset, ih (before ++ [c]) none]
        rfl

theorem words_remeasure (text : List Char) :
    (words isSpace (fun _ => 1) text).map (remeasure width text) = words isSpace width text :=
  scan_remeasure text [] none

/-! ## Counting -/

theorem count_keep (hc : c ≠ '"') (hquote : isSpace '"' = false) (text : List Char) :
    ∀ inQuote, (keep isSpace inQuote text).count c +
      (if isSpace c then (unquoted inQuote text).count c else 0) = text.count c := by
  induction text with
  | nil =>
    intro inQuote
    simp [keep, unquoted]
  | cons d rest ih =>
    intro inQuote
    have hafter : isSpace d = true → quoteAfter inQuote d = inQuote := by
      intro hspace
      have hne : d ≠ '"' := by
        rintro rfl
        exact absurd hspace (by simp [hquote])
      rw [quoteAfter, if_neg hne]
    by_cases htaken : (inQuote || !isSpace d) = true
    · have hih := ih (quoteAfter inQuote d)
      simp only [keep_cons, htaken, if_true, List.count_cons]
      cases inQuote with
      | true =>
        simp only [unquoted, if_true]
        omega
      | false =>
        have hd : isSpace d = false := by simpa using htaken
        simp only [unquoted, Bool.false_eq_true, if_false, List.count_cons]
        by_cases hcd : d = c
        · subst hcd
          simp only [hd, Bool.false_eq_true, if_false] at hih ⊢
          omega
        · simp only [beq_iff_eq, hcd, if_false]
          omega
    · obtain ⟨rfl, hd⟩ : inQuote = false ∧ isSpace d = true := by simpa using htaken
      have hih := ih false
      rw [← hafter hd] at hih
      simp only [keep_cons, htaken, if_false, unquoted, Bool.false_eq_true, List.count_cons]
      rw [hafter hd] at hih ⊢
      by_cases hcd : d = c
      · subst hcd
        simp only [hd, if_true, beq_self_eq_true] at hih ⊢
        omega
      · simp only [beq_iff_eq, hcd, if_false]
        omega

/-! ## Texts -/

variable (isSpace) in
/-- A text that has no space outside quotes, where it starts inside quotes or not. -/
def Solid : Bool → List Char → Prop
  | _, [] => True
  | inQuote, c :: rest => (inQuote = true ∨ isSpace c = false) ∧ Solid (quoteAfter inQuote c) rest

/-- Whether the text is inside quotes at its end. -/
def quoteEnd (inQuote : Bool) (text : List Char) : Bool := text.foldl quoteAfter inQuote

variable (isSpace) in
/-- The rest of a word that has begun, and what comes after it. -/
def spanWord : Bool → List Char → List Char × List Char
  | _, [] => ([], [])
  | inQuote, c :: rest =>
    if inQuote || !isSpace c then
      let next := spanWord (quoteAfter inQuote c) rest
      (c :: next.1, next.2)
    else ([], c :: rest)

variable (isSpace width) in
def texts (text : List Char) : List (List Char) := (words isSpace width text).map Word.text

theorem quoteEnd_append (inQuote : Bool) (a b : List Char) :
    quoteEnd inQuote (a ++ b) = quoteEnd (quoteEnd inQuote a) b := List.foldl_append

theorem quoteEnd_of_notMem (h : '"' ∉ a) (inQuote : Bool) : quoteEnd inQuote a = inQuote := by
  induction a with
  | nil => rfl
  | cons c a ih =>
    rw [List.mem_cons, not_or] at h
    rw [quoteEnd, List.foldl_cons, quoteAfter, if_neg (Ne.symm h.1)]
    exact ih h.2

theorem solid_append {b : List Char} : ∀ {inQuote : Bool},
    Solid isSpace inQuote (a ++ b) ↔ Solid isSpace inQuote a ∧ Solid isSpace (quoteEnd inQuote a) b := by
  induction a with
  | nil => exact fun {_} => (and_iff_right trivial).symm
  | cons c a ih =>
    intro inQuote
    rw [List.cons_append, Solid, Solid, ih, and_assoc]
    rfl

theorem solid_of_noSpace (h : ∀ c ∈ a, isSpace c = false) : ∀ inQuote, Solid isSpace inQuote a := by
  induction a with
  | nil => exact fun _ => trivial
  | cons c a ih =>
    rw [List.forall_mem_cons] at h
    exact fun inQuote => ⟨.inr h.1, ih h.2 _⟩

theorem solid_of_notMem (h : '"' ∉ a) : Solid isSpace true a := by
  induction a with
  | nil => trivial
  | cons c a ih =>
    rw [List.mem_cons, not_or] at h
    refine ⟨.inl rfl, ?_⟩
    rw [quoteAfter, if_neg (Ne.symm h.1)]
    exact ih h.2

theorem spanWord_cons {c : Char} : spanWord isSpace inQuote (c :: rest) =
    if inQuote || !isSpace c then
      (c :: (spanWord isSpace (quoteAfter inQuote c) rest).1, (spanWord isSpace (quoteAfter inQuote c) rest).2)
    else ([], c :: rest) := rfl

theorem spanWord_append (b : List Char) : ∀ {inQuote : Bool}, Solid isSpace inQuote a →
    spanWord isSpace inQuote (a ++ b) =
      (a ++ (spanWord isSpace (quoteEnd inQuote a) b).1, (spanWord isSpace (quoteEnd inQuote a) b).2) := by
  induction a with
  | nil => exact fun _ => rfl
  | cons c a ih =>
    intro inQuote h
    have hc : (inQuote || !isSpace c) = true := by
      rcases h.1 with hq | hs
      · simp [hq]
      · simp [hs]
    rw [List.cons_append, spanWord_cons, if_pos hc, ih h.2]
    rfl

theorem solid_spanWord : ∀ {inQuote : Bool}, Solid isSpace inQuote (spanWord isSpace inQuote text).1 := by
  induction text with
  | nil => exact fun {_} => trivial
  | cons c rest ih =>
    intro inQuote
    rw [spanWord_cons]
    split
    · next hc =>
      refine ⟨?_, ih⟩
      rcases Bool.or_eq_true_iff.mp hc with hq | hs
      · exact .inl hq
      · exact .inr (by simpa using hs)
    · trivial

theorem spanWord_snd : ∀ {inQuote : Bool}, (spanWord isSpace inQuote text).2 = [] ∨
    quoteEnd inQuote (spanWord isSpace inQuote text).1 = false := by
  induction text with
  | nil => exact fun {_} => .inl rfl
  | cons c rest ih =>
    intro inQuote
    rw [spanWord_cons]
    split
    · exact ih
    · next hc =>
      refine .inr ?_
      cases inQuote with
      | false => rfl
      | true => exact absurd rfl hc

theorem spanWord_split : ∀ {inQuote : Bool},
    (spanWord isSpace inQuote text).1 ++ (spanWord isSpace inQuote text).2 = text := by
  induction text with
  | nil => exact fun {_} => rfl
  | cons c rest ih =>
    intro inQuote
    rw [spanWord_cons]
    split
    · exact congrArg (c :: ·) ih
    · rfl

theorem scan_texts {width' : Char → Nat} : ∀ {i j : Nat} {w w' : Option (Word × Bool)},
    (w.map fun w => (w.1.text, w.2)) = (w'.map fun w => (w.1.text, w.2)) →
      (scan isSpace width i w text).map Word.text = (scan isSpace width' j w' text).map Word.text := by
  induction text with
  | nil =>
    intro i j w w' h
    cases w <;> cases w' <;> simp_all [scan]
  | cons c rest ih =>
    intro i j w w' h
    cases w with
    | none =>
      cases w' with
      | some w' => cases h
      | none =>
        rw [scan_space_or_begin, scan_space_or_begin]
        split
        · exact ih rfl
        · exact ih rfl
    | some w =>
      cases w' with
      | none => cases h
      | some w' =>
        obtain ⟨word, inQuote⟩ := w
        obtain ⟨word', inQuote'⟩ := w'
        obtain ⟨htext, rfl⟩ := Prod.mk.inj (Option.some.inj h)
        rw [scan_go_on_or_end, scan_go_on_or_end]
        split
        · refine ih ?_
          rw [Option.map_some, Option.map_some, show word.text = word'.text from htext]
        · rw [List.map_cons, List.map_cons, htext, ih rfl]

theorem scan_some (i : Nat) (word : Word) (text : List Char) : ∀ inQuote : Bool,
    (scan isSpace width i (some (word, inQuote)) text).map Word.text =
      (word.text ++ (spanWord isSpace inQuote text).1) ::
        texts isSpace width (spanWord isSpace inQuote text).2 := by
  induction text generalizing i word with
  | nil =>
    intro inQuote
    simp [scan, spanWord, texts, words]
  | cons c rest ih =>
    intro inQuote
    rw [scan_go_on_or_end, spanWord_cons]
    split
    · rw [ih, List.append_assoc]
      rfl
    · next hc =>
      have hspace : isSpace c = true := by
        cases inQuote <;> simp_all
      rw [List.map_cons, List.append_nil, texts, words, scan_space_or_begin, if_pos hspace]
      exact congrArg (word.text :: ·) (scan_texts rfl)

@[simp] theorem texts_nil : texts isSpace width [] = [] := rfl

theorem texts_cons_of_space (h : isSpace c = true) (rest : List Char) :
    texts isSpace width (c :: rest) = texts isSpace width rest := by
  rw [texts, words, scan_space_or_begin, if_pos h]
  exact scan_texts rfl

theorem texts_cons (h : isSpace c = false) (rest : List Char) :
    texts isSpace width (c :: rest) = (spanWord isSpace false (c :: rest)).1 ::
      texts isSpace width (spanWord isSpace false (c :: rest)).2 := by
  rw [texts, words, scan_space_or_begin, if_neg (by simp [h]), scan_some, spanWord, if_pos (by simp [h])]
  rfl

theorem texts_append (hne : w ≠ []) (hw : Solid isSpace false w) (rest : List Char) :
    texts isSpace width (w ++ rest) = (w ++ (spanWord isSpace (quoteEnd false w) rest).1) ::
      texts isSpace width (spanWord isSpace (quoteEnd false w) rest).2 := by
  cases w with
  | nil => exact absurd rfl hne
  | cons c w =>
    have hc : isSpace c = false := hw.1.resolve_left (by simp)
    rw [List.cons_append, texts_cons hc, ← List.cons_append, spanWord_append rest hw]

theorem texts_append_space (hne : w ≠ []) (hw : Solid isSpace false w)
    (hend : quoteEnd false w = false) {c : Char} (hc : isSpace c = true) (rest : List Char) :
    texts isSpace width (w ++ c :: rest) = w :: texts isSpace width (c :: rest) := by
  rw [texts_append hne hw, hend, spanWord_cons, if_neg (by simp [hc]), List.append_nil]

theorem texts_word (hne : w ≠ []) (hw : Solid isSpace false w) : texts isSpace width w = [w] := by
  have h : texts isSpace width (w ++ []) = _ := texts_append hne hw []
  rwa [List.append_nil, spanWord, List.append_nil] at h

variable (isSpace) in
/-- Words as a text has them: only the last may end inside quotes. -/
structure Sentence (ws : List (List Char)) : Prop where
  ne_nil : ∀ w ∈ ws, w ≠ []
  solid : ∀ w ∈ ws, Solid isSpace false w
  closed : ws.Pairwise fun w _ => quoteEnd false w = false

theorem Sentence.sublist {ws ws' : List (List Char)} (h : Sentence isSpace ws) (hsub : ws'.Sublist ws) :
    Sentence isSpace ws' :=
  ⟨fun w hw => h.ne_nil w (hsub.subset hw), fun w hw => h.solid w (hsub.subset hw), h.closed.sublist hsub⟩

/-- **The words of a text are a sentence.** -/
theorem sentence_texts (text : List Char) : Sentence isSpace (texts isSpace width text) := by
  induction hn : text.length using Nat.strong_induction_on generalizing text with
  | _ n ih =>
    cases text with
    | nil => exact ⟨by simp, by simp, .nil⟩
    | cons c rest =>
      by_cases hc : isSpace c = true
      · rw [texts_cons_of_space hc]
        exact ih rest.length (by simp [← hn]) rest rfl
      · rw [texts_cons (by simpa using hc)]
        have hspan : (spanWord isSpace false (c :: rest)).1 =
            c :: (spanWord isSpace (quoteAfter false c) rest).1 := by rw [spanWord_cons, if_pos (by simpa using hc)]
        have hsplit : (spanWord isSpace false (c :: rest)).1 ++ (spanWord isSpace false (c :: rest)).2 = _ := spanWord_split
        have hlen := congrArg List.length hsplit
        rw [List.length_append, hspan, List.length_cons, hn] at hlen
        have hrest := ih (spanWord isSpace false (c :: rest)).2.length (by omega) _ rfl
        refine ⟨?_, ?_, List.pairwise_cons.mpr ⟨fun w hw => ?_, hrest.closed⟩⟩
        · exact List.forall_mem_cons.mpr ⟨by rw [hspan]; exact List.cons_ne_nil _ _, hrest.ne_nil⟩
        · exact List.forall_mem_cons.mpr ⟨solid_spanWord, hrest.solid⟩
        · refine spanWord_snd.resolve_left fun hnil => ?_
          rw [hnil] at hw
          exact List.not_mem_nil hw

end Word

end Infra

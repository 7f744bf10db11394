import Mekhan.Properties.QueryAgreement

/-!
# Formatting a query

`formatQuery` writes terms as a query again. What it writes is read back as it was where it puts no quotes around a
quote: a value with a quote in it is not escaped, and a key that opens a quote takes the one before the value.
-/

namespace Mekhan

namespace QueryParsers

open Infra QueryDsl
open QueryLanguage (JsValue isSpace quoteText quoteIfNeeded formatFilterValue formatTerm formatQuery)

/-! ## Words and terms -/

/-- A word is read as a term, whatever the term was read from. -/
def Reads (w : Text) (t : QueryTerm) : Prop := ∃ t', browserTerm w = some t' ∧ meaning t' = meaning t

theorem browser_meaning (known : Taken) (t : QueryTerm) : known.browser (meaning t) = known.browser t := by
  cases t with
  | contain name key value raw => cases name <;> rfl
  | _ => rfl

theorem browser_congr (known : Taken) {t t' : QueryTerm} (h : meaning t' = meaning t) :
    known.browser t' = known.browser t := by
  rw [← browser_meaning known t', h, browser_meaning]

theorem foldlM_taken : ∀ (toks : List Word) (known : Taken), ∃ known',
    (taken (verdicts browserTerm Taken.browser known toks)).foldlM Taken.browser known = some known'
  | [], known => ⟨known, rfl⟩
  | tok :: toks, known => by
    rw [verdicts]
    cases hv : verdict browserTerm Taken.browser known tok.text with
    | none => exact foldlM_taken toks known
    | some p =>
      obtain ⟨t, known₁⟩ := p
      obtain ⟨known', hknown'⟩ := foldlM_taken toks known₁
      refine ⟨known', ?_⟩
      obtain ⟨t', -, hmap⟩ := Option.bind_eq_some_iff.mp hv
      obtain ⟨known₂, htake, heq⟩ := Option.map_eq_some_iff.mp hmap
      obtain ⟨rfl, rfl⟩ := Prod.mk.inj heq
      show (t' :: taken (verdicts browserTerm Taken.browser known₂ toks)).foldlM Taken.browser known = some known'
      rw [List.foldlM_cons, htake]
      exact hknown'

theorem taken_of_reads : ∀ {toks : List Word} {ts : List QueryTerm} {known known' : Taken},
    List.Forall₂ Reads (toks.map Word.text) ts → ts.foldlM Taken.browser known = some known' →
      (taken (verdicts browserTerm Taken.browser known toks)).map meaning = ts.map meaning ∧
        reported (verdicts browserTerm Taken.browser known toks) = []
  | [], ts, known, known', h, _ => by
    cases h
    exact ⟨rfl, rfl⟩
  | tok :: toks, ts, known, known', h, htake => by
    obtain ⟨t, ts, ⟨t', hread, hsame⟩, hrest, rfl⟩ := List.forall₂_cons_left_iff.mp h
    rw [List.foldlM_cons] at htake
    obtain ⟨known₁, hone, htake⟩ := Option.bind_eq_some_iff.mp htake
    have hv : verdict browserTerm Taken.browser known tok.text = some (t', known₁) := by
      rw [verdict, hread, Option.bind_some, browser_congr known hsame, hone]
      rfl
    obtain ⟨hterms, hreported⟩ := taken_of_reads hrest htake
    rw [verdicts, hv]
    refine ⟨?_, hreported⟩
    show meaning t' :: (taken (verdicts browserTerm Taken.browser known₁ toks)).map meaning = _
    rw [hterms, hsame, List.map_cons]

theorem reads_of_taken : ∀ {toks : List Word} {ts : List QueryTerm} {known : Taken},
    (taken (verdicts browserTerm Taken.browser known toks)).map meaning = ts.map meaning →
      reported (verdicts browserTerm Taken.browser known toks) = [] →
        List.Forall₂ Reads (toks.map Word.text) ts
  | [], ts, known, h, _ => by
    rw [List.map_eq_nil_iff.mp h.symm]
    exact .nil
  | tok :: toks, ts, known, h, hreported => by
    rw [verdicts] at h hreported
    cases hv : verdict browserTerm Taken.browser known tok.text with
    | none =>
      rw [hv] at hreported
      exact absurd hreported (by simp [reported])
    | some p =>
      obtain ⟨t', known₁⟩ := p
      rw [hv] at h hreported
      obtain ⟨t, rest, rfl, hsame, hrest⟩ := List.map_eq_cons_iff.mp h.symm
      obtain ⟨t'', hread, htake⟩ := Option.bind_eq_some_iff.mp hv
      obtain ⟨known₂, -, heq⟩ := Option.map_eq_some_iff.mp htake
      obtain ⟨rfl, rfl⟩ := Prod.mk.inj heq
      exact .cons ⟨t'', hread, hsame.symm⟩ (reads_of_taken hrest.symm hreported)

/-- **A query yields given terms and no errors exactly when its words read as them, one by one.** -/
theorem parseQuery_reads_iff {text : Text} {ts : List QueryTerm} {known : Taken}
    (hts : ts.foldlM Taken.browser .empty = some known) :
    ((QueryLanguage.parseQuery text).1.map meaning = ts.map meaning ∧ (QueryLanguage.parseQuery text).2 = []) ↔
      List.Forall₂ Reads (Word.texts isSpace QueryLanguage.utf16Size text) ts := by
  obtain ⟨errors, hparse, herrors⟩ := parseQuery_browser text
  have hnil : errors = [] ↔ reported (browserVerdicts text) = [] := by rw [← herrors, List.map_eq_nil_iff]
  rw [hparse, hnil]
  exact ⟨fun h => reads_of_taken h.1 h.2, fun h => taken_of_reads h hts⟩

/-! ## Fields and operators -/

/-- A word that is read as a filter. -/
structure Filter (raw field : Text) (op : OpText) (rest : Text) : Prop where
  head : raw.head? ≠ some '"'
  line : SingleLine raw
  parts : matchFilter raw = some (field, op, rest)

def IsField (field : Text) : Prop :=
  ∃ first more, field = first :: more ∧ isFieldStart first = true ∧ ∀ c ∈ more, isFieldChar c = true

def isOpChar (c : Char) : Prop := c ∈ ['>', '<', '=', '!', ':', '~', '^', '$']

theorem matchOp_take {after : Text} {op : OpText} (h : matchOp after = some op) :
    ∀ c ∈ after.take op.len, isOpChar c := by
  unfold matchOp at h
  split at h
  case h_11 => cases h
  all_goals
    cases h
    simp [OpText.len, isOpChar]

theorem matchOp_colon {after : Text} (h : matchOp after = some .colon) : ∃ rest, after = ':' :: rest := by
  unfold matchOp at h
  split at h
  case h_10 rest => exact ⟨rest, rfl⟩
  all_goals cases h

theorem matchFilter_append {field after : Text} {op : OpText} (hfield : IsField field)
    (hop : matchOp after = some op) : matchFilter (field ++ after) = some (field, op, after.drop op.len) := by
  obtain ⟨first, more, rfl, hfirst, hmore⟩ := hfield
  obtain ⟨c, tail, rfl, hc⟩ := head_of_matchOp hop
  have htake : (more ++ c :: tail).takeWhile isFieldChar = more := by
    rw [List.takeWhile_append_of_pos hmore, List.takeWhile_cons, if_neg (by simp [hc]), List.append_nil]
  have hdrop : (more ++ c :: tail).dropWhile isFieldChar = c :: tail := by
    rw [List.dropWhile_append_of_pos hmore, List.dropWhile_cons, if_neg (by simp [hc])]
  rw [List.cons_append, matchFilter]
  simp only [hfirst, if_true, htake, hdrop, hop, Option.map_some]

theorem matchFilter_cases {raw field rest : Text} {op : OpText} (h : matchFilter raw = some (field, op, rest)) :
    IsField field ∧ ∃ after, raw = field ++ after ∧ matchOp after = some op ∧ rest = after.drop op.len := by
  cases raw with
  | nil => cases h
  | cons first tail =>
    simp only [matchFilter] at h
    split at h
    · next hfirst =>
      obtain ⟨op', hop, hparts⟩ := Option.map_eq_some_iff.mp h
      obtain ⟨rfl, hopRest⟩ := Prod.mk.inj hparts
      cases hopRest
      refine ⟨⟨first, _, rfl, hfirst, fun c hc => List.mem_takeWhile_imp hc⟩, _, ?_, hop, rfl⟩
      rw [List.cons_append, List.takeWhile_append_dropWhile]
    · cases h

theorem IsField.head {field : Text} (h : IsField field) (after : Text) : (field ++ after).head? ≠ some '"' := by
  obtain ⟨first, more, rfl, hfirst, -⟩ := h
  rintro heq
  cases heq
  exact absurd hfirst (by decide)

theorem isFieldChar_of_mem {field : Text} (h : IsField field) : ∀ c ∈ field, isFieldChar c = true := by
  obtain ⟨first, more, rfl, hfirst, hmore⟩ := h
  exact List.forall_mem_cons.mpr ⟨isFieldChar_of_isFieldStart hfirst, hmore⟩

/-- Characters that are neither spaces nor quotes, and end no line. -/
structure Plain (c : Char) : Prop where
  space : isSpace c = false
  quote : c ≠ '"'
  line : QueryLanguage.isLineTerminator c = false

theorem plain_of_isFieldChar {c : Char} (h : isFieldChar c = true) : Plain c := by
  obtain ⟨hmin, hmax⟩ := isFieldChar_bounds h
  refine ⟨?_, ?_, isFieldChar_singleLine h⟩
  · simp only [isSpace, Bool.or_eq_false_iff, Bool.and_eq_false_iff, decide_eq_false_iff_not, beq_eq_false_iff_ne]
    omega
  · rintro rfl
    exact absurd hmin (by decide)

theorem noSpace_of_all {a : Text} (h : (a.all fun c => !isSpace c) = true) : ∀ c ∈ a, isSpace c = false := by
  simpa using h

theorem plain_of_isOpChar {c : Char} (h : isOpChar c) : Plain c := by
  have hall : ∀ d ∈ ['>', '<', '=', '!', ':', '~', '^', '$'],
      isSpace d = false ∧ d ≠ '"' ∧ QueryLanguage.isLineTerminator d = false := by
    simp only [List.forall_mem_cons, List.not_mem_nil, false_implies, implies_true, and_true]
    decide
  exact ⟨(hall c h).1, (hall c h).2.1, (hall c h).2.2⟩

theorem Filter.of_append {field after : Text} {op : OpText} (hfield : IsField field)
    (hop : matchOp after = some op) (hline : SingleLine after) :
    Filter (field ++ after) field op (after.drop op.len) := by
  refine ⟨hfield.head after, fun c hc => ?_, matchFilter_append hfield hop⟩
  rcases List.mem_append.mp hc with hc | hc
  · exact (plain_of_isFieldChar (isFieldChar_of_mem hfield c hc)).line
  · exact hline c hc

theorem isField_str (name : ContainName) : IsField name.str.toList := by
  cases name <;> exact ⟨_, _, rfl, by decide, List.all_eq_true.mp (by decide)⟩

theorem isField_datatype : IsField "datatype".toList := ⟨_, _, rfl, by decide, List.all_eq_true.mp (by decide)⟩

theorem containName_eq_some_iff {field : Text} {name : ContainName} :
    containName field = some name ↔ field = name.str.toList := by
  constructor
  · intro h
    obtain ⟨entry, hentry, hname⟩ := List.exists_of_findSome?_eq_some h
    split at hname
    · next hfield =>
      cases hname
      rw [← hfield]
      simp only [List.mem_cons, List.not_mem_nil, or_false] at hentry
      rcases hentry with rfl | rfl | rfl | rfl | rfl <;> rfl
    · cases hname
  · rintro rfl
    cases name <;> decide

/-! ## Reading a token -/

/-- How a word is read, by the terms it can become. -/
inductive Reading (raw : Text) : QueryTerm → Prop
  | quoted {inner} (hraw : raw = quoteText inner) (hinner : '"' ∉ inner) : Reading raw (.search inner raw)
  | bare (hhead : raw.head? ≠ some '"') (hfilter : QueryLanguage.filterRe raw = none)
    (hplain : (raw.any fun c => c = ':' || c = '<' || c = '>' || c = '"') = false) : Reading raw (.search raw raw)
  | datatype {rest} (hraw : Filter raw "datatype".toList .colon rest) (herror : (readQuoted rest).error = none)
    (hne : (readQuoted rest).value ≠ []) : Reading raw (.datatype (readQuoted rest).value raw)
  | contain {name rest} (hraw : Filter raw name.str.toList .colon rest) (hname : name ≠ .attr)
    (herror : (readQuoted rest).error = none) (hne : (readQuoted rest).value ≠ []) :
    Reading raw (.contain name none (readQuoted rest).value raw)
  | attr {key rest} (hraw : Filter raw ContainName.attr.str.toList .colon (key ++ '=' :: rest)) (hkey : '=' ∉ key)
    (hkeyne : key ≠ []) (herror : (readQuoted rest).error = none) (hne : (readQuoted rest).value ≠ []) :
    Reading raw (.contain .attr (some key) (readQuoted rest).value raw)
  | filter {field op rest t} (hraw : Filter raw field op rest)
    (hsugar : op = .colon → field ≠ "datatype".toList ∧ containName field = none)
    (hread : QueryLanguage.classifyFilter field op rest raw = .term t) : Reading raw t

theorem readQuoted_quoteText {v : Text} (h : '"' ∉ v) : readQuoted (quoteText v) = ⟨v, true, none⟩ := by
  rw [quoteText, readQuoted_closed h, if_pos rfl]

theorem sugared_eq_term_iff {make : Text → QueryTerm} {rest : Text} {t : QueryTerm} :
    QueryLanguage.sugared make rest = .term t ↔
      (readQuoted rest).error = none ∧ (readQuoted rest).value ≠ [] ∧ t = make (readQuoted rest).value := by
  rw [QueryLanguage.sugared, ← unquote_agrees]
  split
  · next e he => simp [he]
  · next he =>
    split
    · next hnil => simp [hnil]
    · next hne => simp [he, hne, eq_comm]

theorem Filter.filterRe {raw field rest : Text} {op : OpText} (h : Filter raw field op rest) :
    QueryLanguage.filterRe raw = some (field, op, rest) := by
  rw [filterRe_eq, if_pos h.line, h.parts]

theorem filter_of_filterRe {raw field rest : Text} {op : OpText} (hhead : raw.head? ≠ some '"')
    (h : QueryLanguage.filterRe raw = some (field, op, rest)) : Filter raw field op rest := by
  rw [filterRe_eq] at h
  split at h
  · next hline => exact ⟨hhead, hline, h⟩
  · cases h

theorem attr_parts (key rest : Text) :
    (key ++ '=' :: rest).take key.length = key ∧ (key ++ '=' :: rest).drop (key.length + 1) = rest := by
  rw [List.take_left, List.drop_append]
  simp

theorem classifyContain_attr {key rest raw : Text} (hkey : '=' ∉ key) (hne : key ≠ []) :
    QueryLanguage.classifyContain .attr (key ++ '=' :: rest) raw =
      QueryLanguage.sugared (fun v => .contain .attr (some key) v raw) rest := by
  rw [QueryLanguage.classifyContain, if_pos rfl, findIdx?_append_cons hkey]
  split
  · next h => cases h
  · next h => exact absurd (List.length_eq_zero_iff.mp (Option.some.inj h)) hne
  · next h =>
    rw [← Option.some.inj h, (attr_parts key rest).1, (attr_parts key rest).2]

theorem classifyContain_attr_cases {rest raw : Text} {t : QueryTerm}
    (h : QueryLanguage.classifyContain .attr rest raw = .term t) :
    ∃ key value, rest = key ++ '=' :: value ∧ '=' ∉ key ∧ key ≠ [] := by
  rcases split_first '=' rest with hnone | ⟨key, value, rfl, hkey⟩
  · rw [QueryLanguage.classifyContain, if_pos rfl, findIdx?_of_notMem hnone] at h
    cases h
  · refine ⟨key, value, rfl, hkey, ?_⟩
    rintro rfl
    rw [QueryLanguage.classifyContain, if_pos rfl, findIdx?_append_cons hkey] at h
    cases h

theorem termOf_eq_some_iff {c : Classified} {t : QueryTerm} : termOf c = some t ↔ c = .term t := by
  cases c <;> simp [termOf]

theorem classifyToken_quoted {raw : Text} {t : QueryTerm} (hhead : raw.head? = some '"')
    (h : QueryLanguage.classifyToken raw = .term t) : Reading raw t := by
  rw [QueryLanguage.classifyToken, if_pos hhead, ← unquote_agrees] at h
  rcases quoted_cases raw with hplain | ⟨rest, rfl, hnone⟩ | ⟨inner, after, rfl, hinner⟩
  · exact absurd hhead hplain
  · rw [readQuoted_open hnone] at h
    cases h
  · rw [readQuoted_closed hinner] at h
    by_cases hafter : after = []
    · subst hafter
      rw [if_pos rfl] at h
      cases h
      exact .quoted rfl hinner
    · rw [if_neg hafter] at h
      cases h

theorem classifyToken_filter {raw field rest : Text} {op : OpText} (h : Filter raw field op rest) :
    QueryLanguage.classifyToken raw =
      if op = .colon && field = "datatype".toList then
        QueryLanguage.sugared (fun name => .datatype name raw) rest
      else
        match (if op = .colon then containName field else none) with
        | some name => QueryLanguage.classifyContain name rest raw
        | none => QueryLanguage.classifyFilter field op rest raw := by
  rw [QueryLanguage.classifyToken, if_neg h.head]
  generalize hread : QueryLanguage.filterRe raw = read
  obtain rfl := h.filterRe.symm.trans hread
  rfl

theorem str_ne_datatype (name : ContainName) : name.str.toList ≠ "datatype".toList := by
  cases name <;> decide

theorem not_datatype {op : OpText} {field : Text} (h : op = .colon → field ≠ "datatype".toList) :
    ¬(decide (op = .colon) && decide (field = "datatype".toList)) = true := by
  rw [Bool.and_eq_true, decide_eq_true_eq, decide_eq_true_eq]
  exact fun hboth => h hboth.1 hboth.2

theorem reading_filter {raw field rest : Text} {op : OpText} {t : QueryTerm} (hraw : Filter raw field op rest)
    (h : QueryLanguage.classifyToken raw = .term t) : Reading raw t := by
  rw [classifyToken_filter hraw] at h
  split at h
  · next hdatatype =>
    rw [Bool.and_eq_true, decide_eq_true_eq, decide_eq_true_eq] at hdatatype
    obtain ⟨rfl, rfl⟩ := hdatatype
    obtain ⟨herror, hne, rfl⟩ := sugared_eq_term_iff.mp h
    exact .datatype hraw herror hne
  · next hdatatype =>
    split at h
    · next name hname =>
      split at hname
      · next hop =>
        obtain rfl := containName_eq_some_iff.mp hname
        subst hop
        by_cases hattr : name = .attr
        · subst hattr
          obtain ⟨key, value, rfl, hkey, hkeyne⟩ := classifyContain_attr_cases h
          rw [classifyContain_attr hkey hkeyne] at h
          obtain ⟨herror, hne, rfl⟩ := sugared_eq_term_iff.mp h
          exact .attr hraw hkey hkeyne herror hne
        · rw [QueryLanguage.classifyContain, if_neg hattr] at h
          obtain ⟨herror, hne, rfl⟩ := sugared_eq_term_iff.mp h
          exact .contain hraw hattr herror hne
      · cases hname
    · next hname =>
      refine .filter hraw (fun hop => ⟨fun hfield => hdatatype ?_, ?_⟩) h
      · simp [hop, hfield]
      · rwa [if_pos hop] at hname

/-- **How a token reads as a term.** -/
theorem browserTerm_eq_some_iff {raw : Text} {t : QueryTerm} : browserTerm raw = some t ↔ Reading raw t := by
  rw [browserTerm, termOf_eq_some_iff]
  constructor
  · intro h
    by_cases hhead : raw.head? = some '"'
    · exact classifyToken_quoted hhead h
    · cases hfilter : QueryLanguage.filterRe raw with
      | some parts => exact reading_filter (filter_of_filterRe hhead hfilter) h
      | none =>
        rw [QueryLanguage.classifyToken, if_neg hhead, hfilter] at h
        dsimp only at h
        split at h
        · cases h
        · next hplain =>
          cases h
          exact .bare hhead hfilter (Bool.eq_false_of_not_eq_true hplain)
  · intro h
    cases h with
    | quoted hraw hinner =>
      have hhead : raw.head? = some '"' := by rw [hraw, quoteText, List.head?_cons]
      rw [QueryLanguage.classifyToken, if_pos hhead, ← unquote_agrees, hraw, readQuoted_quoteText hinner]
    | bare hhead hfilter hplain =>
      rw [QueryLanguage.classifyToken, if_neg hhead, hfilter]
      dsimp only
      rw [hplain]
      rfl
    | datatype hraw herror hne =>
      rw [classifyToken_filter hraw, if_pos (by rw [decide_eq_true rfl, decide_eq_true rfl]; rfl)]
      exact sugared_eq_term_iff.mpr ⟨herror, hne, rfl⟩
    | @contain name rest hraw hname herror hne =>
      rw [classifyToken_filter hraw, if_neg (not_datatype fun _ => str_ne_datatype name), if_pos rfl,
        containName_eq_some_iff.mpr rfl]
      dsimp only
      rw [QueryLanguage.classifyContain, if_neg hname]
      exact sugared_eq_term_iff.mpr ⟨herror, hne, rfl⟩
    | attr hraw hkey hkeyne herror hne =>
      rw [classifyToken_filter hraw, if_neg (not_datatype fun _ => str_ne_datatype .attr), if_pos rfl,
        containName_eq_some_iff.mpr rfl]
      dsimp only
      rw [classifyContain_attr hkey hkeyne]
      exact sugared_eq_term_iff.mpr ⟨herror, hne, rfl⟩
    | @filter field op rest t hraw hsugar hread =>
      rw [classifyToken_filter hraw, if_neg (not_datatype fun hop => (hsugar hop).1)]
      by_cases hop : op = .colon
      · rw [if_pos hop, (hsugar hop).2]
        exact hread
      · rw [if_neg hop]
        exact hread

/-! ## Values -/

def filterOp (op : OpText) (u : Unquoted) : QueryOp :=
  if u.quoted then baseOp op
  else if baseOp op = .eq ∧ u.value = "null".toList then .isNull
  else if baseOp op = .eq ∧ u.value = "*".toList then .isNotNull
  else listOp (baseOp op) u.value

def filterValue (op : QueryOp) (v : Text) : Text := if op = .isNull ∨ op = .isNotNull then [] else v

theorem isComparison_listOp (op : QueryOp) (v : Text) : (listOp op v).isComparison = op.isComparison := by
  unfold listOp
  split
  · cases op <;> rfl
  · rfl

theorem listOp_ne_null {op : OpText} {v : Text} :
    listOp (baseOp op) v ≠ .isNull ∧ listOp (baseOp op) v ≠ .isNotNull := by
  unfold listOp
  split
  · cases op <;> decide
  · cases op <;> decide

theorem baseOp_ne_null (op : OpText) : baseOp op ≠ .isNull ∧ baseOp op ≠ .isNotNull := by
  cases op <;> decide

theorem classifyFilter_eq_term_iff {field rest raw : Text} {op : OpText} {t : QueryTerm} :
    QueryLanguage.classifyFilter field op rest raw = .term t ↔ rest ≠ [] ∧ (readQuoted rest).error = none ∧
        ((baseOp op).isComparison = true → QueryLanguage.isComparableValue field (readQuoted rest).value = true) ∧
          t = .filter field (filterOp op (readQuoted rest))
            (filterValue (filterOp op (readQuoted rest)) (readQuoted rest).value) raw := by
  rw [QueryLanguage.classifyFilter, ← unquote_agrees]
  by_cases hrest : rest = []
  · simp [hrest]
  rw [if_neg hrest]
  generalize readQuoted rest = u
  obtain ⟨value, quoted, error⟩ := u
  cases error with
  | some e => simp
  | none =>
    have hterm : ∀ o : QueryOp, o ≠ .isNull ∧ o ≠ .isNotNull → o.isComparison = (baseOp op).isComparison →
        ((if o.isComparison && !QueryLanguage.isComparableValue field value then
            Classified.error ("non-numeric value \"" ++ String.ofList value ++
              "\" for comparison on field \"" ++ String.ofList field ++ "\"")
          else .term (.filter field o value raw)) = .term t ↔
        ((baseOp op).isComparison = true → QueryLanguage.isComparableValue field value = true) ∧
          t = .filter field o (filterValue o value) raw) := by
      intro o hnull hcomparison
      rw [filterValue, if_neg (not_or.mpr hnull), hcomparison]
      cases (baseOp op).isComparison <;> cases QueryLanguage.isComparableValue field value <;> simp [eq_comm]
    simp only [ne_eq, hrest, not_false_eq_true, true_and]
    cases quoted with
    | true => exact hterm (baseOp op) (baseOp_ne_null op) rfl
    | false =>
      have hcheck : ∀ o : QueryOp, o = .isNull ∨ o = .isNotNull → baseOp op = .eq →
          (Classified.term (.filter field o [] raw) = .term t ↔
            ((baseOp op).isComparison = true → QueryLanguage.isComparableValue field value = true) ∧
              t = .filter field o (filterValue o value) raw) := by
        intro o ho hop
        rw [filterValue, if_pos ho, hop, Classified.term.injEq, eq_comm]
        exact (and_iff_right fun h => absurd h (by decide)).symm
      rw [filterOp, if_neg Bool.false_ne_true]
      simp only [Bool.not_false, Bool.true_and]
      by_cases hnull : baseOp op = .eq ∧ value = "null".toList
      · rw [if_pos hnull, if_pos (by rw [Bool.and_eq_true, decide_eq_true_eq, decide_eq_true_eq]; exact hnull)]
        exact hcheck _ (.inl rfl) hnull.1
      rw [if_neg hnull, if_neg (by rw [Bool.and_eq_true, decide_eq_true_eq, decide_eq_true_eq]; exact hnull)]
      by_cases hstar : baseOp op = .eq ∧ value = "*".toList
      · rw [if_pos hstar, if_pos (by rw [Bool.and_eq_true, decide_eq_true_eq, decide_eq_true_eq]; exact hstar)]
        exact hcheck _ (.inr rfl) hstar.1
      rw [if_neg hstar, if_neg (by rw [Bool.and_eq_true, decide_eq_true_eq, decide_eq_true_eq]; exact hstar)]
      exact hterm _ listOp_ne_null (isComparison_listOp _ _)

theorem filterOp_cases (op : OpText) (u : Unquoted) : filterOp op u = baseOp op ∨
    (baseOp op = .eq ∧ filterOp op u = .isNull) ∨ (baseOp op = .eq ∧ filterOp op u = .isNotNull) ∨
      (u.quoted = false ∧ ',' ∈ u.value ∧
        (baseOp op = .eq ∧ filterOp op u = .in ∨ baseOp op = .ne ∧ filterOp op u = .notIn)) := by
  unfold filterOp
  split
  · exact .inl rfl
  · next hquoted =>
    split
    · next hnull => exact .inr (.inl ⟨hnull.1, rfl⟩)
    · split
      · next hstar => exact .inr (.inr (.inl ⟨hstar.1, rfl⟩))
      · unfold listOp
        split
        · next hcomma =>
          have hunquoted : u.quoted = false := Bool.eq_false_of_not_eq_true hquoted
          cases op
          case colon => exact .inr (.inr (.inr ⟨hunquoted, hcomma, .inl ⟨rfl, rfl⟩⟩))
          case bangEq => exact .inr (.inr (.inr ⟨hunquoted, hcomma, .inr ⟨rfl, rfl⟩⟩))
          case bangColon => exact .inr (.inr (.inr ⟨hunquoted, hcomma, .inr ⟨rfl, rfl⟩⟩))
          all_goals exact .inl rfl
        · exact .inl rfl

theorem head_of_comparable {field v : Text} (h : QueryLanguage.isComparableValue field v = true) :
    v.head? ≠ some '=' := by
  cases v with
  | nil => simp
  | cons c rest =>
    rintro heq
    cases heq
    have hnone : ∀ re ∈ [QueryLanguage.numRe, QueryLanguage.byteRe, QueryLanguage.relDateRe, QueryLanguage.isoDateRe],
        re.test ('=' :: rest) = false := by
      refine fun re hre => Bool.eq_false_of_not_eq_true fun htest => ?_
      have hbegins := Pattern.begins_of_test htest
      simp only [List.mem_cons, List.not_mem_nil, or_false] at hre
      rcases hre with rfl | rfl | rfl | rfl <;> exact absurd hbegins (by decide)
    simp [QueryLanguage.isComparableValue, hnone] at h

/-! ## Printing -/

/-- The operator that is written, and its text. -/
def printOp : QueryOp → OpText × Text
  | .eq | .in | .isNull | .isNotNull => (.colon, [':'])
  | .ne | .notIn => (.bangEq, ['!', '='])
  | .contains => (.tilde, ['~'])
  | .startsWith => (.caret, ['^'])
  | .endsWith => (.dollar, ['$'])
  | .gt => (.gt, ['>'])
  | .gte => (.gte, ['>', '='])
  | .lt => (.lt, ['<'])
  | .lte => (.lte, ['<', '='])

def printRest (op : QueryOp) (v : Text) : Text :=
  match op with
  | .isNull => "null".toList
  | .isNotNull => "*".toList
  | .in | .notIn => v
  | .contains | .startsWith | .endsWith => quoteIfNeeded v
  | op => formatFilterValue v op

theorem formatTerm_filter (field : Text) (op : QueryOp) (v raw : Text) :
    formatTerm (.filter field op v raw) = field ++ ((printOp op).2 ++ printRest op v) := by
  cases op
  case ne | gte | lte | notIn => exact List.append_assoc _ _ _
  all_goals rfl

theorem length_printOp (op : QueryOp) : (printOp op).2.length = (printOp op).1.len := by
  cases op <;> rfl

theorem matchOp_printOp {op : QueryOp} {rest : Text} (h : op = .gt ∨ op = .lt → rest.head? ≠ some '=') :
    matchOp ((printOp op).2 ++ rest) = some (printOp op).1 := by
  cases op
  case gt =>
    cases rest with
    | nil => rfl
    | cons c rest =>
      have hc : c ≠ '=' := fun hc => h (.inl rfl) (by rw [hc]; rfl)
      simp [printOp, matchOp, hc]
  case lt =>
    cases rest with
    | nil => rfl
    | cons c rest =>
      have hc : c ≠ '=' := fun hc => h (.inr rfl) (by rw [hc]; rfl)
      simp [printOp, matchOp, hc]
  all_goals rfl

theorem isOpChar_printOp (op : QueryOp) : ∀ c ∈ (printOp op).2, isOpChar c := by
  cases op <;> simp [printOp, isOpChar]

/-- A value is written in quotes, or as it is where it has neither a space nor a quote. -/
def Written (v r : Text) : Prop :=
  r = quoteText v ∨ r = v ∧ v ≠ [] ∧ ∀ c ∈ v, isSpace c = false ∧ c ≠ '"'

theorem hasSpaceOrQuote_eq_false_iff {v : Text} :
    QueryLanguage.hasSpaceOrQuote v = false ↔ ∀ c ∈ v, isSpace c = false ∧ c ≠ '"' := by
  simp [QueryLanguage.hasSpaceOrQuote]

theorem written_quoteIfNeeded (v : Text) : Written v (quoteIfNeeded v) := by
  rw [quoteIfNeeded]
  split
  · exact .inl rfl
  · next h =>
    rw [Bool.or_eq_true, not_or, decide_eq_true_eq, Bool.not_eq_true] at h
    exact .inr ⟨rfl, h.1, hasSpaceOrQuote_eq_false_iff.mp h.2⟩

theorem written_formatFilterValue (v : Text) (op : QueryOp) : Written v (formatFilterValue v op) := by
  rw [formatFilterValue]
  split
  · exact .inl rfl
  · next h =>
    rw [Bool.or_eq_true, not_or, Bool.or_eq_true, not_or, decide_eq_true_eq, Bool.not_eq_true] at h
    exact .inr ⟨rfl, h.1.1, hasSpaceOrQuote_eq_false_iff.mp h.1.2⟩

namespace Written

variable {v r : Text}

theorem readQuoted_value (h : Written v r) (hv : '"' ∉ v) :
    (readQuoted r).value = v ∧ (readQuoted r).error = none := by
  rcases h with rfl | ⟨rfl, hne, hplain⟩
  · rw [readQuoted_quoteText hv]
    exact ⟨rfl, rfl⟩
  · rw [readQuoted_plain]
    · exact ⟨rfl, rfl⟩
    · cases r with
      | nil => simp
      | cons c r => exact fun heq => hv (by rw [Option.some.inj heq]; exact List.mem_cons_self)

theorem ne_nil (h : Written v r) : r ≠ [] := by
  rcases h with rfl | ⟨rfl, hne, -⟩
  · exact List.cons_ne_nil _ _
  · exact hne

theorem solid (h : Written v r) (hv : '"' ∉ v) : Word.Solid isSpace false r ∧ Word.quoteEnd false r = false := by
  rcases h with rfl | ⟨rfl, hne, hplain⟩
  · refine ⟨⟨.inr (by decide), ?_⟩, ?_⟩
    · exact Word.solid_append.mpr ⟨Word.solid_of_notMem hv, by
        rw [Word.quoteEnd_of_notMem hv]
        exact ⟨.inl rfl, trivial⟩⟩
    · show Word.quoteEnd true (v ++ ['"']) = false
      rw [Word.quoteEnd_append, Word.quoteEnd_of_notMem hv]
      rfl
  · exact ⟨Word.solid_of_noSpace (fun c hc => (hplain c hc).1) _, Word.quoteEnd_of_notMem hv _⟩

theorem singleLine (h : Written v r) (hv : SingleLine v) : SingleLine r := by
  rcases h with rfl | ⟨rfl, -, -⟩
  · intro c hc
    rcases List.mem_cons.mp hc with rfl | hc
    · decide
    · rcases List.mem_append.mp hc with hc | hc
      · exact hv c hc
      · rw [List.mem_singleton.mp hc]
        decide
  · exact hv

theorem head (h : Written v r) (hv : v.head? ≠ some '=') : r.head? ≠ some '=' := by
  rcases h with rfl | ⟨rfl, -, -⟩
  · rw [quoteText, List.head?_cons]
    decide
  · exact hv

end Written

/-! ## Reading what was written -/

theorem reads_iff {w : Text} {t : QueryTerm} : Reads w t ↔ ∃ t', Reading w t' ∧ meaning t' = meaning t := by
  simp only [Reads, browserTerm_eq_some_iff]

theorem reads_datatype_iff {w v raw : Text} : Reads w (.datatype v raw) ↔
    ∃ rest, Filter w "datatype".toList .colon rest ∧ (readQuoted rest).error = none ∧
      (readQuoted rest).value = v ∧ v ≠ [] := by
  rw [reads_iff]
  constructor
  · rintro ⟨t', hreading, hsame⟩
    cases hreading with
    | quoted _ _ => cases hsame
    | bare _ _ _ => cases hsame
    | contain _ _ _ _ => cases hsame
    | attr _ _ _ _ _ => cases hsame
    | filter _ _ hread => rw [(classifyFilter_eq_term_iff.mp hread).2.2.2] at hsame; cases hsame
    | datatype hraw herror hne =>
      obtain rfl := (QueryTerm.datatype.inj hsame).1
      exact ⟨_, hraw, herror, rfl, hne⟩
  · rintro ⟨rest, hraw, herror, rfl, hne⟩
    exact ⟨_, .datatype hraw herror hne, rfl⟩

theorem reads_contain_iff {w v raw : Text} {name : ContainName} {key : Option Text} (hname : name ≠ .attr) :
    Reads w (.contain name key v raw) ↔ ∃ rest, Filter w name.str.toList .colon rest ∧
      (readQuoted rest).error = none ∧ (readQuoted rest).value = v ∧ v ≠ [] ∧ key = none := by
  rw [reads_iff]
  constructor
  · rintro ⟨t', hreading, hsame⟩
    cases hreading with
    | quoted _ _ => cases hsame
    | bare _ _ _ => cases hsame
    | datatype _ _ _ => cases hsame
    | attr _ _ _ _ _ => exact absurd (QueryTerm.contain.inj hsame).1.symm hname
    | filter _ _ hread => rw [(classifyFilter_eq_term_iff.mp hread).2.2.2] at hsame; cases hsame
    | contain hraw _ herror hne =>
      obtain ⟨rfl, rfl, rfl, -⟩ := QueryTerm.contain.inj hsame
      exact ⟨_, hraw, herror, rfl, hne, rfl⟩
  · rintro ⟨rest, hraw, herror, rfl, hne, rfl⟩
    exact ⟨_, .contain hraw hname herror hne, rfl⟩

theorem reads_attr_iff {w v raw : Text} {key : Option Text} : Reads w (.contain .attr key v raw) ↔
    ∃ k rest, key = some k ∧ Filter w ContainName.attr.str.toList .colon (k ++ '=' :: rest) ∧ '=' ∉ k ∧ k ≠ [] ∧
      (readQuoted rest).error = none ∧ (readQuoted rest).value = v ∧ v ≠ [] := by
  rw [reads_iff]
  constructor
  · rintro ⟨t', hreading, hsame⟩
    cases hreading with
    | quoted _ _ => cases hsame
    | bare _ _ _ => cases hsame
    | datatype _ _ _ => cases hsame
    | contain _ hname _ _ => exact absurd (QueryTerm.contain.inj hsame).1 hname
    | filter _ _ hread => rw [(classifyFilter_eq_term_iff.mp hread).2.2.2] at hsame; cases hsame
    | attr hraw hkey hkeyne herror hne =>
      obtain ⟨-, rfl, rfl, -⟩ := QueryTerm.contain.inj hsame
      exact ⟨_, _, rfl, hraw, hkey, hkeyne, herror, rfl, hne⟩
  · rintro ⟨k, rest, rfl, hraw, hkey, hkeyne, herror, rfl, hne⟩
    exact ⟨_, .attr hraw hkey hkeyne herror hne, rfl⟩

theorem reads_filter_iff {w field v raw : Text} {op : QueryOp} : Reads w (.filter field op v raw) ↔
    ∃ opText rest, Filter w field opText rest ∧
      (opText = .colon → field ≠ "datatype".toList ∧ containName field = none) ∧
        rest ≠ [] ∧ (readQuoted rest).error = none ∧ ((baseOp opText).isComparison = true →
            QueryLanguage.isComparableValue field (readQuoted rest).value = true) ∧
            op = filterOp opText (readQuoted rest) ∧ v = filterValue op (readQuoted rest).value := by
  rw [reads_iff]
  constructor
  · rintro ⟨t', hreading, hsame⟩
    cases hreading with
    | quoted _ _ => cases hsame
    | bare _ _ _ => cases hsame
    | datatype _ _ _ => cases hsame
    | contain _ _ _ _ => cases hsame
    | attr _ _ _ _ _ => cases hsame
    | filter hraw hsugar hread =>
      obtain ⟨hne, herror, hcomparable, rfl⟩ := classifyFilter_eq_term_iff.mp hread
      obtain ⟨rfl, rfl, rfl, -⟩ := QueryTerm.filter.inj hsame
      exact ⟨_, _, hraw, hsugar, hne, herror, hcomparable, rfl, rfl⟩
  · rintro ⟨opText, rest, hraw, hsugar, hne, herror, hcomparable, rfl, rfl⟩
    exact ⟨_, .filter hraw hsugar (classifyFilter_eq_term_iff.mpr ⟨hne, herror, hcomparable, rfl⟩), rfl⟩

theorem Filter.rest_eq {field after field' rest : Text} {op op' : OpText}
    (h : Filter (field ++ after) field' op' rest) (hfield : IsField field) (hop : matchOp after = some op) :
    field' = field ∧ op' = op ∧ rest = after.drop op.len := by
  have hparts := Option.some.inj (h.parts.symm.trans (matchFilter_append hfield hop))
  obtain ⟨hsame, hrest⟩ := Prod.mk.inj hparts
  obtain ⟨hsameOp, hrest⟩ := Prod.mk.inj hrest
  exact ⟨hsame, hsameOp, hrest⟩

theorem Filter.singleLine_rest {raw field rest : Text} {op : OpText} (h : Filter raw field op rest) :
    SingleLine rest := fun c hc => h.line c (rest_subset h.parts c hc)

/-- How a term with a value is written: what leads to the value, and the value. -/
structure Lead (t : QueryTerm) (lead v r : Text) : Prop where
  format : formatTerm t = lead ++ r
  written : Written v r
  ne_nil : lead ≠ []
  solid : Word.Solid isSpace false lead
  back : (readQuoted r).error = none → (readQuoted r).value = v → Reads (lead ++ r) t
  value : ∀ s, Reads (lead ++ '"' :: s) t →
    (readQuoted ('"' :: s)).error = none ∧ (readQuoted ('"' :: s)).value = v

/-- The value has no quote, and no space where the lead has opened one. -/
def Fits (lead v : Text) : Prop :=
  '"' ∉ v ∧ (Word.quoteEnd false lead = true → ∀ c ∈ v, isSpace c = false)

/-- What is written, where it is a word that reads as the term. -/
structure Returns (raw : Text) (t : QueryTerm) : Prop where
  reads : Reads (formatTerm t) t
  ne_nil : formatTerm t ≠ []
  solid : Word.Solid isSpace false (formatTerm t)
  closed : Word.quoteEnd false raw = false → Word.quoteEnd false (formatTerm t) = false

theorem readQuoted_quoted {s : Text} (h : (readQuoted ('"' :: s)).error = none) :
    s = (readQuoted ('"' :: s)).value ++ ['"'] ∧ '"' ∉ (readQuoted ('"' :: s)).value := by
  rcases split_first '"' s with hnone | ⟨inner, after, rfl, hinner⟩
  · rw [readQuoted_open hnone] at h
    cases h
  · rw [readQuoted_closed hinner] at h ⊢
    by_cases hafter : after = []
    · subst hafter
      rw [if_pos rfl]
      exact ⟨rfl, hinner⟩
    · rw [if_neg hafter] at h
      cases h

theorem noSpace_of_solid {v : Text} (h : Word.Solid isSpace false v) (hv : '"' ∉ v) : ∀ c ∈ v, isSpace c = false := by
  induction v with
  | nil => simp
  | cons c v ih =>
    rw [List.mem_cons, not_or] at hv
    have hafter : Word.quoteAfter false c = false := if_neg (Ne.symm hv.1)
    rw [Word.Solid, hafter] at h
    exact List.forall_mem_cons.mpr ⟨h.1.resolve_left Bool.false_ne_true, ih h.2 hv.2⟩

theorem Written.eq_quoteText {v r : Text} (h : Written v r) (hv : ∃ c ∈ v, isSpace c = true ∨ c = '"') :
    r = quoteText v := by
  refine h.resolve_right ?_
  rintro ⟨-, -, hplain⟩
  obtain ⟨c, hc, hspace | rfl⟩ := hv
  · exact absurd (hspace.symm.trans (hplain c hc).1) Bool.noConfusion
  · exact (hplain _ hc).2 rfl

theorem Written.solid_open {v r : Text} (h : Written v r) (hv : '"' ∉ v) (hspace : ∀ c ∈ v, isSpace c = false) :
    Word.Solid isSpace true r ∧ Word.quoteEnd true r = true := by
  have hopen : Word.Solid isSpace false v ∧ Word.quoteEnd false v = false :=
    ⟨Word.solid_of_noSpace hspace _, Word.quoteEnd_of_notMem hv _⟩
  rcases h with rfl | ⟨rfl, -, -⟩
  · refine ⟨⟨.inl rfl, Word.solid_append.mpr ⟨hopen.1, ?_⟩⟩, ?_⟩
    · exact ⟨.inr (by decide), trivial⟩
    · show Word.quoteEnd false (v ++ ['"']) = true
      rw [Word.quoteEnd_append, hopen.2]
      rfl
  · exact ⟨Word.solid_of_noSpace hspace _, Word.quoteEnd_of_notMem hv _⟩

namespace Lead

variable {t : QueryTerm} {lead v r : Text}

theorem ends (h : Lead t lead v r) (hfits : Fits lead v) : Word.Solid isSpace (Word.quoteEnd false lead) r ∧
      Word.quoteEnd (Word.quoteEnd false lead) r = Word.quoteEnd false lead := by
  cases hlead : Word.quoteEnd false lead with
  | false => exact h.written.solid hfits.1
  | true => exact h.written.solid_open hfits.1 (hfits.2 hlead)

/-- **A value that fits is read back.** -/
theorem returns (h : Lead t lead v r) (hfits : Fits lead v) {raw : Text}
    (hraw : Word.quoteEnd false raw = false → Word.quoteEnd false lead = false) : Returns raw t := by
  obtain ⟨hvalue, herror⟩ := h.written.readQuoted_value hfits.1
  obtain ⟨hsolid, hend⟩ := h.ends hfits
  refine ⟨?_, ?_, ?_, fun hclosed => ?_⟩
  · rw [h.format]
    exact h.back herror hvalue
  · rw [h.format]
    exact List.append_ne_nil_of_left_ne_nil h.ne_nil _
  · rw [h.format]
    exact Word.solid_append.mpr ⟨h.solid, hsolid⟩
  · rw [h.format, Word.quoteEnd_append, hend]
    exact hraw hclosed

/-- **One that does not is not**: the first word of what is written does not read as the term. -/
theorem not_reads (h : Lead t lead v r) (hbad : ¬Fits lead v) (tail : Text) :
    ∃ w ws, Word.texts isSpace QueryLanguage.utf16Size (formatTerm t ++ tail) = w :: ws ∧ ¬Reads w t := by
  have hquoted : r = quoteText v := by
    refine h.written.eq_quoteText ?_
    by_contra hplain
    have hall : ∀ c ∈ v, isSpace c = false ∧ c ≠ '"' := by
      intro c hc
      constructor
      · by_contra hspace
        exact hplain ⟨c, hc, .inl (Bool.eq_true_of_not_eq_false hspace)⟩
      · exact fun hquote => hplain ⟨c, hc, .inr hquote⟩
    exact hbad ⟨fun hmem => (hall _ hmem).2 rfl, fun _ c hc => (hall c hc).1⟩
  have hsplit : formatTerm t ++ tail = (lead ++ ['"']) ++ (v ++ '"' :: tail) := by
    rw [h.format, hquoted]
    simp [quoteText]
  have hsolid : Word.Solid isSpace false (lead ++ ['"']) :=
    Word.solid_append.mpr ⟨h.solid, .inr (by decide), trivial⟩
  rw [hsplit, Word.texts_append (List.append_ne_nil_of_left_ne_nil h.ne_nil _) hsolid, List.append_assoc]
  refine ⟨_, _, rfl, fun hreads => ?_⟩
  obtain ⟨herror, hvalue⟩ := h.value _ hreads
  obtain ⟨hs, hnone⟩ := readQuoted_quoted herror
  rw [hvalue] at hs hnone
  refine hbad ⟨hnone, fun hopen => ?_⟩
  -- The quote before the value closes the one that the lead has opened.
  have hword : Word.Solid isSpace (Word.quoteEnd false (lead ++ ['"'])) (v ++ ['"']) := hs ▸ Word.solid_spanWord
  rw [Word.quoteEnd_append, hopen] at hword
  exact noSpace_of_solid (Word.solid_append.mp hword).1 hnone

end Lead

/-! ## Term by term -/

theorem solid_plain {a : Text} (h : ∀ c ∈ a, Plain c) :
    Word.Solid isSpace false a ∧ Word.quoteEnd false a = false :=
  ⟨Word.solid_of_noSpace (fun c hc => (h c hc).space) _,
    Word.quoteEnd_of_notMem (fun hmem => (h _ hmem).quote rfl) _⟩

theorem plain_field {field opText : Text} (hfield : IsField field) (hop : ∀ c ∈ opText, isOpChar c) :
    ∀ c ∈ field ++ opText, Plain c := by
  intro c hc
  rcases List.mem_append.mp hc with hc | hc
  · exact plain_of_isFieldChar (isFieldChar_of_mem hfield c hc)
  · exact plain_of_isOpChar (hop c hc)

theorem IsField.ne_nil {field : Text} (h : IsField field) : field ≠ [] := by
  obtain ⟨first, more, rfl, -⟩ := h
  exact List.cons_ne_nil _ _

theorem isOpChar_colon : ∀ c ∈ [':'], isOpChar c := by simp [isOpChar]

theorem Filter.singleLine_written {raw field rest r : Text} {op : OpText} (h : Filter raw field op rest)
    (hr : Written (readQuoted rest).value r) : SingleLine r :=
  hr.singleLine fun c hc => h.singleLine_rest c (value_subset rest c hc)

theorem singleLine_cons {c : Char} {v : Text} (hc : QueryLanguage.isLineTerminator c = false) (hv : SingleLine v) :
    SingleLine (c :: v) := List.forall_mem_cons.mpr ⟨hc, hv⟩

theorem lead_datatype {w v raw : Text} (h : Reads w (.datatype v raw)) :
    Lead (.datatype v raw) ("datatype".toList ++ [':']) v (quoteIfNeeded v) := by
  obtain ⟨rest, hraw, -, rfl, hne⟩ := reads_datatype_iff.mp h
  refine ⟨rfl, written_quoteIfNeeded _, by simp, (solid_plain (plain_field isField_datatype isOpChar_colon)).1,
    fun herror hvalue => ?_, fun s hs => ?_⟩
  · have hline := hraw.singleLine_written (written_quoteIfNeeded _)
    rw [List.append_assoc]
    exact reads_datatype_iff.mpr
      ⟨_, .of_append isField_datatype rfl (singleLine_cons (by decide) hline), herror, hvalue, hne⟩
  · obtain ⟨rest', hs, herror, hvalue, -⟩ := reads_datatype_iff.mp hs
    rw [List.append_assoc] at hs
    obtain ⟨-, -, rfl⟩ := hs.rest_eq isField_datatype rfl
    exact ⟨herror, hvalue⟩

theorem lead_contain {w v raw : Text} {name : ContainName} {key : Option Text} (hname : name ≠ .attr)
    (h : Reads w (.contain name key v raw)) :
    Lead (.contain name key v raw) (name.str.toList ++ [':']) v (quoteIfNeeded v) := by
  obtain ⟨rest, hraw, -, rfl, hne, rfl⟩ := (reads_contain_iff hname).mp h
  have hfield := isField_str name
  refine ⟨?_, written_quoteIfNeeded _, by simp, (solid_plain (plain_field hfield isOpChar_colon)).1,
    fun herror hvalue => ?_, fun s hs => ?_⟩
  · rw [List.append_assoc]
    cases name with
    | attr => exact absurd rfl hname
    | _ => rfl
  · have hline := hraw.singleLine_written (written_quoteIfNeeded _)
    rw [List.append_assoc]
    exact (reads_contain_iff hname).mpr
      ⟨_, .of_append hfield rfl (singleLine_cons (by decide) hline), herror, hvalue, hne, rfl⟩
  · obtain ⟨rest', hs, herror, hvalue, -⟩ := (reads_contain_iff hname).mp hs
    rw [List.append_assoc] at hs
    obtain ⟨-, -, rfl⟩ := hs.rest_eq hfield rfl
    exact ⟨herror, hvalue⟩

/-- What leads to the value of an attribute. -/
def attrLead (key : Text) : Text := "attr".toList ++ (':' :: (key ++ ['=']))

theorem attrLead_append (key rest : Text) :
    attrLead key ++ rest = "attr".toList ++ (':' :: (key ++ '=' :: rest)) := by
  simp [attrLead]

theorem quoteEnd_attrLead (key : Text) : Word.quoteEnd false (attrLead key) = Word.quoteEnd false key := by
  show Word.quoteEnd false (key ++ ['=']) = _
  rw [Word.quoteEnd_append]
  exact Word.quoteEnd_of_notMem (by decide) _

theorem first_unique {c : Char} {a a' b b' : Text} (ha : c ∉ a) (ha' : c ∉ a') (h : a ++ c :: b = a' ++ c :: b') :
    a = a' ∧ b = b' := by
  have hsame := congrArg (splitFirst c) h
  rw [splitFirst_append ha, splitFirst_append ha'] at hsame
  exact ⟨(Prod.mk.inj hsame).1, Option.some.inj (Prod.mk.inj hsame).2⟩

theorem raw_attr {w key rest : Text} (h : Filter w ContainName.attr.str.toList .colon (key ++ '=' :: rest)) :
    w = attrLead key ++ rest := by
  obtain ⟨-, after, rfl, hop, hrest⟩ := matchFilter_cases h.parts
  obtain ⟨after, rfl⟩ := matchOp_colon hop
  rw [attrLead_append, hrest]
  rfl

theorem lead_attr {w v raw key : Text} (h : Reads w (.contain .attr (some key) v raw))
    (hw : Word.Solid isSpace false w) :
    Lead (.contain .attr (some key) v raw) (attrLead key) v (quoteIfNeeded v) := by
  obtain ⟨k, rest, hk, hraw, hkey, hkeyne, -, rfl, hne⟩ := reads_attr_iff.mp h
  cases hk
  have hfield := isField_str .attr
  rw [raw_attr hraw] at hw
  refine ⟨?_, written_quoteIfNeeded _, by simp [attrLead], (Word.solid_append.mp hw).1,
    fun herror hvalue => ?_, fun s hs => ?_⟩
  · rw [attrLead_append]
    rfl
  · have hline := hraw.singleLine_rest
    have hr : SingleLine (quoteIfNeeded (readQuoted rest).value) :=
      (written_quoteIfNeeded _).singleLine fun c hc =>
        hline c (List.mem_append_right _ (List.mem_cons_of_mem _ (value_subset rest c hc)))
    rw [attrLead_append]
    refine reads_attr_iff.mpr ⟨key, _, rfl, .of_append hfield rfl (singleLine_cons (by decide) ?_), hkey, hkeyne,
      herror, hvalue, hne⟩
    exact List.forall_mem_append.mpr ⟨(List.forall_mem_append.mp hline).1, singleLine_cons (by decide) hr⟩
  · obtain ⟨k', rest', hk', hs, hkey', -, herror, hvalue, -⟩ := reads_attr_iff.mp hs
    cases hk'
    rw [attrLead_append] at hs
    obtain ⟨-, -, hrest⟩ := hs.rest_eq hfield rfl
    obtain ⟨-, rfl⟩ := first_unique hkey' hkey hrest
    exact ⟨herror, hvalue⟩

/-- The operators whose value is written as it was, or not at all. -/
def IsVerbatim (op : QueryOp) : Prop := op ∈ [.in, .notIn, .isNull, .isNotNull]

theorem readQuoted_quoted_true (s : Text) : (readQuoted ('"' :: s)).quoted = true := by
  rcases split_first '"' s with hnone | ⟨inner, after, rfl, hinner⟩
  · rw [readQuoted_open hnone]
  · rw [readQuoted_closed hinner]
    split <;> rfl

theorem written_printRest {op : QueryOp} (h : ¬IsVerbatim op) (v : Text) : Written v (printRest op v) := by
  cases op
  case «in» | notIn | isNull | isNotNull => exact absurd (by simp [IsVerbatim]) h
  case contains | startsWith | endsWith => exact written_quoteIfNeeded v
  all_goals exact written_formatFilterValue v _

theorem baseOp_printOp {op : QueryOp} (h : ¬IsVerbatim op) : baseOp (printOp op).1 = op := by
  cases op
  case «in» | notIn | isNull | isNotNull => exact absurd (by simp [IsVerbatim]) h
  all_goals rfl

theorem formatFilterValue_cases (v : Text) (op : QueryOp) : formatFilterValue v op = quoteText v ∨
    (formatFilterValue v op = v ∧ (∀ c ∈ v, c ≠ '"') ∧
      (op = .eq ∨ op = .ne → v ≠ "null".toList ∧ v ≠ "*".toList ∧ ',' ∉ v)) := by
  rw [formatFilterValue]
  split
  · exact .inl rfl
  · next h =>
    simp only [Bool.or_eq_true, not_or, Bool.and_eq_true, decide_eq_true_eq, Bool.not_eq_true] at h
    refine .inr ⟨rfl, fun c hc => (hasSpaceOrQuote_eq_false_iff.mp h.1.2 c hc).2, fun hop => ?_⟩
    have hlist := fun hspecial => h.2 ⟨hop, hspecial⟩
    exact ⟨fun hnull => hlist (.inl (.inl hnull)), fun hstar => hlist (.inl (.inr hstar)),
      fun hcomma => hlist (.inr (List.contains_iff_mem.mpr hcomma))⟩

theorem readQuoted_noQuote {v : Text} (h : ∀ c ∈ v, c ≠ '"') : readQuoted v = ⟨v, false, none⟩ := by
  refine readQuoted_plain ?_
  cases v with
  | nil => simp
  | cons c v => exact fun hhead => h c List.mem_cons_self (Option.some.inj hhead)

theorem filterOp_print {op : QueryOp} (h : ¬IsVerbatim op) (v : Text) :
    filterOp (printOp op).1 (readQuoted (printRest op v)) = op := by
  have hquoted : ∀ {s}, filterOp (printOp op).1 (readQuoted ('"' :: s)) = op := by
    intro s
    rw [filterOp, if_pos (readQuoted_quoted_true s), baseOp_printOp h]
  have hother : baseOp (printOp op).1 ≠ .eq → baseOp (printOp op).1 ≠ .ne → ∀ u : Unquoted,
      filterOp (printOp op).1 u = op := by
    intro heq hne u
    rcases filterOp_cases (printOp op).1 u with hbase | ⟨h', -⟩ | ⟨h', -⟩ | ⟨-, -, ⟨h', -⟩ | ⟨h', -⟩⟩
    · rw [hbase, baseOp_printOp h]
    · exact absurd h' heq
    · exact absurd h' heq
    · exact absurd h' heq
    · exact absurd h' hne
  by_cases hop : op = .eq ∨ op = .ne
  · have hrest : printRest op v = formatFilterValue v op := by rcases hop with rfl | rfl <;> rfl
    rw [hrest]
    rcases formatFilterValue_cases v op with hv | ⟨hv, hnone, hspecial⟩
    · rw [hv]
      exact hquoted
    · obtain ⟨hnull, hstar, hcomma⟩ := hspecial hop
      have hlist : listOp (baseOp (printOp op).1) v = baseOp (printOp op).1 := by
        unfold listOp
        exact if_neg hcomma
      rw [hv, readQuoted_noQuote hnone, filterOp, if_neg (by simp), if_neg (fun hboth => hnull hboth.2),
        if_neg (fun hboth => hstar hboth.2), hlist, baseOp_printOp h]
  · rw [not_or] at hop
    exact hother (by rw [baseOp_printOp h]; exact hop.1) (by rw [baseOp_printOp h]; exact hop.2) _

theorem filterValue_of_not {op : QueryOp} (h : ¬IsVerbatim op) (v : Text) : filterValue op v = v := by
  refine if_neg ?_
  rintro (rfl | rfl) <;> exact h (by simp [IsVerbatim])

theorem baseOp_of_not {opText : OpText} {u : Unquoted} (h : ¬IsVerbatim (filterOp opText u)) :
    filterOp opText u = baseOp opText := by
  rcases filterOp_cases opText u with hbase | ⟨-, h'⟩ | ⟨-, h'⟩ | ⟨-, -, ⟨-, h'⟩ | ⟨-, h'⟩⟩
  · exact hbase
  all_goals exact absurd (by simp [h', IsVerbatim]) h

theorem eq_colon_of_baseOp {op : OpText} (h : baseOp op = .eq) : op = .colon := by
  cases op <;> first | rfl | cases h

theorem lead_filter {w field v raw : Text} {op : QueryOp} (hop : ¬IsVerbatim op)
    (h : Reads w (.filter field op v raw)) :
    Lead (.filter field op v raw) (field ++ (printOp op).2) v (printRest op v) := by
  obtain ⟨opText, rest, hraw, hsugar, hrest, -, hcomparable, rfl, hv⟩ := reads_filter_iff.mp h
  rw [filterValue_of_not hop] at hv
  subst hv
  have hbase := baseOp_of_not hop
  obtain ⟨hfield, -⟩ := matchFilter_cases hraw.parts
  have hwritten := written_printRest hop (readQuoted rest).value
  generalize hopName : filterOp opText (readQuoted rest) = op at *
  have hcomparable' : op.isComparison = true →
      QueryLanguage.isComparableValue field (readQuoted rest).value = true := by
    rw [hbase]
    exact hcomparable
  refine ⟨?_, hwritten, List.append_ne_nil_of_left_ne_nil hfield.ne_nil _,
    (solid_plain (plain_field hfield (isOpChar_printOp op))).1, fun herror hvalue => ?_, fun s hs => ?_⟩
  · rw [formatTerm_filter, List.append_assoc]
  · have hmatch : matchOp ((printOp op).2 ++ printRest op (readQuoted rest).value) = some (printOp op).1 := by
      refine matchOp_printOp fun hcomparison => hwritten.head (head_of_comparable (hcomparable' ?_))
      rcases hcomparison with rfl | rfl <;> rfl
    have hline : SingleLine ((printOp op).2 ++ printRest op (readQuoted rest).value) := by
      refine List.forall_mem_append.mpr ⟨fun c hc => (plain_of_isOpChar (isOpChar_printOp op c hc)).line, ?_⟩
      exact hraw.singleLine_written hwritten
    have hfilter := Filter.of_append hfield hmatch hline
    rw [← length_printOp, List.drop_left] at hfilter
    rw [List.append_assoc]
    refine reads_filter_iff.mpr ⟨_, _, hfilter, fun hcolon => ?_, hwritten.ne_nil, herror, ?_, ?_, ?_⟩
    · have heq : baseOp opText = .eq := by
        rw [← hbase, ← baseOp_printOp hop, hcolon]
        rfl
      exact hsugar (eq_colon_of_baseOp heq)
    · rw [baseOp_printOp hop, hvalue]
      exact hcomparable'
    · exact (filterOp_print hop _).symm
    · rw [filterValue_of_not hop, hvalue]
  · obtain ⟨opText', rest', hs, -, -, herror, -, -, hvalue⟩ := reads_filter_iff.mp hs
    rw [List.append_assoc] at hs
    have hmatch : matchOp ((printOp op).2 ++ '"' :: s) = some (printOp op).1 := matchOp_printOp (by simp)
    obtain ⟨-, -, rfl⟩ := hs.rest_eq hfield hmatch
    rw [← length_printOp, List.drop_left] at herror hvalue
    rw [filterValue_of_not hop] at hvalue
    exact ⟨herror, hvalue.symm⟩

theorem baseOp_notVerbatim (op : OpText) : ¬IsVerbatim (baseOp op) := by
  cases op <;> simp [IsVerbatim, baseOp]

theorem filterOp_congr {a b : OpText} (h : baseOp a = baseOp b) (u : Unquoted) : filterOp a u = filterOp b u := by
  rw [filterOp, filterOp, h]

theorem value_of_unquoted {rest : Text} (h : (readQuoted rest).quoted = false) : (readQuoted rest).value = rest := by
  cases rest with
  | nil => rfl
  | cons c rest =>
    by_cases hc : c = '"'
    · rw [hc, readQuoted_quoted_true] at h
      cases h
    · have hplain : (c :: rest).head? ≠ some '"' := fun hhead => hc (Option.some.inj hhead)
      rw [readQuoted_plain hplain]

/-- A value that is written so that it is read back stands alone after its operator. -/
structure Stands (w rest : Text) : Prop where
  ne_nil : rest ≠ []
  error : (readQuoted rest).error = none
  line : SingleLine rest
  solid : Word.Solid isSpace false rest
  closed : Word.quoteEnd false w = false → Word.quoteEnd false rest = false

theorem Stands.returns {w rest field v raw : Text} {op : QueryOp} {opText : OpText} (h : Stands w rest)
    (hfield : IsField field) (hop : IsVerbatim op) (hrest : printRest op v = rest)
    (hsugar : opText = .colon → field ≠ "datatype".toList ∧ containName field = none)
    (hbase : baseOp (printOp op).1 = baseOp opText) (hread : filterOp opText (readQuoted rest) = op)
    (hvalue : filterValue op (readQuoted rest).value = v) : Returns w (.filter field op v raw) := by
  have hformat : formatTerm (.filter field op v raw) = (field ++ (printOp op).2) ++ rest := by
    rw [formatTerm_filter, hrest, List.append_assoc]
  obtain ⟨hlead, hend⟩ := solid_plain (plain_field hfield (isOpChar_printOp op))
  refine ⟨?_, ?_, ?_, fun hclosed => ?_⟩
  · have hmatch : matchOp ((printOp op).2 ++ rest) = some (printOp op).1 := by
      refine matchOp_printOp fun hcomparison => ?_
      rcases hcomparison with rfl | rfl <;> exact absurd hop (by simp [IsVerbatim])
    have hfilter := Filter.of_append hfield hmatch (List.forall_mem_append.mpr
      ⟨fun c hc => (plain_of_isOpChar (isOpChar_printOp op c hc)).line, h.line⟩)
    rw [← length_printOp, List.drop_left] at hfilter
    rw [hformat, List.append_assoc]
    refine reads_filter_iff.mpr ⟨_, _, hfilter, fun hcolon => hsugar ?_, h.ne_nil, h.error, fun hcomparison => ?_,
      ?_, hvalue.symm⟩
    · exact eq_colon_of_baseOp (by rw [← hbase, hcolon]; rfl)
    · cases op
      case «in» | notIn | isNull | isNotNull => cases hcomparison
      all_goals exact absurd hop (by simp [IsVerbatim])
    · rw [filterOp_congr hbase, hread]
  · rw [hformat]
    exact List.append_ne_nil_of_left_ne_nil (List.append_ne_nil_of_left_ne_nil hfield.ne_nil _) _
  · rw [hformat]
    exact Word.solid_append.mpr ⟨hlead, by rw [hend]; exact h.solid⟩
  · rw [hformat, Word.quoteEnd_append, hend]
    exact h.closed hclosed

/-- What is written of a list is what was read, but for the operator, and the null checks have one text. -/
theorem returns_verbatim {w field v raw : Text} {op : QueryOp} (hop : IsVerbatim op)
    (h : Reads w (.filter field op v raw)) (hw : Word.Solid isSpace false w) :
    Returns w (.filter field op v raw) := by
  obtain ⟨opText, rest, hraw, hsugar, hrest, herror, -, rfl, rfl⟩ := reads_filter_iff.mp h
  obtain ⟨hfield, after, rfl, hmatch, hafter⟩ := matchFilter_cases hraw.parts
  obtain ⟨hlead, hend⟩ := solid_plain (plain_field hfield (matchOp_take hmatch))
  have hsplit : field ++ after = (field ++ after.take opText.len) ++ rest := by
    rw [hafter, List.append_assoc, List.take_append_drop]
  rcases filterOp_cases opText (readQuoted rest) with hread | ⟨hbase, hread⟩ | ⟨hbase, hread⟩ |
      ⟨hquoted, -, hread⟩
  · rw [hread] at hop
    exact absurd hop (baseOp_notVerbatim opText)
  · have hstands : Stands (field ++ after) "null".toList :=
      ⟨by simp, by decide, by decide, Word.solid_of_noSpace (noSpace_of_all (by decide)) _, fun _ => by decide⟩
    rw [hread] at hop ⊢
    obtain rfl := eq_colon_of_baseOp hbase
    exact hstands.returns hfield hop rfl hsugar rfl (by decide) rfl
  · have hstands : Stands (field ++ after) "*".toList :=
      ⟨by simp, by decide, by decide, Word.solid_of_noSpace (noSpace_of_all (by decide)) _, fun _ => by decide⟩
    rw [hread] at hop ⊢
    obtain rfl := eq_colon_of_baseOp hbase
    exact hstands.returns hfield hop rfl hsugar rfl (by decide) rfl
  · have hstands : Stands (field ++ after) rest := by
      rw [hsplit] at hw ⊢
      refine ⟨hrest, herror, hraw.singleLine_rest, ?_, fun hclosed => ?_⟩
      · have hsolid := (Word.solid_append.mp hw).2
        rwa [hend] at hsolid
      · rwa [Word.quoteEnd_append, hend] at hclosed
    have hlist : ∀ op, op = .in ∨ op = .notIn → filterValue op (readQuoted rest).value = rest ∧
        printRest op rest = rest := by
      rintro op (rfl | rfl) <;> exact ⟨value_of_unquoted hquoted, rfl⟩
    have hsame : (filterOp opText (readQuoted rest) = .in ∨ filterOp opText (readQuoted rest) = .notIn) ∧
        baseOp (printOp (filterOp opText (readQuoted rest))).1 = baseOp opText := by
      rcases hread with ⟨hbase, hread⟩ | ⟨hbase, hread⟩
      · rw [hread, hbase]
        exact ⟨.inl rfl, rfl⟩
      · rw [hread, hbase]
        exact ⟨.inr rfl, rfl⟩
    obtain ⟨hvalue, hprint⟩ := hlist _ hsame.1
    rw [hvalue]
    exact hstands.returns hfield hop hprint hsugar hsame.2 rfl hvalue

/-- The terms that are read back as they were. -/
def Survives : QueryTerm → Prop
  | .search .. => True
  | .datatype name _ => '"' ∉ name
  | .contain .attr key value _ =>
    '"' ∉ value ∧ (Word.quoteEnd false (key.getD []) = true → ∀ c ∈ value, isSpace c = false)
  | .contain _ _ value _ => '"' ∉ value
  | .filter _ op value _ => IsVerbatim op ∨ '"' ∉ value

theorem reads_search {w text raw : Text} (h : Reads w (.search text raw)) :
    '"' ∉ text ∧ (w = quoteText text ∨ w = text) := by
  obtain ⟨t', hreading, hsame⟩ := reads_iff.mp h
  cases hreading with
  | quoted hraw hinner =>
    obtain rfl := (QueryTerm.search.inj hsame).1
    exact ⟨hinner, .inl hraw⟩
  | bare _ _ hplain =>
    obtain rfl := (QueryTerm.search.inj hsame).1
    rw [List.any_eq_false] at hplain
    exact ⟨fun hmem => hplain _ hmem (by simp), .inr rfl⟩
  | datatype _ _ _ => cases hsame
  | contain _ _ _ _ => cases hsame
  | attr _ _ _ _ _ => cases hsame
  | filter _ _ hread =>
    rw [(classifyFilter_eq_term_iff.mp hread).2.2.2] at hsame
    simp only [meaning, reduceCtorEq] at hsame

theorem formatTerm_search (text raw : Text) : formatTerm (.search text raw) = quoteText text ∨
    (formatTerm (.search text raw) = text ∧ text ≠ [] ∧ (∀ c ∈ text, isSpace c = false ∧ c ≠ '"') ∧
      ∃ text' raw', browserTerm text = some (.search text' raw')) := by
  have hformat : formatTerm (.search text raw) =
      if text ≠ [] ∧ ¬QueryLanguage.hasSpaceOrQuote text then _ else quoteText text := rfl
  rw [hformat]
  split
  · next h =>
    split
    · next text' raw' hread =>
      refine .inr ⟨rfl, h.1, hasSpaceOrQuote_eq_false_iff.mp (Bool.eq_false_of_not_eq_true h.2), text', raw', ?_⟩
      rw [browserTerm, hread]
      rfl
    · exact .inl rfl
  · exact .inl rfl

theorem returns_search {w text raw : Text} (h : Reads w (.search text raw)) : Returns w (.search text raw) := by
  obtain ⟨hnone, -⟩ := reads_search h
  rcases formatTerm_search text raw with hformat | ⟨hformat, hne, hplain, text', raw', hread⟩
  · obtain ⟨hsolid, hend⟩ := Written.solid (v := text) (.inl rfl) hnone
    refine ⟨?_, ?_, ?_, fun _ => ?_⟩
    · rw [hformat]
      exact reads_iff.mpr ⟨_, .quoted rfl hnone, rfl⟩
    · rw [hformat]
      exact List.cons_ne_nil _ _
    · rw [hformat]
      exact hsolid
    · rw [hformat]
      exact hend
  · have hsame : text' = text := by
      obtain ⟨-, hquoted | rfl⟩ := reads_search (w := text) ⟨_, hread, rfl⟩
      · exact absurd (by rw [hquoted]; exact List.mem_cons_self) hnone
      · rfl
    refine ⟨?_, ?_, ?_, fun _ => ?_⟩
    · rw [hformat]
      exact ⟨_, hread, by rw [hsame]; rfl⟩
    · rw [hformat]
      exact hne
    · rw [hformat]
      exact Word.solid_of_noSpace (fun c hc => (hplain c hc).1) _
    · rw [hformat]
      exact Word.quoteEnd_of_notMem hnone _

theorem quoteEnd_value {rest : Text} (herror : (readQuoted rest).error = none) (hv : '"' ∉ (readQuoted rest).value)
    (inQuote : Bool) : Word.quoteEnd inQuote rest = inQuote := by
  cases hquoted : (readQuoted rest).quoted with
  | false =>
    rw [value_of_unquoted hquoted] at hv
    exact Word.quoteEnd_of_notMem hv _
  | true =>
    obtain ⟨s, rfl⟩ : ∃ s, rest = '"' :: s := by
      rcases quoted_cases rest with hplain | ⟨s, rfl, -⟩ | ⟨inner, after, rfl, -⟩
      · rw [readQuoted_plain hplain] at hquoted
        cases hquoted
      · exact ⟨_, rfl⟩
      · exact ⟨_, rfl⟩
    obtain ⟨hs, -⟩ := readQuoted_quoted herror
    rw [hs, Word.quoteEnd, List.foldl_cons, List.foldl_append]
    show Word.quoteAfter (Word.quoteEnd (Word.quoteAfter inQuote '"') (readQuoted ('"' :: s)).value) '"' = inQuote
    rw [Word.quoteEnd_of_notMem hv]
    cases inQuote <;> rfl

theorem fits_of_closed {lead v : Text} (hlead : Word.quoteEnd false lead = false) : Fits lead v ↔ '"' ∉ v :=
  ⟨And.left, fun hv => ⟨hv, fun hopen => absurd (hlead.symm.trans hopen) Bool.noConfusion⟩⟩

theorem survives_cases {w : Text} {t : QueryTerm} (h : Reads w t) (hw : Word.Solid isSpace false w) :
    (Survives t ∧ Returns w t) ∨ ∃ lead v r, Lead t lead v r ∧ (Survives t ↔ Fits lead v) ∧
      (Fits lead v → Word.quoteEnd false w = false → Word.quoteEnd false lead = false) := by
  cases t with
  | search text raw => exact .inl ⟨trivial, returns_search h⟩
  | datatype name raw =>
    have hend : Word.quoteEnd false ("datatype".toList ++ [':']) = false := by decide
    exact .inr ⟨_, _, _, lead_datatype h, (fits_of_closed hend).symm, fun _ _ => hend⟩
  | contain name key value raw =>
    by_cases hname : name = .attr
    · subst hname
      obtain ⟨key, rest, rfl, hraw, -, -, herror, hvalue, -⟩ := reads_attr_iff.mp h
      refine .inr ⟨_, _, _, lead_attr h hw, ?_, fun hfits hclosed => ?_⟩
      · rw [Fits, quoteEnd_attrLead]
        rfl
      · rw [raw_attr hraw, Word.quoteEnd_append, quoteEnd_value herror (by rw [hvalue]; exact hfits.1)] at hclosed
        exact hclosed
    · have hend : Word.quoteEnd false (name.str.toList ++ [':']) = false :=
        (solid_plain (plain_field (isField_str name) isOpChar_colon)).2
      refine .inr ⟨_, _, _, lead_contain hname h, ?_, fun _ _ => hend⟩
      rw [fits_of_closed hend]
      cases name with
      | attr => exact absurd rfl hname
      | _ => rfl
  | filter field op value raw =>
    by_cases hop : IsVerbatim op
    · exact .inl ⟨.inl hop, returns_verbatim hop h hw⟩
    · obtain ⟨_, _, hraw, -⟩ := reads_filter_iff.mp h
      have hend : Word.quoteEnd false (field ++ (printOp op).2) = false :=
        (solid_plain (plain_field (matchFilter_cases hraw.parts).1 (isOpChar_printOp op))).2
      refine .inr ⟨_, _, _, lead_filter hop h, ?_, fun _ _ => hend⟩
      rw [fits_of_closed hend]
      exact or_iff_right hop

/-- **A term that survives is read back from its text.** -/
theorem returns_of_survives {w : Text} {t : QueryTerm} (h : Reads w t) (hw : Word.Solid isSpace false w)
    (ht : Survives t) : Returns w t := by
  rcases survives_cases h hw with ⟨-, hreturns⟩ | ⟨lead, v, r, hlead, hiff, hclosed⟩
  · exact hreturns
  · exact hlead.returns (hiff.mp ht) (hclosed (hiff.mp ht))

/-- **Of another one, the first word of its text does not read as it.** -/
theorem not_reads_formatTerm {w : Text} {t : QueryTerm} (h : Reads w t) (hw : Word.Solid isSpace false w)
    (ht : ¬Survives t) (tail : Text) :
    ∃ w ws, Word.texts isSpace QueryLanguage.utf16Size (formatTerm t ++ tail) = w :: ws ∧ ¬Reads w t := by
  rcases survives_cases h hw with ⟨hsurvives, -⟩ | ⟨lead, v, r, hlead, hiff, -⟩
  · exact absurd hsurvives ht
  · exact hlead.not_reads (mt hiff.mpr ht) tail

/-! ## Queries -/

theorem formatQuery_cons (t : QueryTerm) (ts : List QueryTerm) :
    (ts = [] ∧ formatQuery (t :: ts) = formatTerm t) ∨
      (ts ≠ [] ∧ formatQuery (t :: ts) = formatTerm t ++ ' ' :: formatQuery ts) := by
  cases ts with
  | nil =>
    refine .inl ⟨rfl, ?_⟩
    simp [formatQuery, List.intercalate]
  | cons t' ts =>
    refine .inr ⟨List.cons_ne_nil _ _, ?_⟩
    simp [formatQuery, List.intercalate]

theorem reads_formatQuery {ws : List Text} {ts : List QueryTerm} (h : List.Forall₂ Reads ws ts)
    (hws : Word.Sentence isSpace ws) :
    List.Forall₂ Reads (Word.texts isSpace QueryLanguage.utf16Size (formatQuery ts)) ts ↔ ∀ t ∈ ts, Survives t := by
  induction h with
  | nil => exact iff_of_true .nil (by simp)
  | @cons w t ws ts hreads hrest ih =>
    have hw := hws.solid w List.mem_cons_self
    have hsentence := hws.sublist (List.sublist_cons_self w ws)
    by_cases ht : Survives t
    · obtain ⟨hread, hne, hsolid, hclosed⟩ := returns_of_survives hreads hw ht
      rw [List.forall_mem_cons, ← ih hsentence, and_iff_right ht]
      rcases formatQuery_cons t ts with ⟨rfl, hformat⟩ | ⟨hts, hformat⟩
      · rw [hformat, Word.texts_word hne hsolid]
        exact iff_of_true (.cons hread .nil) .nil
      · -- Another word comes after, so this one is closed.
        obtain ⟨w', hw'⟩ := List.exists_mem_of_ne_nil ws fun hnil => by
          subst hnil
          exact hts (List.forall₂_nil_left_iff.mp hrest)
        have hend := hclosed ((List.pairwise_cons.mp hws.closed).1 w' hw')
        rw [hformat, Word.texts_append_space hne hsolid hend (by decide),
          Word.texts_cons_of_space (by decide), List.forall₂_cons, and_iff_right hread]
    · refine iff_of_false (fun hall => ?_) fun hall => ht (hall t List.mem_cons_self)
      obtain ⟨tail, htail⟩ : ∃ tail, formatQuery (t :: ts) = formatTerm t ++ tail := by
        rcases formatQuery_cons t ts with ⟨-, hformat⟩ | ⟨-, hformat⟩
        · exact ⟨[], by rw [hformat, List.append_nil]⟩
        · exact ⟨_, hformat⟩
      obtain ⟨w', ws', htexts, hnot⟩ := not_reads_formatTerm hreads hw ht tail
      rw [htail, htexts] at hall
      exact hnot (List.forall₂_cons.mp hall).1

theorem taken_sublist : ∀ (toks : List Word) (known : Taken), ∃ ws : List Text,
    ws.Sublist (toks.map Word.text) ∧
      List.Forall₂ Reads ws (taken (verdicts browserTerm Taken.browser known toks))
  | [], _ => ⟨[], .slnil, .nil⟩
  | tok :: toks, known => by
    rw [verdicts]
    cases hv : verdict browserTerm Taken.browser known tok.text with
    | none =>
      obtain ⟨ws, hsub, hall⟩ := taken_sublist toks known
      exact ⟨ws, hsub.cons _, hall⟩
    | some p =>
      obtain ⟨t, known₁⟩ := p
      obtain ⟨ws, hsub, hall⟩ := taken_sublist toks known₁
      obtain ⟨t', hread, hmap⟩ := Option.bind_eq_some_iff.mp hv
      obtain ⟨known₂, -, heq⟩ := Option.map_eq_some_iff.mp hmap
      obtain ⟨rfl, -⟩ := Prod.mk.inj heq
      exact ⟨tok.text :: ws, hsub.cons_cons _, .cons ⟨t', hread, rfl⟩ hall⟩

/-- **The terms of a query come back from their text, without errors, exactly when all of them survive.** -/
theorem formatQuery_roundtrip_iff (input : Text) :
    ((QueryLanguage.parseQuery (formatQuery (QueryLanguage.parseQuery input).1)).1.map meaning =
        (QueryLanguage.parseQuery input).1.map meaning ∧
      (QueryLanguage.parseQuery (formatQuery (QueryLanguage.parseQuery input).1)).2 = []) ↔
      ∀ t ∈ (QueryLanguage.parseQuery input).1, Survives t := by
  obtain ⟨errors, hparse, -⟩ := parseQuery_browser input
  rw [hparse]
  obtain ⟨known, hknown⟩ := foldlM_taken (QueryLanguage.tokenize input) .empty
  obtain ⟨ws, hsub, hall⟩ := taken_sublist (QueryLanguage.tokenize input) .empty
  exact (parseQuery_reads_iff hknown).trans (reads_formatQuery hall ((Word.sentence_texts input).sublist hsub))

/-- **A quote inside a value ends it when the text is read again.** -/
theorem formatQuery_losesQuote :
    ¬∀ input : Text, (QueryLanguage.parseQuery (formatQuery (QueryLanguage.parseQuery input).1)).1.map meaning =
      (QueryLanguage.parseQuery input).1.map meaning := by
  intro h
  have hquote := h "name:a\"b".toList
  revert hquote
  decide

end QueryParsers

end Mekhan

import Mekhan.Catalogue.QueryReaders

/-!
# Queries that panic

What `compile_query` does with every text at every time. Slices are at character boundaries, numbers
saturate, and durations are in range; what is left is the subtraction of a relative date from the
current time.
-/

namespace Mekhan

namespace QueryDsl

open Infra

/-! ## Relative dates -/

/-- The values of a filter term that are coerced one by one. -/
def coercedValues (op : QueryOp) (value : Text) : List Text :=
  match op with
  | .in | .notIn => value.splitOn ','
  | .isNull | .isNotNull => []
  | _ => [value]

/-- A relative date reaches back to a time of the calendar. -/
def Reaches (now : UtcTime) (value : Text) : Prop :=
  ∀ magnitude unit, parseRelDate value = .ok (some (magnitude, unit)) →
    minSeconds * 10 ^ 9 ≤ now.nanos - deltaMs magnitude unit * 10 ^ 6

/-- The relative dates of a filter on a date field reach back to times of the calendar. -/
def DatesReach (now : UtcTime) : QueryTerm → Prop
  | .filter field op value _ =>
    isAtField field = true → ∀ v ∈ coercedValues op value, Reaches now v
  | _ => True

variable {field value : Text} {magnitude : F64}

variable {unit : Char} {st st' : ParseState}

theorem isNegative_parseRelDate {s : Text}
    (h : parseRelDate s = .ok (some (magnitude, unit))) : magnitude.isNegative = false := by
  rcases parseRelDate_cases s with hnone | ⟨number, unit', hunit, rfl⟩
  · exact absurd (Except.ok.inj (hnone.symm.trans h)) (by simp)
  · rw [parseRelDate_append hunit] at h
    obtain ⟨m, hm, hpair⟩ := Option.map_eq_some_iff.mp (Except.ok.inj h)
    obtain ⟨rfl, -⟩ := Prod.mk.inj hpair
    split at hm
    · next hnumber => exact F64.isNegative_parse (splitSign_isNumUnsigned hnumber) hm
    · cases hm

theorem deltaMs_nonneg (h : magnitude.isNegative = false) (unit : Char) : 0 ≤ deltaMs magnitude unit :=
  F64.toI64_nonneg (F64.isNegative_round (F64.isNegative_mul h (F64.isNegative_ofRatio _ _)))

theorem sub_returns_iff {now : UtcTime} {duration : Int} (hduration : 0 ≤ duration) :
    Returns (now.sub duration) ↔ minSeconds * 10 ^ 9 ≤ now.nanos - duration := by
  have hmax := now.lt_max
  unfold UtcTime.sub
  split
  · next h => exact iff_of_true (.ok _) h.1
  · next h => exact iff_of_false (Returns.not_error _) fun hmin => h ⟨hmin, by omega⟩

theorem isBytesField_of_isAtField (h : isAtField field = true) : isBytesField field = false := by
  have hlast : field.getLast? = some 't' := by
    obtain ⟨start, rfl⟩ := List.isSuffixOf_iff_suffix.mp h
    exact List.getLast?_append_of_ne_nil _ (by simp)
  unfold isBytesField
  rw [Bool.or_eq_false_iff]
  constructor
  · refine decide_eq_false ?_
    rintro rfl
    exact absurd hlast (by decide)
  · by_contra hbytes
    obtain ⟨start, rfl⟩ := List.isSuffixOf_iff_suffix.mp (Bool.eq_true_of_not_eq_false hbytes)
    rw [List.getLast?_append_of_ne_nil _ (by decide)] at hlast
    exact absurd hlast (by decide)

theorem coerceValue_relative {now : UtcTime}
    (hat : isAtField field = true) (hdate : parseRelDate value = .ok (some (magnitude, unit))) :
    coerceValue field value now =
      now.sub (deltaMs magnitude unit * 10 ^ 6) >>= fun time => .ok time.format := by
  have hnonneg := deltaMs_nonneg (isNegative_parseRelDate hdate) unit
  have hduration : durationMilliseconds (deltaMs magnitude unit) =
      .ok (deltaMs magnitude unit * 10 ^ 6) := by
    rw [durationMilliseconds, if_neg]
    omega
  simp only [coerceValue, isBytesField_of_isAtField hat, hat, hdate, hduration, Bool.false_eq_true,
    if_false, if_true, bind, Except.bind, pure, Except.pure]

theorem coerceValue_returns (now : UtcTime) (h : isAtField field = true → parseRelDate value = .ok none) :
    Returns (coerceValue field value now) := by
  obtain ⟨size, hsize⟩ := parseByte_returns value
  cases hat : isAtField field with
  | true =>
    simp only [coerceValue, hat, hsize, h hat, bind, Except.bind, pure, Except.pure]
    (repeat' split) <;> exact .ok _
  | false =>
    simp only [coerceValue, hat, hsize, bind, Except.bind, pure, Except.pure]
    (repeat' split) <;> first | exact .ok _ | contradiction

theorem coerceValue_returns_iff {now : UtcTime} :
    Returns (coerceValue field value now) ↔ (isAtField field = true → Reaches now value) := by
  obtain ⟨date, hdate⟩ := parseRelDate_returns value
  by_cases hat : isAtField field = true
  · cases date with
    | none =>
      refine iff_of_true (coerceValue_returns now fun _ => hdate) ?_
      intro _ magnitude unit h
      exact absurd (Except.ok.inj (hdate.symm.trans h)) (by simp)
    | some d =>
      obtain ⟨magnitude, unit⟩ := d
      have hnonneg := deltaMs_nonneg (isNegative_parseRelDate hdate) unit
      have hsub : Returns (coerceValue field value now) ↔
          Returns (now.sub (deltaMs magnitude unit * 10 ^ 6)) := by
        rw [coerceValue_relative hat hdate, Returns.bind_iff]
        exact ⟨fun ⟨time, htime, _⟩ => ⟨time, htime⟩, fun ⟨time, htime⟩ => ⟨time, htime, .ok _⟩⟩
      rw [hsub, sub_returns_iff (by omega)]
      constructor
      · intro hmin _ m u hmu
        obtain ⟨rfl, rfl⟩ := Prod.mk.inj (Option.some.inj (Except.ok.inj (hdate.symm.trans hmu)))
        exact hmin
      · intro h
        exact h hat magnitude unit hdate
  · exact iff_of_true (coerceValue_returns now fun h => absurd h hat) fun h => absurd h hat

/-! ## Compilation -/

theorem coerced_returns_iff {raw : Text} {op : QueryOp} {now : UtcTime} :
    Returns (coerced field op value now) ↔ DatesReach now (.filter field op value raw) := by
  have hlist : Returns ((value.splitOn ',').mapM (fun v => coerceValue field v now) >>= fun values =>
      .ok ([','].intercalate values)) ↔
        (isAtField field = true → ∀ v ∈ value.splitOn ',', Reaches now v) := by
    rw [Returns.bind_iff]
    constructor
    · rintro ⟨values, hvalues, -⟩ hat v hv
      exact coerceValue_returns_iff.mp (Returns.mapM_iff.mp ⟨values, hvalues⟩ v hv) hat
    · intro h
      obtain ⟨values, hvalues⟩ := Returns.mapM_iff.mpr fun v hv =>
        coerceValue_returns_iff.mpr fun hat => h hat v hv
      exact ⟨values, hvalues, .ok _⟩
  have hone : Returns (coerceValue field value now) ↔
      (isAtField field = true → ∀ v ∈ [value], Reaches now v) := by
    rw [coerceValue_returns_iff]
    simp
  cases op with
  | «in» => exact hlist
  | notIn => exact hlist
  | isNull => exact iff_of_true (.ok value) fun _ v hv => absurd hv List.not_mem_nil
  | isNotNull => exact iff_of_true (.ok value) fun _ v hv => absurd hv List.not_mem_nil
  | _ => exact hone

variable (now : UtcTime) (resolveDatatype : Text → Option (List Text)) (jsonText : Json → String)

theorem compileTerm_returns_iff (st : CompileState) (t : QueryTerm) :
    Returns (compileTerm now resolveDatatype st t) ↔ DatesReach now t := by
  cases t with
  | search text raw => exact iff_of_true (.ok _) trivial
  | datatype name raw => exact iff_of_true (.ok _) trivial
  | filter field op value raw =>
    rw [← coerced_returns_iff]
    show Returns (coerced field op value now >>= fun v => _) ↔ _
    rw [Returns.bind_iff]
    exact ⟨fun ⟨v, hv, _⟩ => ⟨v, hv⟩, fun ⟨v, hv⟩ => ⟨v, hv, .ok _⟩⟩
  | contain name key value raw =>
    refine iff_of_true ?_ trivial
    cases name <;> exact .ok _

theorem compileTerms_returns_iff (terms : List QueryTerm) :
    Returns (compileTerms now resolveDatatype jsonText terms) ↔ ∀ t ∈ terms, DatesReach now t := by
  rw [← Returns.foldlM_iff (fun st t _ => compileTerm_returns_iff now resolveDatatype st t)
    ⟨[], [], .null⟩]
  show Returns (terms.foldlM _ _ >>= fun st => _) ↔ _
  rw [Returns.bind_iff]
  exact ⟨fun ⟨st, hst, _⟩ => ⟨st, hst⟩, fun ⟨st, hst⟩ => ⟨st, hst, .ok _⟩⟩

/-! ## Tokens -/

/-- The relative dates of the term a token stands for, if it is one. -/
def TokenReaches (tok : Word) : Prop :=
  ∀ t, classifyToken tok.text = .ok (.term t) → DatesReach now t

theorem parseToken_dates {tok : Word} (h : parseToken st tok = .ok st') :
    (∀ t ∈ st'.terms, DatesReach now t) ↔ (∀ t ∈ st.terms, DatesReach now t) ∧ TokenReaches now tok := by
  obtain ⟨c, hc⟩ := classifyToken_returns tok.text
  have hsame : st'.terms = st.terms → (∀ t, c = .term t → DatesReach now t) →
      ((∀ t ∈ st'.terms, DatesReach now t) ↔
        (∀ t ∈ st.terms, DatesReach now t) ∧ TokenReaches now tok) := by
    intro hterms hreach
    rw [hterms]
    exact ⟨fun hall => ⟨hall, fun t ht => hreach t (Except.ok.inj (hc.symm.trans ht))⟩, And.left⟩
  have hpush : ∀ t, c = .term t → st'.terms = st.terms ++ [t] →
      ((∀ t ∈ st'.terms, DatesReach now t) ↔
        (∀ t ∈ st.terms, DatesReach now t) ∧ TokenReaches now tok) := by
    rintro t rfl hterms
    rw [hterms, List.forall_mem_append, List.forall_mem_singleton]
    refine and_congr_right fun _ => ⟨fun ht t' ht' => ?_, fun hreach => hreach t hc⟩
    obtain rfl := Classified.term.inj (Except.ok.inj (hc.symm.trans ht'))
    exact ht
  unfold parseToken at h
  simp only [hc, bind, Except.bind, pure, Except.pure] at h
  cases c with
  | error message =>
    cases h
    exact hsame rfl fun t ht => absurd ht (by simp)
  | term term =>
    cases term with
    | search text raw =>
      cases h
      exact hpush _ rfl rfl
    | filter field op value raw =>
      cases h
      exact hpush _ rfl rfl
    | contain name key value raw =>
      simp only at h
      split at h
      · cases h
        exact hpush _ rfl rfl
      · cases h
        refine hsame rfl fun t ht => ?_
        cases ht
        trivial
    | datatype name raw =>
      simp only at h
      split at h
      · cases h
        refine hsame rfl fun t ht => ?_
        cases ht
        trivial
      · cases h
        exact hpush _ rfl rfl

theorem parseTokens_dates {toks : List Word} (h : toks.foldlM parseToken st = .ok st') :
    (∀ t ∈ st'.terms, DatesReach now t) ↔
      (∀ t ∈ st.terms, DatesReach now t) ∧ ∀ tok ∈ toks, TokenReaches now tok := by
  induction toks generalizing st with
  | nil =>
    cases h
    simp
  | cons tok toks ih =>
    rw [List.foldlM_cons] at h
    obtain ⟨st₁, hst₁⟩ := parseToken_returns st tok
    rw [hst₁] at h
    rw [ih h, parseToken_dates now hst₁, List.forall_mem_cons, and_assoc]

/-- **A query compiles exactly if no relative date of it reaches back beyond the calendar**: no slice,
number or duration panics, for any text and any time. -/
theorem compileQuery_returns_iff (input : Text) :
    (∃ params, compileQuery now resolveDatatype jsonText input = .ok params) ↔
      ∀ tok ∈ tokenize input, TokenReaches now tok := by
  obtain ⟨st, hst⟩ : Returns ((tokenize input).foldlM parseToken ⟨[], [], .obj [], false⟩) := by
    obtain ⟨st, hst, -⟩ := Returns.bind_iff.mp (parseQuery_returns input)
    exact ⟨st, hst⟩
  have hparse : parseQuery input = .ok (st.terms, st.errors) := by
    unfold parseQuery
    rw [hst]
    rfl
  have hcompile : compileQuery now resolveDatatype jsonText input =
      compileTerms now resolveDatatype jsonText st.terms := by
    unfold compileQuery
    rw [hparse]
    rfl
  have hdates := parseTokens_dates now hst
  rw [hcompile, ← Returns, compileTerms_returns_iff, hdates]
  simp

/-! ## A date before the calendar -/

def june : UtcTime where
  nanos := 1781092800 * 10 ^ 9
  min_le := by norm_num [minSeconds]
  lt_max := by norm_num [maxSeconds]

/-- **A relative date of 300000 years panics.** -/
theorem compileQuery_farDate :
    compileQuery june (fun _ => none) (fun _ => "") "created_at>-300000y".toList = .error .date := by
  decide

end QueryDsl

end Mekhan

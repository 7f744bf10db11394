import Mekhan.Catalogue.QueryDsl
import Mekhan.Infra.JsonValue
import Mekhan.Infra.Returns

/-!
# One fragment for all containment terms

The fragments of a query are merged into one. A document contains what is merged exactly when it contains each part:
objects merge below a key, and elements of arrays are asked for one by one.
-/

namespace Mekhan

namespace QueryDsl

open Infra Infra.Json

/-! ## Merging -/

mutual

/-- No member is `null`, which stands for a key that is not there, and no object has two members of one name. Elements
of arrays may be anything. -/
def Plain : Json → Prop
  | .null => False
  | .obj es => (es.map (·.1)).Nodup ∧ PlainMembers es
  | _ => True

def PlainMembers : List (String × Json) → Prop
  | [] => True
  | (_, v) :: es => Plain v ∧ PlainMembers es

end

theorem plainMembers_iff {es : List (String × Json)} : PlainMembers es ↔ ∀ e ∈ es, Plain e.2 := by
  induction es with
  | nil => simp [PlainMembers]
  | cons _ _ ih => rw [PlainMembers, ih, List.forall_mem_cons]

theorem plain_obj_iff {es : List (String × Json)} :
    Plain (.obj es) ↔ (es.map (·.1)).Nodup ∧ ∀ e ∈ es, Plain e.2 := by
  rw [Plain, plainMembers_iff]

theorem not_plain_null : ¬Plain .null := by simp [Plain]

theorem tryMerge_null (b : Json) : tryMerge .null b = some b := by
  cases b <;> rfl

variable {k : String} {out : List (String × Json)}

variable {x : Json} {st st' : ParseState} {tok : Word}

theorem filter_key_of_lookup (hout : (out.map (·.1)).Nodup)
    (h : out.lookup k = some x) : out.filter (·.1 = k) = [(k, x)] := by
  obtain ⟨before, after, rfl, hbefore⟩ := List.lookup_eq_some_iff.mp h
  rw [List.map_append, List.map_cons, List.nodup_middle, List.nodup_cons] at hout
  have hother : ∀ e ∈ before ++ after, ¬decide (e.1 = k) = true := by
    intro e he heq
    rw [← List.map_append] at hout
    exact hout.1 (List.mem_map.mpr ⟨e, he, of_decide_eq_true heq⟩)
  rw [List.forall_mem_append] at hother
  rw [List.filter_append, List.filter_cons_of_pos (by simp), List.filter_eq_nil_iff.mpr hother.1,
    List.filter_eq_nil_iff.mpr hother.2, List.nil_append]

theorem contains_obj_take (hout : (out.map (·.1)).Nodup)
    (h : out.lookup k = some x) (d : Json) : contains d (.obj out) = true ↔
      contains d (.obj (out.filter (·.1 ≠ k))) = true ∧ contains d (.obj [(k, x)]) = true := by
  rw [← filter_key_of_lookup hout h, ← contains_obj_append]
  refine contains_obj_perm ?_
  have hsplit := (List.filter_append_perm (fun e : String × Json => decide (e.1 ≠ k)) out).symm
  simpa using hsplit

theorem plain_replace {v : Json} (hout : Plain (.obj out)) (hv : Plain v) :
    Plain (.obj (out.filter (·.1 ≠ k) ++ [(k, v)])) := by
  obtain ⟨hnodup, hplain⟩ := plain_obj_iff.mp hout
  refine plain_obj_iff.mpr ⟨?_, fun e he => ?_⟩
  · rw [List.map_append, List.nodup_append]
    refine ⟨hnodup.sublist (List.filter_sublist.map _), List.nodup_singleton _, ?_⟩
    intro j hj j' hj' heq
    obtain ⟨e, he, rfl⟩ := List.mem_map.mp hj
    obtain rfl := List.mem_singleton.mp hj'
    exact of_decide_eq_true (List.mem_filter.mp he).2 heq
  · rcases List.mem_append.mp he with hold | hnew
    · exact hplain e (List.mem_filter.mp hold).1
    · rw [List.mem_singleton.mp hnew]
      exact hv

mutual

/-- **Merging is conjunction.** -/
theorem contains_tryMerge : ∀ {b a m : Json}, Plain a → Plain b → tryMerge a b = some m →
    Plain m ∧ ∀ d, contains d m = true ↔ contains d a = true ∧ contains d b = true
  | .arr bs, a, m, ha, _, h => by
    cases a with
    | arr as =>
      cases h
      exact ⟨trivial, fun d => contains_arr_append⟩
    | null => exact absurd ha not_plain_null
    | _ => cases h
  | .obj bm, a, m, ha, hb, h => by
    cases a with
    | obj am =>
      rw [tryMerge, Option.map_eq_some_iff] at h
      obtain ⟨out, hout, rfl⟩ := h
      exact contains_mergeEntries ha (plain_obj_iff.mp hb).2 hout
    | null => exact absurd ha not_plain_null
    | _ => cases h
  | .null, _, _, _, hb, _ => absurd hb not_plain_null
  | .bool _, a, _, ha, _, h => by cases a <;> first | exact absurd ha not_plain_null | cases h
  | .num _, a, _, ha, _, h => by cases a <;> first | exact absurd ha not_plain_null | cases h
  | .str _, a, _, ha, _, h => by cases a <;> first | exact absurd ha not_plain_null | cases h

theorem contains_mergeEntries : ∀ {bm out m : List (String × Json)}, Plain (.obj out) → (∀ e ∈ bm, Plain e.2) →
    mergeEntries out bm = some m →
    Plain (.obj m) ∧ ∀ d, contains d (.obj m) = true ↔ contains d (.obj out) = true ∧ contains d (.obj bm) = true
  | [], out, m, hout, _, h => by
    cases h
    exact ⟨hout, fun d => (and_iff_left_of_imp contains_obj_nil_of).symm⟩
  | (k, v) :: bm, out, m, hout, hbm, h => by
    rw [List.forall_mem_cons] at hbm
    rw [mergeEntries] at h
    obtain ⟨merged, hmerged, h⟩ := Option.bind_eq_some_iff.mp h
    have hone : Plain merged ∧ ∀ d, contains d (.obj (out.filter (·.1 ≠ k) ++ [(k, merged)])) = true ↔
        contains d (.obj out) = true ∧ contains d (.obj [(k, v)]) = true := by
      cases hlookup : out.lookup k with
      | none =>
        rw [hlookup, Option.getD_none, tryMerge_null] at hmerged
        cases hmerged
        have hkeep : out.filter (·.1 ≠ k) = out := by
          refine List.filter_eq_self.mpr fun e he => decide_eq_true fun heq => ?_
          exact lookup_eq_none_iff_notMem.mp hlookup (heq ▸ List.mem_map_of_mem he)
        rw [hkeep]
        exact ⟨hbm.1, fun d => contains_obj_append⟩
      | some x =>
        rw [hlookup, Option.getD_some] at hmerged
        obtain ⟨hnodup, hplain⟩ := plain_obj_iff.mp hout
        obtain ⟨hmergedPlain, hboth⟩ := contains_tryMerge (hplain _ (mem_of_lookup_eq_some hlookup)) hbm.1 hmerged
        refine ⟨hmergedPlain, fun d => ?_⟩
        rw [contains_obj_append, contains_obj_take hnodup hlookup d, and_assoc]
        refine and_congr_right fun _ => ?_
        simp only [contains_obj_singleton]
        constructor
        · rintro ⟨w, hw, hc⟩
          rw [hboth w] at hc
          exact ⟨⟨w, hw, hc.1⟩, w, hw, hc.2⟩
        · rintro ⟨⟨w, hw, hx⟩, w', hw', hv⟩
          obtain rfl := Option.some.inj (hw.symm.trans hw')
          exact ⟨w, hw, (hboth w).mpr ⟨hx, hv⟩⟩
    obtain ⟨hplain, hall⟩ := contains_mergeEntries (plain_replace hout hone.1) hbm.2 h
    refine ⟨hplain, fun d => ?_⟩
    rw [hall d, hone.2 d, and_assoc, ← contains_obj_append, List.singleton_append]

end

/-! ## The fragments of terms -/

def fragmentOf : QueryTerm → Option Json
  | .contain name key value _ => some (containFragment name key value)
  | _ => none

/-- The fragment of a containment term other than `format`, which is compiled to a condition. -/
def asked : QueryTerm → Option Json
  | .contain .format .. => none
  | t => fragmentOf t

def mergeTerm (m : Json) (t : QueryTerm) : Json :=
  match asked t with
  | some fragment => (tryMerge m fragment).getD m
  | none => m

/-- The fragment that `compile_terms` builds; `null` where there is none. -/
def metadataOf (terms : List QueryTerm) : Json := terms.foldl mergeTerm .null

theorem metadataOf_concat (terms : List QueryTerm) (t : QueryTerm) :
    metadataOf (terms ++ [t]) = mergeTerm (metadataOf terms) t := List.foldl_concat ..

theorem containFragment_eq (name : ContainName) (key : Option Text) (value : Text) :
    ∃ k v, containFragment name key value = .obj [(k, v)] ∧ Plain v ∧ (k = "format" ↔ name = .format) := by
  cases name
  case format => exact ⟨"format", _, rfl, trivial, by simp⟩
  case col => exact ⟨"column_names", _, rfl, trivial, by simp⟩
  case dim => exact ⟨"dimensions", _, rfl, trivial, by simp⟩
  case pii => exact ⟨"columns", _, rfl, trivial, by simp⟩
  case attr => exact ⟨"attributes", _, rfl, by simp [Plain, PlainMembers, text], by simp⟩

theorem asked_cases (t : QueryTerm) :
    (asked t = none ∧ ∀ f, fragmentOf t = some f → ∃ v, f = .obj [("format", v)]) ∨
      ∃ k v, asked t = some (.obj [(k, v)]) ∧ fragmentOf t = asked t ∧ Plain v ∧ k ≠ "format" := by
  cases t with
  | contain name key value raw =>
    obtain ⟨k, v, hf, hv, hk⟩ := containFragment_eq name key value
    by_cases hname : name = .format
    · subst hname
      refine .inl ⟨rfl, fun f h => ⟨v, ?_⟩⟩
      rw [← Option.some.inj h, hf, hk.mpr rfl]
    · refine .inr ⟨k, v, ?_, ?_, hv, fun h => hname (hk.mp h)⟩
      · rw [← hf]
        cases name <;> first | rfl | exact absurd rfl hname
      · cases name <;> first | rfl | exact absurd rfl hname
  | _ => exact .inl ⟨rfl, fun f h => by cases h⟩

/-! ## The two accumulators -/

/-- `null` or an object. -/
def members : Json → List (String × Json)
  | .obj es => es
  | _ => []

def IsAcc (m : Json) : Prop := m = .null ∨ ∃ es, m = .obj es

theorem tryMerge_single {m : Json} (hm : IsAcc m) (k : String) (v : Json) : tryMerge m (.obj [(k, v)]) =
    (tryMerge ((m.get? k).getD .null) v).map fun merged =>
      .obj ((members m).filter (·.1 ≠ k) ++ [(k, merged)]) := by
  rcases hm with rfl | ⟨es, rfl⟩
  · rw [tryMerge_null, show Json.null.get? k = none from rfl, Option.getD_none, tryMerge_null]
    rfl
  · rw [tryMerge, mergeEntries, members, get?]
    cases tryMerge ((es.lookup k).getD .null) v <;> rfl

theorem lookup_filter_ne {j : String} (h : j ≠ k) : ∀ es : List (String × Json),
    (es.filter (·.1 ≠ k)).lookup j = es.lookup j
  | [] => rfl
  | e :: es => by
    by_cases he : e.1 = k
    · rw [List.filter_cons_of_neg (by simpa using he), lookup_filter_ne h es, lookup_cons_ite, if_neg (he ▸ h)]
    · rw [List.filter_cons_of_pos (by simpa using he), lookup_cons_ite, lookup_cons_ite, lookup_filter_ne h es]

theorem get?_replace (m merged : Json) (k j : String) (hm : IsAcc m) :
    (Json.obj ((members m).filter (·.1 ≠ k) ++ [(k, merged)])).get? j = if j = k then some merged else m.get? j := by
  have hk : k ∉ ((members m).filter (·.1 ≠ k)).map (·.1) := by
    rw [List.mem_map]
    rintro ⟨e, he, rfl⟩
    exact absurd rfl (of_decide_eq_true (List.mem_filter.mp he).2)
  rw [get?, lookup_append_of_notMem hk]
  split
  · rfl
  · next hj =>
    rcases hm with rfl | ⟨es, rfl⟩
    · rfl
    · exact lookup_filter_ne hj es

/-- What the loop of the parser keeps: below each key but `format`, the two accumulators agree, and the one of the
compiler asks for what the terms ask for. -/
structure Merged (acc : Json) (terms : List QueryTerm) : Prop where
  isAcc : IsAcc acc
  agree : ∀ k ≠ "format", acc.get? k = (metadataOf terms).get? k
  metadata : (metadataOf terms = .null ∧ ∀ t ∈ terms, asked t = none) ∨
    (∃ es, metadataOf terms = .obj es) ∧ Plain (metadataOf terms) ∧
      ∀ d, contains d (metadataOf terms) = true ↔ ∀ t ∈ terms, ∀ f ∈ asked t, contains d f = true

variable {acc acc' : Json} {terms : List QueryTerm} {t : QueryTerm}

theorem Merged.isAcc_metadata (h : Merged acc terms) : IsAcc (metadataOf terms) :=
  h.metadata.imp (·.1) (·.1)

theorem Merged.concat_of_asked_none (h : Merged acc terms) (ht : asked t = none) (hacc : IsAcc acc')
    (hsame : ∀ k ≠ "format", acc'.get? k = acc.get? k) : Merged acc' (terms ++ [t]) := by
  have hmeta : metadataOf (terms ++ [t]) = metadataOf terms := by rw [metadataOf_concat, mergeTerm, ht]
  refine ⟨hacc, fun k hk => ?_, ?_⟩
  · rw [hmeta, hsame k hk, h.agree k hk]
  · rw [hmeta]
    refine h.metadata.imp (fun hnone => ⟨hnone.1, ?_⟩) fun hsome => ⟨hsome.1, hsome.2.1, fun d => ?_⟩
    · rw [List.forall_mem_append, List.forall_mem_singleton]
      exact ⟨hnone.2, ht⟩
    · rw [List.forall_mem_append, List.forall_mem_singleton, ht, hsome.2.2 d]
      exact (and_iff_left (by simp)).symm

theorem Merged.concat_of_asked_some (h : Merged acc terms) {k : String} {v : Json} (ht : asked t = some (.obj [(k, v)]))
    (hv : Plain v) (hk : k ≠ "format") (hmerge : tryMerge acc (.obj [(k, v)]) = some acc') :
    Merged acc' (terms ++ [t]) := by
  have hfragment : Plain (.obj [(k, v)]) := by simp [Plain, PlainMembers, hv]
  rw [tryMerge_single h.isAcc, Option.map_eq_some_iff] at hmerge
  obtain ⟨merged, hmerged, rfl⟩ := hmerge
  have hmeta : tryMerge (metadataOf terms) (.obj [(k, v)]) =
      some (.obj ((members (metadataOf terms)).filter (·.1 ≠ k) ++ [(k, merged)])) := by
    rw [tryMerge_single h.isAcc_metadata, ← h.agree k hk, hmerged]
    rfl
  have hconcat : metadataOf (terms ++ [t]) =
      .obj ((members (metadataOf terms)).filter (·.1 ≠ k) ++ [(k, merged)]) := by
    rw [metadataOf_concat, mergeTerm, ht]
    dsimp only
    rw [hmeta, Option.getD_some]
  refine ⟨.inr ⟨_, rfl⟩, fun j hj => ?_, .inr ⟨⟨_, hconcat⟩, ?_⟩⟩
  · rw [hconcat, get?_replace _ _ _ _ h.isAcc, get?_replace _ _ _ _ h.isAcc_metadata, h.agree j hj]
  · rw [hconcat]
    simp only [List.forall_mem_append, List.forall_mem_singleton, ht, Option.mem_def, Option.some.injEq,
      forall_eq']
    rcases h.metadata with ⟨hnull, hnone⟩ | ⟨-, hplain, hall⟩
    · rw [hnull, tryMerge_null] at hmeta
      rw [hnull, ← Option.some.inj hmeta]
      refine ⟨hfragment, fun d => (and_iff_right fun t ht => ?_).symm⟩
      simp [hnone t ht]
    · obtain ⟨hplain', hboth⟩ := contains_tryMerge hplain hfragment hmeta
      exact ⟨hplain', fun d => (hboth d).trans (and_congr_left' (hall d))⟩

/-! ## The parser -/

theorem parseToken_cases (h : parseToken st tok = .ok st') :
    (st'.terms = st.terms ∧ st'.containAcc = st.containAcc) ∨ ∃ t, st'.terms = st.terms ++ [t] ∧
        ((fragmentOf t = none ∧ st'.containAcc = st.containAcc) ∨
          ∃ f, fragmentOf t = some f ∧ tryMerge st.containAcc f = some st'.containAcc) := by
  rw [parseToken] at h
  cases hc : classifyToken tok.text with
  | error e =>
    rw [hc] at h
    cases h
  | ok classified =>
    rw [hc] at h
    cases classified with
    | error message =>
      cases h
      exact .inl ⟨rfl, rfl⟩
    | term t =>
      cases t with
      | contain name key value raw =>
        cases hmerge : tryMerge st.containAcc (containFragment name key value) with
        | some acc =>
          simp only [pure, Except.pure, bind, Except.bind, hmerge] at h
          cases h
          exact .inr ⟨_, rfl, .inr ⟨_, rfl, hmerge⟩⟩
        | none =>
          simp only [pure, Except.pure, bind, Except.bind, hmerge] at h
          cases h
          exact .inl ⟨rfl, rfl⟩
      | datatype name raw =>
        simp only [pure, Except.pure, bind, Except.bind] at h
        split at h
        · cases h
          exact .inl ⟨rfl, rfl⟩
        · cases h
          exact .inr ⟨_, rfl, .inl ⟨rfl, rfl⟩⟩
      | search text raw =>
        cases h
        exact .inr ⟨_, rfl, .inl ⟨rfl, rfl⟩⟩
      | filter field op value raw =>
        cases h
        exact .inr ⟨_, rfl, .inl ⟨rfl, rfl⟩⟩

theorem merged_parseToken (hst : Merged st.containAcc st.terms)
    (h : parseToken st tok = .ok st') : Merged st'.containAcc st'.terms := by
  rcases parseToken_cases h with ⟨hterms, hacc⟩ | ⟨t, hterms, hacc⟩
  · rw [hterms, hacc]
    exact hst
  · rw [hterms]
    rcases asked_cases t with ⟨hasked, hformat⟩ | ⟨k, v, hasked, hf, hv, hk⟩
    · rcases hacc with ⟨-, hacc⟩ | ⟨f, hf, hmerge⟩
      · rw [hacc]
        exact hst.concat_of_asked_none hasked hst.isAcc fun _ _ => rfl
      · obtain ⟨v, rfl⟩ := hformat f hf
        rw [tryMerge_single hst.isAcc, Option.map_eq_some_iff] at hmerge
        obtain ⟨merged, -, hmerge⟩ := hmerge
        rw [← hmerge]
        refine hst.concat_of_asked_none hasked (.inr ⟨_, rfl⟩) fun k hk => ?_
        rw [get?_replace _ _ _ _ hst.isAcc, if_neg hk]
    · rcases hacc with ⟨hnone, -⟩ | ⟨f, hf', hmerge⟩
      · rw [hf, hasked] at hnone
        cases hnone
      · rw [hf, hasked] at hf'
        cases hf'
        exact hst.concat_of_asked_some hasked hv hk hmerge

theorem merged_parseQuery {input : Text} {errors : List ParseError} (h : parseQuery input = .ok (terms, errors)) :
    ∃ acc, Merged acc terms := by
  rw [parseQuery] at h
  cases hfold : (tokenize input).foldlM parseToken ⟨[], [], .obj [], false⟩ with
  | error e =>
    rw [hfold] at h
    cases h
  | ok st =>
    rw [hfold] at h
    obtain ⟨rfl, -⟩ := Prod.mk.inj (Except.ok.inj h)
    refine ⟨st.containAcc, Returns.foldlM_keeps (P := fun st => Merged st.containAcc st.terms)
      (fun st tok st' hst hstep => merged_parseToken hst hstep) ?_ hfold⟩
    exact ⟨.inr ⟨_, rfl⟩, fun _ _ => rfl, .inl ⟨rfl, by simp⟩⟩

/-! ## The compiler -/

section

variable {now : UtcTime} {resolveDatatype : Text → Option (List Text)} {jsonText : Json → String}

theorem metadata_compileTerm {st st' : CompileState} (h : compileTerm now resolveDatatype st t = .ok st') :
    st'.metadata = mergeTerm st.metadata t := by
  cases t with
  | search text raw =>
    cases h
    rfl
  | datatype name raw =>
    cases h
    rfl
  | filter field op value raw =>
    rw [compileTerm] at h
    cases hv : coerced field op value now with
    | error e =>
      rw [hv] at h
      cases h
    | ok v =>
      rw [hv] at h
      cases h
      rfl
  | contain name key value raw =>
    cases name <;>
    · cases h
      rfl

/-- The fragment of a query; none where no term asks for one. -/
def mergedFragment (terms : List QueryTerm) : Option Json :=
  if metadataOf terms = .null then none else some (metadataOf terms)

theorem fileMetadata_compileTerms {params : QueryParams}
    (h : compileTerms now resolveDatatype jsonText terms = .ok params) :
    params.fileMetadata = (mergedFragment terms).map jsonText := by
  rw [compileTerms] at h
  cases hfold : terms.foldlM (compileTerm now resolveDatatype) ⟨[], [], .null⟩ with
  | error e =>
    rw [hfold] at h
    cases h
  | ok st =>
    have hst : st.metadata = metadataOf terms :=
      Returns.foldlM_image (g := CompileState.metadata) (fun _ _ _ => metadata_compileTerm) hfold
    rw [hfold] at h
    cases h
    dsimp only
    rw [hst, mergedFragment]
    split <;> rfl

end

/-- **Of a query that was parsed, a document contains the one fragment that is compiled exactly when it contains the
fragment of every containment term but `format`.** -/
theorem compileTerms_contains_iff {input : Text} {errors : List ParseError}
    (h : parseQuery input = .ok (terms, errors)) :
    (∀ now resolveDatatype jsonText params, compileTerms now resolveDatatype jsonText terms = .ok params →
      params.fileMetadata = (mergedFragment terms).map jsonText) ∧
    ∀ d, (∀ f ∈ mergedFragment terms, contains d f = true) ↔ ∀ t ∈ terms, ∀ f ∈ asked t, contains d f = true := by
  refine ⟨fun now resolveDatatype jsonText params hparams => fileMetadata_compileTerms hparams, fun d => ?_⟩
  obtain ⟨acc, hmerged⟩ := merged_parseQuery h
  rcases hmerged.metadata with ⟨hnull, hnone⟩ | ⟨⟨es, hes⟩, -, hall⟩
  · rw [mergedFragment, if_pos hnull]
    refine iff_of_true (fun f hf => by cases hf) fun t ht f hf => ?_
    rw [hnone t ht] at hf
    cases hf
  · rw [mergedFragment, if_neg (by simp [hes]), ← hall d]
    simp

/-- Two columns, a classification and an attribute. -/
theorem compileTerms_contains_columns : ∃ terms errors,
    parseQuery "col:a pii:email col:b attr:k=v".toList = .ok (terms, errors) ∧
    ∀ d, (∀ f ∈ mergedFragment terms, contains d f = true) ↔ ∀ t ∈ terms, ∀ f ∈ asked t, contains d f = true := by
  have hparse : parseQuery "col:a pii:email col:b attr:k=v".toList =
      .ok ([.contain .col none "a".toList "col:a".toList, .contain .pii none "email".toList "pii:email".toList,
        .contain .col none "b".toList "col:b".toList, .contain .attr (some "k".toList) "v".toList "attr:k=v".toList],
        []) := by decide +kernel
  exact ⟨_, _, hparse, (compileTerms_contains_iff hparse).2⟩

end QueryDsl

end Mekhan

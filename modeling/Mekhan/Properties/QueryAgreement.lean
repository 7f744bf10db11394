import Mekhan.Properties.QueryParsers

/-!
# Where the parsers agree

The parser in the browser and the one on the server part in three places: a space that only one of
them knows, a filter with a line terminator in its value, and a key that every object of the browser
has.
-/

namespace Mekhan

namespace QueryParsers

open Infra QueryDsl
open QueryLanguage (JsValue)

/-! ## The property -/

/-- A term without the text it was read from. -/
def meaning : QueryTerm → QueryTerm
  | .search text _ => .search text []
  | .filter field op value _ => .filter field op value []
  | .contain name key value _ => .contain name key value []
  | .datatype name _ => .datatype name []

/-- Both parsers take the same terms and report the same tokens, positions in UTF-16 code units. -/
def Agree (input : Text) : Prop :=
  ∃ terms errors, QueryDsl.parseQuery input = .ok (terms, errors) ∧
    terms.map meaning = (QueryLanguage.parseQuery input).1.map meaning ∧
      errors.map (fun e => (wordOf e).remeasure QueryLanguage.utf16Size input) =
        (QueryLanguage.parseQuery input).2.map wordOf

theorem agree_iff (input : Text) : Agree input ↔
    (taken (serverVerdicts input)).map meaning = (taken (browserVerdicts input)).map meaning ∧
      (reported (serverVerdicts input)).map (Word.remeasure QueryLanguage.utf16Size input) =
        reported (browserVerdicts input) := by
  obtain ⟨errors, hserver, herrors⟩ := parseQuery_server input
  obtain ⟨errors', hbrowser, herrors'⟩ := parseQuery_browser input
  have hmap : errors.map (fun e => (wordOf e).remeasure QueryLanguage.utf16Size input) =
      (reported (serverVerdicts input)).map (Word.remeasure QueryLanguage.utf16Size input) := by
    rw [← herrors, List.map_map]
    rfl
  unfold Agree
  rw [hbrowser, ← herrors', ← hmap]
  constructor
  · rintro ⟨terms, errs, hparse, hterms, herrs⟩
    obtain ⟨rfl, rfl⟩ := Prod.mk.inj (Except.ok.inj (hserver.symm.trans hparse))
    exact ⟨hterms, herrs⟩
  · rintro ⟨hterms, herrs⟩
    exact ⟨_, _, hserver, hterms, herrs⟩

/-- The keys of the `attr` terms, in order. -/
def attrKeys (terms : List QueryTerm) : List Text :=
  terms.filterMap fun t =>
    match slotOf t with
    | some (.attr key) => some key
    | _ => none

/-- A term of a slot that an earlier term has taken. -/
def Repeats (earlier : List QueryTerm) (t : QueryTerm) : Prop :=
  ∃ slot, slotOf t = some slot ∧ ∃ old ∈ earlier, slotOf old = some slot

/-- A token after the terms of earlier tokens: if it is a filter with a line terminator, it is an error
or a duplicate; if it is an `attr` term after others, its key is no inherited method, or it is a
duplicate, and `__proto__` is no duplicate unless it came first. -/
structure TokenAgrees (earlier : List QueryTerm) (raw : Text) : Prop where
  lines : Spanning raw → ∀ t, serverTerm raw = some t → Repeats earlier t
  inherited : ¬ Spanning raw → ∀ t key, serverTerm raw = some t → slotOf t = some (.attr key) →
    attrKeys earlier ≠ [] →
      (key ∈ JsValue.methodNames → key ∈ attrKeys earlier) ∧
        (key = JsValue.protoKey → key ∈ attrKeys earlier → (attrKeys earlier).head? = some key)

def nextLine : Char := '\u0085'

def byteOrderMark : Char := '\uFEFF'

/-- No space that only one of the parsers knows, and every token is as above. -/
structure Common (input : Text) : Prop where
  spaces : ∀ c ∈ Word.unquoted false input, c ≠ nextLine ∧ c ≠ byteOrderMark
  tokens : ∀ before tok after, QueryDsl.tokenize input = before ++ tok :: after →
    TokenAgrees (before.filterMap fun w => serverTerm w.text) tok.text

/-! ## Token by token -/

/-- How the two parsers' memories go with the terms of the tokens so far. -/
structure Related (earlier : List QueryTerm) (s b : Taken) : Prop where
  has : ∀ slot, s.Has slot ↔ ∃ t ∈ earlier, slotOf t = some slot
  first : s.attrs.head? = (attrKeys earlier).head?
  sameFormat : b.format = s.format
  sameDatatype : b.datatype = s.datatype
  sameAttrs : ∀ k, k ∈ b.attrs ↔
    k ∈ s.attrs ∧ (k = JsValue.protoKey → s.attrs.head? = some JsValue.protoKey)
  sameNil : b.attrs = [] ↔ s.attrs = []

theorem related_empty : Related [] .empty .empty where
  has slot := by cases slot <;> simp [Taken.Has, Taken.empty]
  first := rfl
  sameFormat := rfl
  sameDatatype := rfl
  sameAttrs := by simp [Taken.empty]
  sameNil := Iff.rfl

theorem mem_attrKeys {terms : List QueryTerm} {key : Text} :
    key ∈ attrKeys terms ↔ ∃ t ∈ terms, slotOf t = some (.attr key) := by
  unfold attrKeys
  rw [List.mem_filterMap]
  refine exists_congr fun t => and_congr_right fun _ => ?_
  cases hslot : slotOf t with
  | none => simp
  | some slot => cases slot <;> simp

theorem attrKeys_append (a b : List QueryTerm) : attrKeys (a ++ b) = attrKeys a ++ attrKeys b :=
  List.filterMap_append

namespace Related

variable {earlier : List QueryTerm} {s b : Taken}

theorem server_eq_none (h : Related earlier s b) (t : QueryTerm) : s.server t = none ↔ Repeats earlier t := by
  unfold Repeats Taken.server
  cases slotOf t with
  | none => simp
  | some slot =>
    simp only [Option.some.injEq, exists_eq_left', ← h.has]
    split <;> simp_all

theorem mem_attrs (h : Related earlier s b) (k : Text) : k ∈ s.attrs ↔ k ∈ attrKeys earlier :=
  (h.has (.attr k)).trans mem_attrKeys.symm

variable {t : QueryTerm} {slot : Slot}

theorem exists_snoc : (∃ old ∈ earlier ++ [t], slotOf old = some slot) ↔
    (∃ old ∈ earlier, slotOf old = some slot) ∨ slotOf t = some slot := by
  constructor
  · rintro ⟨old, hold, hslot⟩
    rcases List.mem_append.mp hold with hold | hold
    · exact Or.inl ⟨old, hold, hslot⟩
    · exact Or.inr (List.mem_singleton.mp hold ▸ hslot)
  · rintro (⟨old, hold, hslot⟩ | hslot)
    · exact ⟨old, List.mem_append_left _ hold, hslot⟩
    · exact ⟨t, List.mem_append_right _ (List.mem_singleton_self t), hslot⟩

theorem attrKeys_singleton (ht : slotOf t = some slot) : attrKeys [t] = match slot with
      | .attr key => [key]
      | _ => [] := by
  cases slot <;> simp [attrKeys, ht]

theorem snoc (h : Related earlier s b) {t : QueryTerm} (ht : slotOf t = none ∨ Repeats earlier t) :
    Related (earlier ++ [t]) s b := by
  have hslots : ∀ slot, (∃ old ∈ earlier ++ [t], slotOf old = some slot) ↔
      ∃ old ∈ earlier, slotOf old = some slot := by
    intro slot
    rw [exists_snoc]
    refine or_iff_left_of_imp fun hslot => ?_
    rcases ht with hnone | ⟨slot', hslot', hrep⟩
    · exact absurd (hnone.symm.trans hslot) (by simp)
    · rwa [Option.some.inj (hslot'.symm.trans hslot)] at hrep
  refine { h with has := fun slot => (h.has slot).trans (hslots slot).symm, first := ?_ }
  rw [h.first, attrKeys_append, List.head?_append]
  cases hkeys : attrKeys earlier with
  | cons k ks => rfl
  | nil =>
    -- A repeated key would be among the earlier ones.
    have hnone : attrKeys [t] = [] := by
      rw [List.eq_nil_iff_forall_not_mem]
      intro k hk
      obtain ⟨old, hold, hslot⟩ := mem_attrKeys.mp hk
      have hmem : k ∈ attrKeys earlier := mem_attrKeys.mpr ((hslots (.attr k)).mp
        ⟨old, List.mem_append_right _ hold, hslot⟩)
      rw [hkeys] at hmem
      exact List.not_mem_nil hmem
    rw [hnone]
    rfl

theorem add (h : Related earlier s b) {t : QueryTerm} {slot : Slot} (ht : slotOf t = some slot)
    {b' : Taken} (hformat : b'.format = (s.add slot).format) (hdatatype : b'.datatype = (s.add slot).datatype)
    (hattrs : ∀ k, k ∈ b'.attrs ↔ k ∈ (s.add slot).attrs ∧
      (k = JsValue.protoKey → (s.add slot).attrs.head? = some JsValue.protoKey))
    (hnil : b'.attrs = [] ↔ (s.add slot).attrs = []) : Related (earlier ++ [t]) (s.add slot) b' where
  has slot' := by
    rw [exists_snoc, ← h.has, ht, Option.some.injEq]
    exact Taken.has_add
  first := by
    rw [attrKeys_append, attrKeys_singleton ht, List.head?_append, ← h.first]
    cases slot with
    | attr key => rw [Taken.add, List.head?_append]
    | _ => simp [Taken.add]
  sameFormat := hformat
  sameDatatype := hdatatype
  sameAttrs := hattrs
  sameNil := hnil

theorem step_plain (h : Related earlier s b) {t : QueryTerm} (hattr : ∀ key, slotOf t ≠ some (.attr key)) :
    ((s.server t).isNone = (b.browser t).isNone) ∧
      Related (earlier ++ [t]) ((s.server t).getD s) ((b.browser t).getD b) := by
  cases hslot : slotOf t with
  | none =>
    simp only [Taken.server, Taken.browser, hslot, Option.getD_some]
    exact ⟨rfl, h.snoc (Or.inl hslot)⟩
  | some slot =>
    have hbrowser : b.browser t = if b.Has slot then none else some (b.add slot) := by
      cases slot with
      | attr key => exact absurd hslot (hattr key)
      | _ => simp only [Taken.browser, hslot]
    have hsame : b.Has slot ↔ s.Has slot := by
      cases slot with
      | attr key => exact absurd hslot (hattr key)
      | format => exact iff_of_eq (congrArg (· = true) h.sameFormat)
      | datatype => exact iff_of_eq (congrArg (· = true) h.sameDatatype)
    have hserver : s.server t = if s.Has slot then none else some (s.add slot) := by
      simp only [Taken.server, hslot]
    rw [hserver, hbrowser]
    by_cases hhas : s.Has slot
    · rw [if_pos hhas, if_pos (hsame.mpr hhas)]
      exact ⟨rfl, h.snoc (Or.inr ⟨slot, hslot, (h.has slot).mp hhas⟩)⟩
    · rw [if_neg hhas, if_neg (mt hsame.mp hhas)]
      refine ⟨rfl, h.add hslot ?_ ?_ ?_ ?_⟩
      · cases slot <;> first | rfl | exact h.sameFormat
      · cases slot <;> first | rfl | exact h.sameDatatype
      · cases slot with
        | attr key => exact absurd hslot (hattr key)
        | _ => exact h.sameAttrs
      · cases slot with
        | attr key => exact absurd hslot (hattr key)
        | _ => exact h.sameNil

/-- The condition on an `attr` term after others. -/
def KeyAgrees (earlier : List QueryTerm) (key : Text) : Prop :=
  attrKeys earlier ≠ [] →
    (key ∈ JsValue.methodNames → key ∈ attrKeys earlier) ∧
      (key = JsValue.protoKey → key ∈ attrKeys earlier → (attrKeys earlier).head? = some key)

theorem protoKey_not_method : JsValue.protoKey ∉ JsValue.methodNames := by decide

/-- An `attr` term: the browser takes or reports it like the server, exactly under the condition. -/
theorem step_attr (h : Related earlier s b) {t : QueryTerm} {key : Text}
    (hslot : slotOf t = some (.attr key)) :
    ((s.server t).isNone = (b.browser t).isNone ↔ KeyAgrees earlier key) ∧
      ((s.server t).isNone = (b.browser t).isNone →
        Related (earlier ++ [t]) ((s.server t).getD s) ((b.browser t).getD b)) := by
  have hserver : s.server t = if key ∈ s.attrs then none else some (s.add (.attr key)) := by
    simp only [Taken.server, hslot]
    rfl
  have hbrowser : b.browser t = if b.attrs = [] then some { b with attrs := [key] }
      else if key ∈ b.attrs ∨ key ∈ JsValue.methodNames then none
      else if key = JsValue.protoKey then some b
      else some { b with attrs := b.attrs ++ [key] } := by
    simp only [Taken.browser, hslot]
  have hkeys : attrKeys earlier = [] ↔ s.attrs = [] := by
    have hfirst := h.first
    cases hs : s.attrs <;> cases he : attrKeys earlier <;> simp_all
  have hadd : ∀ b' : Taken, b'.format = b.format → b'.datatype = b.datatype →
      (∀ k, k ∈ b'.attrs ↔ k ∈ s.attrs ++ [key] ∧
        (k = JsValue.protoKey → (s.attrs ++ [key]).head? = some JsValue.protoKey)) → b'.attrs ≠ [] →
          Related (earlier ++ [t]) (s.add (.attr key)) b' := by
    intro b' hformat hdatatype hattrs hne
    refine h.add hslot (hformat.trans h.sameFormat) (hdatatype.trans h.sameDatatype) hattrs ?_
    exact iff_of_false hne (by simp [Taken.add])
  rw [hserver, hbrowser]
  unfold KeyAgrees
  by_cases hnil : s.attrs = []
  · -- The first `attr` term is taken whatever its key is.
    rw [if_pos (h.sameNil.mpr hnil), if_neg (by simp [hnil])]
    refine ⟨iff_of_true rfl fun hne => absurd (hkeys.mpr hnil) hne, fun _ => ?_⟩
    refine hadd { b with attrs := [key] } rfl rfl (fun k => ?_) (by simp)
    simp only [hnil, List.nil_append, List.mem_singleton, List.head?_cons, Option.some.injEq]
    constructor
    · rintro rfl
      exact ⟨rfl, id⟩
    · exact And.left
  · rw [if_neg (mt h.sameNil.mp hnil)]
    have hne : attrKeys earlier ≠ [] := mt hkeys.mp hnil
    by_cases hmem : key ∈ s.attrs
    · have hrep : Repeats earlier t := ⟨_, hslot, (h.has (.attr key)).mp hmem⟩
      have hmem' : key ∈ attrKeys earlier := (h.mem_attrs key).mp hmem
      rw [if_pos hmem]
      by_cases hb : key ∈ b.attrs
      · -- Both report a key that both have.
        rw [if_pos (Or.inl hb)]
        refine ⟨iff_of_true rfl fun _ => ⟨fun _ => hmem', ?_⟩, fun _ => h.snoc (Or.inr hrep)⟩
        rintro rfl _
        rw [← h.first]
        exact ((h.sameAttrs _).mp hb).2 rfl
      · -- The key is `__proto__`, which the browser has not kept.
        have hproto : key = JsValue.protoKey ∧ s.attrs.head? ≠ some JsValue.protoKey := by
          by_contra hcontra
          exact hb ((h.sameAttrs key).mpr ⟨hmem, fun hk => by_contra fun hh => hcontra ⟨hk, hh⟩⟩)
        have hmethod : key ∉ JsValue.methodNames := hproto.1 ▸ protoKey_not_method
        rw [if_neg (not_or.mpr ⟨hb, hmethod⟩), if_pos hproto.1]
        refine ⟨iff_of_false (by simp) ?_, fun hsame => absurd hsame (by simp)⟩
        intro hagrees
        have hfirst := (hagrees hne).2 hproto.1 hmem'
        rw [← h.first, hproto.1] at hfirst
        exact hproto.2 hfirst
    · have hb : key ∉ b.attrs := fun hb => hmem ((h.sameAttrs key).mp hb).1
      have hmem' : key ∉ attrKeys earlier := fun hk => hmem ((h.mem_attrs key).mpr hk)
      have hhead : (s.attrs ++ [key]).head? = s.attrs.head? := by
        cases hs : s.attrs with
        | nil => exact absurd hs hnil
        | cons k ks => rfl
      rw [if_neg hmem]
      by_cases hmethod : key ∈ JsValue.methodNames
      · rw [if_pos (Or.inr hmethod)]
        refine ⟨iff_of_false (by simp) fun hagrees => hmem' ((hagrees hne).1 hmethod), fun hsame => ?_⟩
        cases hsame
      · rw [if_neg (not_or.mpr ⟨hb, hmethod⟩)]
        have hagrees : attrKeys earlier ≠ [] → (key ∈ JsValue.methodNames → key ∈ attrKeys earlier) ∧
            (key = JsValue.protoKey → key ∈ attrKeys earlier →
              (attrKeys earlier).head? = some key) := fun _ =>
          ⟨fun hm => absurd hm hmethod, fun _ hk => absurd hk hmem'⟩
        by_cases hproto : key = JsValue.protoKey
        · rw [if_pos hproto]
          refine ⟨iff_of_true rfl hagrees, fun _ => hadd b rfl rfl (fun k => ?_) (mt h.sameNil.mp hnil)⟩
          -- `__proto__` is not the first key, so it is in neither list that counts.
          have hfirst : s.attrs.head? ≠ some JsValue.protoKey := by
            intro hh
            exact hmem (hproto ▸ List.mem_of_mem_head? hh)
          rw [h.sameAttrs, hhead, List.mem_append, List.mem_singleton]
          refine and_congr_left fun himp => ⟨Or.inl, ?_⟩
          rintro (hk | rfl)
          · exact hk
          · exact absurd (himp hproto) hfirst
        · rw [if_neg hproto]
          refine ⟨iff_of_true rfl hagrees, fun _ => hadd { b with attrs := b.attrs ++ [key] } rfl rfl
            (fun k => ?_) (by simp)⟩
          rw [hhead, List.mem_append, List.mem_append, List.mem_singleton, h.sameAttrs]
          constructor
          · rintro (⟨hk, himp⟩ | rfl)
            · exact ⟨Or.inl hk, himp⟩
            · exact ⟨Or.inr rfl, fun hk => absurd hk hproto⟩
          · rintro ⟨hk | rfl, himp⟩
            · exact Or.inl ⟨hk, himp⟩
            · exact Or.inr rfl

def after (earlier : List QueryTerm) (raw : Text) : List QueryTerm := earlier ++ (serverTerm raw).toList

/-- The parsers agree on a token exactly under the condition; then they take the same term, and their
memories go together as before. -/
structure StepAgrees (earlier : List QueryTerm) (s b : Taken) (raw : Text) : Prop where
  reports : (verdict serverTerm Taken.server s raw).isNone =
    (verdict browserTerm Taken.browser b raw).isNone ↔ TokenAgrees earlier raw
  goesOn : TokenAgrees earlier raw →
    (verdict serverTerm Taken.server s raw).map Prod.fst =
      (verdict browserTerm Taken.browser b raw).map Prod.fst ∧
    Related (after earlier raw) (((verdict serverTerm Taken.server s raw).map Prod.snd).getD s)
      (((verdict browserTerm Taken.browser b raw).map Prod.snd).getD b)

theorem StepAgrees.of_and {raw : Text} (h : ((verdict serverTerm Taken.server s raw).isNone =
        (verdict browserTerm Taken.browser b raw).isNone ↔ TokenAgrees earlier raw) ∧
      ((verdict serverTerm Taken.server s raw).isNone = (verdict browserTerm Taken.browser b raw).isNone →
        (verdict serverTerm Taken.server s raw).map Prod.fst =
          (verdict browserTerm Taken.browser b raw).map Prod.fst ∧
        Related (after earlier raw) (((verdict serverTerm Taken.server s raw).map Prod.snd).getD s)
          (((verdict browserTerm Taken.browser b raw).map Prod.snd).getD b))) : StepAgrees earlier s b raw :=
  ⟨h.1, fun hagrees => h.2 (h.1.mpr hagrees)⟩

theorem step_same (h : Related earlier s b) {raw : Text} (hspanning : ¬ Spanning raw) :
    StepAgrees earlier s b raw := by
  have hterm : browserTerm raw = serverTerm raw := by
    unfold browserTerm serverTerm
    rw [classifyToken_agrees hspanning]
  apply StepAgrees.of_and
  unfold verdict after
  rw [hterm]
  cases hraw : serverTerm raw with
  | none =>
    refine ⟨iff_of_true rfl ⟨fun h => absurd h hspanning, fun _ t key ht => ?_⟩, fun _ => ⟨rfl, ?_⟩⟩
    · exact absurd (hraw.symm.trans ht) (by simp)
    · simpa using h
  | some t =>
    simp only [Option.bind_some, Option.isNone_map, Option.map_map, Option.toList_some]
    have hfst : (s.server t).isNone = (b.browser t).isNone →
        (s.server t).map (Prod.fst ∘ fun t' => (t, t')) =
          (b.browser t).map (Prod.fst ∘ fun t' => (t, t')) := by
      intro hsame
      cases hs : s.server t <;> cases hb : b.browser t <;> simp_all
    have hsnd : ∀ x : Option Taken, x.map (Prod.snd ∘ fun t' => (t, t')) = x := by
      intro x
      cases x <;> rfl
    rw [hsnd, hsnd]
    by_cases hattr : ∃ key, slotOf t = some (.attr key)
    · obtain ⟨key, hslot⟩ := hattr
      obtain ⟨hiff, hrelated⟩ := h.step_attr hslot
      refine ⟨hiff.trans ⟨fun hagrees => ?_, fun hagrees => ?_⟩, fun hsame => ⟨hfst hsame, hrelated hsame⟩⟩
      · refine ⟨fun h => absurd h hspanning, fun _ t' key' ht' hslot' => ?_⟩
        obtain rfl := Option.some.inj (hraw.symm.trans ht')
        obtain rfl := Slot.attr.inj (Option.some.inj (hslot.symm.trans hslot'))
        exact hagrees
      · exact hagrees.inherited hspanning t key hraw hslot
    · have hattr' : ∀ key, slotOf t ≠ some (.attr key) := fun key hkey => hattr ⟨key, hkey⟩
      obtain ⟨hsame, hrelated⟩ := h.step_plain hattr'
      refine ⟨iff_of_true hsame ⟨fun h => absurd h hspanning, fun _ t' key' ht' hslot' => ?_⟩,
        fun _ => ⟨hfst hsame, hrelated⟩⟩
      obtain rfl := Option.some.inj (hraw.symm.trans ht')
      exact absurd hslot' (hattr' key')

theorem step_spanning (h : Related earlier s b) {raw : Text} (hspanning : Spanning raw)
    (hquote : '"' ∈ raw) : StepAgrees earlier s b raw := by
  have hbrowser : verdict browserTerm Taken.browser b raw = none := by
    unfold verdict browserTerm
    rw [classifyToken_spanning hspanning hquote]
    rfl
  have hserver : verdict serverTerm Taken.server s raw = none ↔
      ∀ t, serverTerm raw = some t → Repeats earlier t := by
    unfold verdict
    cases hraw : serverTerm raw with
    | none => simp
    | some t =>
      simp only [Option.bind_some, Option.map_eq_none_iff, Option.some.injEq, forall_eq']
      exact h.server_eq_none t
  apply StepAgrees.of_and
  rw [hbrowser]
  have hnone : (verdict serverTerm Taken.server s raw).isNone =
      (none : Option (QueryTerm × Taken)).isNone ↔ verdict serverTerm Taken.server s raw = none := by
    simp
  rw [hnone]
  refine ⟨hserver.trans ⟨fun hrep => ?_, fun hagrees => hagrees.lines hspanning⟩, fun hsame => ?_⟩
  · exact ⟨fun _ => hrep, fun hnot => absurd hspanning hnot⟩
  · rw [hsame]
    refine ⟨rfl, ?_⟩
    unfold after
    cases hraw : serverTerm raw with
    | none => simpa using h
    | some t => exact h.snoc (Or.inr (hserver.mp hsame t hraw))

theorem step (h : Related earlier s b) {raw : Text} (hquote : Spanning raw → '"' ∈ raw) :
    StepAgrees earlier s b raw := by
  by_cases hspanning : Spanning raw
  · exact h.step_spanning hspanning (hquote hspanning)
  · exact h.step_same hspanning

end Related

/-! ## Runs -/

theorem verdicts_cons (classify : Text → Option QueryTerm) (take : Taken → QueryTerm → Option Taken)
    (t : Taken) (tok : Word) (toks : List Word) :
    verdicts classify take t (tok :: toks) = (tok, (verdict classify take t tok.text).map Prod.fst) ::
      verdicts classify take (((verdict classify take t tok.text).map Prod.snd).getD t) toks := by
  rw [verdicts]
  cases verdict classify take t tok.text <;> rfl

def flags (vs : List (Word × Option QueryTerm)) : List Bool := vs.map fun v => v.2.isNone

/-- Every token is as it has to be after the ones before it. -/
def AllAgree (earlier : List QueryTerm) : List Word → Prop
  | [] => True
  | tok :: toks => TokenAgrees earlier tok.text ∧ AllAgree (Related.after earlier tok.text) toks

variable {c : Char} {toks : List Word} {input : Text}

theorem allAgree_iff : ∀ {earlier : List QueryTerm}, AllAgree earlier toks ↔
    ∀ before tok after, toks = before ++ tok :: after →
      TokenAgrees (earlier ++ before.filterMap fun w => serverTerm w.text) tok.text := by
  induction toks with
  | nil =>
    intro earlier
    exact iff_of_true trivial fun before tok after h => absurd h (by simp)
  | cons tok toks ih =>
    intro earlier
    rw [AllAgree, ih]
    have hafter : ∀ before : List Word,
        Related.after earlier tok.text ++ before.filterMap (fun w => serverTerm w.text) =
          earlier ++ (tok :: before).filterMap fun w => serverTerm w.text := by
      intro before
      unfold Related.after
      rw [List.filterMap_cons, List.append_assoc]
      cases serverTerm tok.text <;> rfl
    constructor
    · rintro ⟨htok, htoks⟩ before tok' after hsplit
      cases before with
      | nil =>
        obtain ⟨rfl, -⟩ := List.cons.inj hsplit
        simpa using htok
      | cons w before =>
        obtain ⟨rfl, htail⟩ := List.cons.inj hsplit
        rw [← hafter]
        exact htoks before tok' after htail
    · intro h
      refine ⟨by simpa using h [] tok toks rfl, fun before tok' after hsplit => ?_⟩
      rw [hafter]
      exact h (tok :: before) tok' after (by rw [hsplit, List.cons_append])

/-- **Over the same tokens, the parsers report the same ones exactly under the condition**, and then
they take the same terms. -/
theorem flags_eq_iff (hquote : ∀ tok ∈ toks, Spanning tok.text → '"' ∈ tok.text) :
    ∀ {earlier : List QueryTerm} {s b : Taken}, Related earlier s b →
      (flags (verdicts serverTerm Taken.server s toks) =
          flags (verdicts browserTerm Taken.browser b toks) ↔ AllAgree earlier toks) ∧
        (AllAgree earlier toks → verdicts serverTerm Taken.server s toks =
          verdicts browserTerm Taken.browser b toks) := by
  induction toks with
  | nil =>
    intro earlier s b _
    exact ⟨iff_of_true rfl trivial, fun _ => rfl⟩
  | cons tok toks ih =>
    intro earlier s b h
    obtain ⟨hreports, hgoesOn⟩ := h.step (hquote tok List.mem_cons_self)
    have hrest : TokenAgrees earlier tok.text → _ := fun hagrees =>
      ih (fun w hw => hquote w (List.mem_cons_of_mem _ hw)) (hgoesOn hagrees).2
    rw [verdicts_cons, verdicts_cons, AllAgree]
    constructor
    · unfold flags
      rw [List.map_cons, List.map_cons, List.cons.injEq, Option.isNone_map, Option.isNone_map, hreports]
      exact and_congr_right fun hagrees => (hrest hagrees).1
    · rintro ⟨hagrees, hall⟩
      rw [(hgoesOn hagrees).1, (hrest hagrees).2 hall]

theorem flags_eq_of_reported_eq {xs : List (Word × Option QueryTerm)} :
    ∀ {ys : List (Word × Option QueryTerm)}, xs.map Prod.fst = ys.map Prod.fst →
      ((xs.map Prod.fst).Pairwise fun a b => a.start < b.start) → reported xs = reported ys →
        flags xs = flags ys := by
  induction xs with
  | nil =>
    intro ys hfst _ _
    rw [List.map_eq_nil_iff.mp hfst.symm]
  | cons x xs ih =>
    intro ys hfst hstarts hreported
    cases ys with
    | nil => cases hfst
    | cons y ys =>
      obtain ⟨hxy, hfst⟩ := List.cons.inj hfst
      obtain ⟨hlater, hstarts⟩ := List.pairwise_cons.mp hstarts
      -- A later word does not start where this one does.
      have hmem : ∀ {zs : List (Word × Option QueryTerm)}, zs.map Prod.fst = xs.map Prod.fst →
          x.1 ∉ reported zs := by
        intro zs hzs hx
        obtain ⟨z, hz, heq⟩ := List.mem_map.mp hx
        have hz' : z.1 ∈ zs.map Prod.fst := List.mem_map_of_mem (List.mem_filter.mp hz).1
        rw [hzs] at hz'
        exact absurd (hlater _ hz') (by rw [heq]; exact Nat.lt_irrefl _)
      have hcons : ∀ (z : Word × Option QueryTerm) zs, reported (z :: zs) =
          if z.2.isNone then z.1 :: reported zs else reported zs := by
        intro z zs
        unfold reported
        cases hz : z.2.isNone <;> simp [hz]
      rw [hcons, hcons] at hreported
      unfold flags
      rw [List.map_cons, List.map_cons]
      cases hx : x.2.isNone <;> cases hy : y.2.isNone <;>
        simp only [hx, hy, if_true, if_false, Bool.false_eq_true] at hreported
      · exact congrArg (false :: ·) (ih hfst hstarts hreported)
      · have hin : x.1 ∈ reported xs := by
          rw [hreported, hxy]
          exact List.mem_cons_self ..
        exact absurd hin (hmem rfl)
      · have hin : x.1 ∈ reported ys := by
          rw [← hreported]
          exact List.mem_cons_self ..
        exact absurd hin (hmem hfst.symm)
      · exact congrArg (true :: ·) (ih hfst hstarts (List.cons.inj hreported).2)

/-! ## What a term keeps of its token -/

def content : QueryTerm → Text
  | .search text _ => text
  | .filter _ _ value _ => value
  | .contain _ key value _ => key.getD [] ++ value
  | .datatype name _ => name

theorem content_meaning (t : QueryTerm) : content (meaning t) = content t := by
  cases t <;> rfl

section Counting

variable {c : Char} (hc : 128 ≤ c.toNat)

include hc

variable {field v : Text}

theorem count_eq_zero_of_ascii (h : ∀ d ∈ v, d.toNat < 128) : v.count c = 0 := by
  rw [List.count_eq_zero]
  intro hmem
  have := h c hmem
  omega

theorem count_cons_ascii {d : Char} (hd : d.toNat < 128) (v : Text) : (d :: v).count c = v.count c := by
  rw [List.count_cons, beq_false_of_ne, if_neg Bool.false_ne_true, Nat.add_zero]
  rintro rfl
  omega

theorem count_readQuoted (h : (readQuoted v).error = none) : (readQuoted v).value.count c = v.count c := by
  rcases quoted_cases v with hplain | ⟨rest, rfl, hnone⟩ | ⟨inner, after, rfl, hinner⟩
  · rw [readQuoted_plain hplain]
  · rw [readQuoted_open hnone] at h
    cases h
  · rw [readQuoted_closed hinner] at h ⊢
    split at h
    · next hafter =>
      rw [if_pos hafter, hafter, count_cons_ascii hc (by decide), List.count_append,
        count_cons_ascii hc (by decide), List.count_nil, Nat.add_zero]
    · cases h

variable {raw rest : Text} {t : QueryTerm} {op : OpText}

theorem count_sugared {make : Text → QueryTerm} {n : Nat}
    (hmake : ∀ v, (content (make v)).count c = n + v.count c)
    (h : sugared make rest = .ok (.term t)) : (content t).count c = n + rest.count c := by
  unfold sugared at h
  rw [unquote_eq] at h
  simp only [bind, Except.bind, pure, Except.pure] at h
  split at h
  · cases h
  · next herror =>
    split at h
    · cases h
    · obtain rfl := Classified.term.inj (Except.ok.inj h)
      rw [hmake, count_readQuoted hc herror]

theorem count_classifyContain {name : ContainName}
    (h : classifyContain name rest raw = .ok (.term t)) : (content t).count c = rest.count c := by
  by_cases hname : name = .attr
  · subst hname
    rcases split_first '=' rest with hnone | ⟨key, value, rfl, hkey⟩
    · rw [classifyContain_keyless (Or.inl hnone)] at h
      cases h
    · by_cases hne : key = []
      · rw [hne, classifyContain_keyless (Or.inr rfl)] at h
        cases h
      · rw [classifyContain_attr hkey hne] at h
        have hmake : ∀ v, (content (.contain .attr (some key) v raw)).count c =
            key.count c + v.count c := fun v => List.count_append
        rw [count_sugared hc hmake h, List.count_append, count_cons_ascii hc (by decide)]
  · unfold classifyContain at h
    rw [if_neg hname] at h
    have hmake : ∀ v, (content (.contain name none v raw)).count c = 0 + v.count c := fun v => by
      simp [content]
    rw [count_sugared hc hmake h, Nat.zero_add]

theorem count_classifyFilter (h : classifyFilter field op rest raw = .ok (.term t)) :
    (content t).count c = rest.count c := by
  obtain ⟨comparable, hcomparable⟩ := isComparableValue_returns field (readQuoted rest).value
  unfold classifyFilter at h
  simp only [unquote_eq, hcomparable, bind, Except.bind, pure, Except.pure] at h
  split at h
  · cases h
  · split at h
    · cases h
    · next herror =>
      have hvalue := count_readQuoted hc herror
      -- Both null checks are ASCII.
      have hascii : ∀ v : Text, (∀ d ∈ v, d.toNat < 128) → (readQuoted rest).value = v →
          ([] : Text).count c = rest.count c := by
        intro v hv heq
        rw [← hvalue, heq, count_eq_zero_of_ascii hc hv, List.count_nil]
      split at h
      · next hnull =>
        obtain rfl := Classified.term.inj (Except.ok.inj h)
        simp only [Bool.and_eq_true, decide_eq_true_eq] at hnull
        exact hascii _ (by simp) hnull.2
      · split at h
        · next hstar =>
          obtain rfl := Classified.term.inj (Except.ok.inj h)
          simp only [Bool.and_eq_true, decide_eq_true_eq] at hstar
          exact hascii _ (by simp) hstar.2
        · (repeat' split at h) <;> cases h <;> exact hvalue

theorem count_matchOp {after : Text} (h : matchOp after = some op) :
    (after.drop op.len).count c = after.count c := by
  unfold matchOp at h
  split at h
  case h_11 => cases h
  all_goals
    cases h
    simp only [OpText.len, List.drop_succ_cons, List.drop_zero,
      count_cons_ascii hc (show ('>' : Char).toNat < 128 by decide),
      count_cons_ascii hc (show ('<' : Char).toNat < 128 by decide),
      count_cons_ascii hc (show ('=' : Char).toNat < 128 by decide),
      count_cons_ascii hc (show ('!' : Char).toNat < 128 by decide),
      count_cons_ascii hc (show (':' : Char).toNat < 128 by decide),
      count_cons_ascii hc (show ('~' : Char).toNat < 128 by decide),
      count_cons_ascii hc (show ('^' : Char).toNat < 128 by decide),
      count_cons_ascii hc (show ('$' : Char).toNat < 128 by decide)]

theorem count_matchFilter (h : matchFilter raw = some (field, op, rest)) : rest.count c = raw.count c := by
  cases raw with
  | nil => exact absurd h (by simp [matchFilter])
  | cons first tail =>
    simp only [matchFilter] at h
    split at h
    · next hfirst =>
      obtain ⟨op', hop, hparts⟩ := Option.map_eq_some_iff.mp h
      obtain ⟨-, hparts⟩ := Prod.mk.inj hparts
      cases hparts
      have hascii : ∀ d, isFieldChar d = true → d.toNat < 128 := fun d hd =>
        Nat.lt_of_le_of_lt (isFieldChar_bounds hd).2 (by decide)
      have htail : (tail.takeWhile isFieldChar).count c = 0 :=
        count_eq_zero_of_ascii hc fun d hd => hascii d (List.mem_takeWhile_imp hd)
      have hsplit := congrArg (List.count c)
        (List.takeWhile_append_dropWhile (p := isFieldChar) (l := tail))
      rw [List.count_append, htail, Nat.zero_add] at hsplit
      rw [count_matchOp hc hop, hsplit, count_cons_ascii hc (hascii _ (isFieldChar_of_isFieldStart hfirst))]
    · cases h

/-- **A term keeps every character that is not ASCII.** -/
theorem count_serverTerm (h : serverTerm raw = some t) : (content t).count c = raw.count c := by
  obtain ⟨classified, hraw⟩ := classifyToken_returns raw
  unfold serverTerm at h
  rw [hraw] at h
  cases classified with
  | error message => exact absurd h (by simp [termOf])
  | term t' =>
    cases h
    unfold classifyToken at hraw
    simp only [unquote_eq, bind, Except.bind, pure, Except.pure] at hraw
    split at hraw
    · split at hraw
      · cases hraw
      · next herror =>
        obtain rfl := Classified.term.inj (Except.ok.inj hraw)
        exact count_readQuoted hc herror
    · split at hraw
      · next hmatch =>
        rw [← count_matchFilter hc hmatch]
        split at hraw
        · have hmake : ∀ v, (content (.datatype v raw)).count c = 0 + v.count c := fun v =>
            (Nat.zero_add _).symm
          rw [count_sugared hc hmake hraw, Nat.zero_add]
        · split at hraw
          · exact count_classifyContain hc hraw
          · exact count_classifyFilter hc hraw
      · split at hraw
        · cases hraw
        · obtain rfl := Classified.term.inj (Except.ok.inj hraw)
          rfl

end Counting

/-! ## Spaces -/

theorem isWhitespace_eq (h : c ≠ nextLine ∧ c ≠ byteOrderMark) :
    isWhitespace c = QueryLanguage.isSpace c := by
  have hne : ∀ d : Char, c ≠ d → (c.toNat == d.toNat) = false := by
    intro d hd
    exact beq_false_of_ne fun heq => hd (Char.toNat_inj.mp heq)
  have hnext := hne nextLine h.1
  have hmark := hne byteOrderMark h.2
  unfold isWhitespace QueryLanguage.isSpace
  simp only [show nextLine.toNat = 0x85 from rfl, show byteOrderMark.toNat = 0xFEFF from rfl] at hnext hmark
  simp only [hnext, hmark, Bool.or_false]

theorem isSpace_lineTerminator (h : QueryLanguage.isLineTerminator c = true) :
    isWhitespace c = true ∧ QueryLanguage.isSpace c = true := by
  have hcode : c.toNat = 10 ∨ c.toNat = 13 ∨ c.toNat = 0x2028 ∨ c.toNat = 0x2029 := by
    unfold QueryLanguage.isLineTerminator at h
    simp only [Bool.or_eq_true, decide_eq_true_eq, beq_iff_eq] at h
    rcases h with ((rfl | rfl) | h) | h
    · exact Or.inl rfl
    · exact Or.inr (Or.inl rfl)
    · exact Or.inr (Or.inr (Or.inl h))
    · exact Or.inr (Or.inr (Or.inr h))
  unfold isWhitespace QueryLanguage.isSpace
  rcases hcode with h | h | h | h <;> rw [h] <;> decide

theorem quote_of_spanning {isSpace : Char → Bool} {raw : Text} (hquoted : Word.Quoted isSpace raw)
    (hspace : ∀ c, QueryLanguage.isLineTerminator c = true → isSpace c = true) (h : Spanning raw) :
    '"' ∈ raw := by
  by_contra hnone
  refine h.2.2 fun c hc => ?_
  by_contra hterminator
  exact hnone (hquoted c hc (hspace c (Bool.eq_true_of_not_eq_false hterminator)))

theorem serverTerm_of_browserTerm {raw : Text} (hquoted : Word.Quoted QueryLanguage.isSpace raw)
    {t : QueryTerm} (h : browserTerm raw = some t) : serverTerm raw = some t := by
  by_cases hspanning : Spanning raw
  · have hquote := quote_of_spanning hquoted (fun c hc => (isSpace_lineTerminator hc).2) hspanning
    unfold browserTerm at h
    rw [classifyToken_spanning hspanning hquote] at h
    exact absurd h (by simp [termOf])
  · unfold browserTerm at h
    unfold serverTerm
    rw [classifyToken_agrees hspanning]
    exact h

/-- A character in what a parser takes and reports. -/
def countIn (c : Char) (terms : List QueryTerm) (words : List Word) : Nat :=
  (terms.map fun t => (content t).count c).sum + (words.map fun w => w.text.count c).sum

theorem countIn_verdicts {classify : Text → Option QueryTerm} {take : Taken → QueryTerm → Option Taken}
    (hcount : ∀ tok ∈ toks, ∀ t, classify tok.text = some t → (content t).count c = tok.text.count c) :
    ∀ t : Taken, countIn c (taken (verdicts classify take t toks))
      (reported (verdicts classify take t toks)) = (toks.map Word.text).flatten.count c := by
  induction toks with
  | nil =>
    intro t
    rfl
  | cons tok toks ih =>
    intro t
    have hih := ih fun w hw => hcount w (List.mem_cons_of_mem _ hw)
    rw [List.map_cons, List.flatten_cons, List.count_append]
    unfold verdicts
    split
    · next term t' heq =>
      obtain ⟨term', hterm, heq⟩ := Option.bind_eq_some_iff.mp heq
      obtain ⟨_, -, heq⟩ := Option.map_eq_some_iff.mp heq
      obtain ⟨rfl, -⟩ := Prod.mk.inj heq
      rw [← hih t', ← hcount tok List.mem_cons_self _ hterm]
      simp only [countIn, taken, reported, List.filterMap_cons, List.map_cons, List.sum_cons]
      rw [List.filter_cons_of_neg (by simp)]
      omega
    · rw [← hih t]
      simp only [countIn, taken, reported, List.filterMap_cons]
      rw [List.filter_cons_of_pos rfl]
      simp only [List.map_cons, List.sum_cons]
      omega

theorem countIn_server (hc : 128 ≤ c.toNat) (input : Text) :
    countIn c (taken (serverVerdicts input)) (reported (serverVerdicts input)) =
      (Word.keep isWhitespace false input).count c := by
  rw [← @Word.flatten_words isWhitespace (fun _ => 1) input]
  exact countIn_verdicts (fun tok _ t ht => count_serverTerm hc ht) _

theorem countIn_browser (hc : 128 ≤ c.toNat) (input : Text) :
    countIn c (taken (browserVerdicts input)) (reported (browserVerdicts input)) =
      (Word.keep QueryLanguage.isSpace false input).count c := by
  rw [← @Word.flatten_words QueryLanguage.isSpace QueryLanguage.utf16Size input]
  refine countIn_verdicts (fun tok htok t ht => ?_) _
  exact count_serverTerm hc (serverTerm_of_browserTerm (Word.quoted_words input tok htok) ht)

theorem countIn_congr {terms terms' : List QueryTerm} {words words' : List Word}
    (hterms : terms.map meaning = terms'.map meaning) (hwords : words.map Word.text = words'.map Word.text) :
    countIn c terms words = countIn c terms' words' := by
  have hcontent : ∀ ts : List QueryTerm, (ts.map fun t => (content t).count c) =
      (ts.map meaning).map fun t => (content t).count c := by
    intro ts
    rw [List.map_map]
    exact List.map_congr_left fun t _ => by rw [Function.comp_apply, content_meaning]
  have htext : ∀ ws : List Word, (ws.map fun w => w.text.count c) =
      (ws.map Word.text).map fun v => v.count c := by
    intro ws
    rw [List.map_map]
    rfl
  unfold countIn
  rw [hcontent, hcontent terms', htext, htext words', hterms, hwords]

/-- **Parsers that agree find no space that only one of them knows.** -/
theorem spaces_of_agree (h : Agree input) :
    ∀ c ∈ Word.unquoted false input, c ≠ nextLine ∧ c ≠ byteOrderMark := by
  obtain ⟨hterms, hreported⟩ := (agree_iff input).mp h
  have htexts : (reported (serverVerdicts input)).map Word.text =
      (reported (browserVerdicts input)).map Word.text := by
    rw [← hreported, List.map_map]
    rfl
  have hkeep : ∀ c : Char, 128 ≤ c.toNat → (Word.keep isWhitespace false input).count c =
      (Word.keep QueryLanguage.isSpace false input).count c := by
    intro c hc
    rw [← countIn_server hc, ← countIn_browser hc]
    exact countIn_congr hterms htexts
  -- Each of the two is a space of one parser alone, so what that one drops the other keeps.
  have hnone : ∀ c : Char, c ≠ '"' → 128 ≤ c.toNat → isWhitespace c ≠ QueryLanguage.isSpace c →
      c ∉ Word.unquoted false input := by
    intro c hquote hc hne
    have hserver := @Word.count_keep isWhitespace c hquote (by decide) input false
    have hbrowser := @Word.count_keep QueryLanguage.isSpace c hquote (by decide) input false
    rw [hkeep c hc] at hserver
    rw [← List.count_eq_zero]
    cases hw : isWhitespace c <;> cases hs : QueryLanguage.isSpace c
    · exact absurd (hw.trans hs.symm) hne
    · simp only [hw, hs, if_true, Bool.false_eq_true, if_false] at hserver hbrowser
      omega
    · simp only [hw, hs, if_true, Bool.false_eq_true, if_false] at hserver hbrowser
      omega
    · exact absurd (hw.trans hs.symm) hne
  intro c hc
  constructor
  · rintro rfl
    exact hnone nextLine (by decide) (by decide) (by decide) hc
  · rintro rfl
    exact hnone byteOrderMark (by decide) (by decide) (by decide) hc

/-! ## The theorem -/

theorem tokenize_remeasure (h : ∀ c ∈ Word.unquoted false input, c ≠ nextLine ∧ c ≠ byteOrderMark) :
    QueryLanguage.tokenize input =
      (QueryDsl.tokenize input).map (Word.remeasure QueryLanguage.utf16Size input) := by
  unfold QueryLanguage.tokenize QueryDsl.tokenize
  rw [Word.words_remeasure]
  exact (Word.words_congr (by decide) fun c hc => isWhitespace_eq (h c hc)).symm

theorem verdicts_map (classify : Text → Option QueryTerm) (take : Taken → QueryTerm → Option Taken)
    (f : Word → Word) (hf : ∀ w, (f w).text = w.text) (toks : List Word) : ∀ t : Taken,
      verdicts classify take t (toks.map f) = (verdicts classify take t toks).map fun v => (f v.1, v.2) := by
  induction toks with
  | nil =>
    intro t
    rfl
  | cons tok toks ih =>
    intro t
    rw [List.map_cons, verdicts_cons, verdicts_cons, hf, ih, List.map_cons]

theorem taken_map (f : Word → Word) (vs : List (Word × Option QueryTerm)) :
    taken (vs.map fun v => (f v.1, v.2)) = taken vs := by
  unfold taken
  rw [List.filterMap_map]
  rfl

theorem reported_map (f : Word → Word) (vs : List (Word × Option QueryTerm)) :
    reported (vs.map fun v => (f v.1, v.2)) = (reported vs).map f := by
  unfold reported
  rw [List.filter_map, List.map_map, List.map_map]
  rfl

theorem flags_map (f : Word → Word) (vs : List (Word × Option QueryTerm)) :
    flags (vs.map fun v => (f v.1, v.2)) = flags vs := by
  unfold flags
  rw [List.map_map]
  rfl

theorem verdicts_fst (classify : Text → Option QueryTerm) (take : Taken → QueryTerm → Option Taken)
    (toks : List Word) : ∀ t : Taken, (verdicts classify take t toks).map Prod.fst = toks := by
  induction toks with
  | nil =>
    intro t
    rfl
  | cons tok toks ih =>
    intro t
    rw [verdicts_cons, List.map_cons, ih]

def inUtf16 (input : Text) (vs : List (Word × Option QueryTerm)) : List (Word × Option QueryTerm) :=
  vs.map fun v => (v.1.remeasure QueryLanguage.utf16Size input, v.2)

theorem verdicts_inUtf16 (classify : Text → Option QueryTerm)
    (take : Taken → QueryTerm → Option Taken) (input : Text) (toks : List Word) (t : Taken) :
    verdicts classify take t (toks.map (Word.remeasure QueryLanguage.utf16Size input)) =
      inUtf16 input (verdicts classify take t toks) :=
  verdicts_map classify take (Word.remeasure QueryLanguage.utf16Size input) (fun _ => rfl) toks t

theorem browserVerdicts_eq (h : ∀ c ∈ Word.unquoted false input, c ≠ nextLine ∧ c ≠ byteOrderMark) :
    browserVerdicts input =
      inUtf16 input (verdicts browserTerm Taken.browser .empty (QueryDsl.tokenize input)) := by
  rw [← verdicts_inUtf16, ← tokenize_remeasure h]
  rfl

theorem utf16Size_pos (c : Char) : 0 < QueryLanguage.utf16Size c := by
  unfold QueryLanguage.utf16Size
  split <;> decide

/-- **The parsers agree exactly on the inputs where every token means the same to both.** -/
theorem parsers_agree_iff (input : Text) : Agree input ↔ Common input := by
  have hquote : ∀ tok ∈ QueryDsl.tokenize input, Spanning tok.text → '"' ∈ tok.text :=
    fun tok htok => quote_of_spanning (Word.quoted_words input tok htok)
      fun c hc => (isSpace_lineTerminator hc).1
  obtain ⟨hflags, hverdicts⟩ := flags_eq_iff hquote related_empty
  have hall : AllAgree [] (QueryDsl.tokenize input) ↔ ∀ before tok after,
      QueryDsl.tokenize input = before ++ tok :: after →
        TokenAgrees (before.filterMap fun w => serverTerm w.text) tok.text := by
    simpa using @allAgree_iff _ []
  constructor
  · intro hagree
    have hspaces := spaces_of_agree hagree
    refine ⟨hspaces, hall.mp (hflags.mp ?_)⟩
    obtain ⟨-, hreported⟩ := (agree_iff input).mp hagree
    rw [browserVerdicts_eq hspaces, ← reported_map] at hreported
    have hsame : flags (inUtf16 input (serverVerdicts input)) = flags (inUtf16 input
        (verdicts browserTerm Taken.browser .empty (QueryDsl.tokenize input))) := by
      refine flags_eq_of_reported_eq ?_ ?_ hreported
      · rw [serverVerdicts, ← verdicts_inUtf16, ← verdicts_inUtf16, verdicts_fst, verdicts_fst]
      · show (List.map Prod.fst (inUtf16 input (serverVerdicts input))).Pairwise _
        rw [serverVerdicts, ← verdicts_inUtf16, verdicts_fst, ← tokenize_remeasure hspaces]
        exact Word.starts_words utf16Size_pos input
    exact (flags_map _ _).symm.trans (hsame.trans (flags_map _ _))
  · rintro ⟨hspaces, htokens⟩
    rw [agree_iff, browserVerdicts_eq hspaces, inUtf16, taken_map, reported_map, serverVerdicts,
      hverdicts (hall.mpr htokens)]
    exact ⟨rfl, rfl⟩

/-- A key that every object has: the browser takes the second term for a duplicate. -/
theorem parsers_disagree : ¬ Agree "attr:x=1 attr:constructor=2".toList := by
  intro h
  have hlengths := congrArg List.length ((agree_iff _).mp h).1
  rw [List.length_map, List.length_map] at hlengths
  exact absurd hlengths (by decide)

end QueryParsers

end Mekhan

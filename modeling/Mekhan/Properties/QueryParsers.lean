import Mekhan.Properties.QueryReading

/-!
# The two parsers of a query

Both parsers decide on a term by merging it into an object: a term that does not merge is a duplicate.
Here the objects are abstracted to what they know about earlier terms.
-/

namespace Mekhan

namespace QueryParsers

open Infra QueryDsl
open QueryLanguage (JsValue)

/-! ## What a parser remembers -/

/-- The slots that can be taken once and are. -/
structure Taken where
  format : Bool
  datatype : Bool
  attrs : List Text

inductive Slot where
  | format
  | datatype
  | attr (key : Text)

def slotOf : QueryTerm → Option Slot
  | .contain .format _ _ _ => some .format
  | .contain .attr key _ _ => some (.attr (key.getD []))
  | .datatype .. => some .datatype
  | _ => none

def Taken.Has (t : Taken) : Slot → Prop
  | .format => t.format = true
  | .datatype => t.datatype = true
  | .attr key => key ∈ t.attrs

instance (t : Taken) : (slot : Slot) → Decidable (t.Has slot)
  | .format => inferInstanceAs (Decidable (_ = _))
  | .datatype => inferInstanceAs (Decidable (_ = _))
  | .attr _ => inferInstanceAs (Decidable (_ ∈ _))

def Taken.add (t : Taken) : Slot → Taken
  | .format => { t with format := true }
  | .datatype => { t with datatype := true }
  | .attr key => { t with attrs := t.attrs ++ [key] }

theorem Taken.has_add {t : Taken} {slot slot' : Slot} :
    (t.add slot).Has slot' ↔ t.Has slot' ∨ slot = slot' := by
  cases slot with
  | attr key =>
    cases slot' with
    | attr key' =>
      show key' ∈ t.attrs ++ [key] ↔ key' ∈ t.attrs ∨ _
      rw [List.mem_append, List.mem_singleton, Slot.attr.injEq, eq_comm (a := key)]
    | _ => simp [add, Has]
  | _ => cases slot' <;> simp [add, Has]

def Taken.server (t : Taken) (term : QueryTerm) : Option Taken :=
  match slotOf term with
  | none => some t
  | some slot => if t.Has slot then none else some (t.add slot)

/-- The browser also sees what every object inherits, once there are attributes. -/
def Taken.browser (t : Taken) (term : QueryTerm) : Option Taken :=
  match slotOf term with
  | none => some t
  | some (.attr key) =>
    if t.attrs = [] then some { t with attrs := [key] }
    else if key ∈ t.attrs ∨ key ∈ JsValue.methodNames then none
    else if key = JsValue.protoKey then some t
    else some { t with attrs := t.attrs ++ [key] }
  | some slot => if t.Has slot then none else some (t.add slot)

def Taken.empty : Taken := ⟨false, false, []⟩

/-! ## The containment object -/

def listKeys : List Text := ["column_names".toList, "dimensions".toList, "columns".toList]

/-- What is under the keys of a containment object, by what counts as a text, a list and an attribute. -/
structure Shape {V : Type} (isText isList : V → Prop) (isAttrs : V → List Text → Prop)
    (lookup : Text → Option V) (t : Taken) : Prop where
  format : if t.format then ∃ v, lookup "format".toList = some v ∧ isText v
    else lookup "format".toList = none
  lists : ∀ k ∈ listKeys, ∀ v, lookup k = some v → isList v
  attrs : (lookup "attributes".toList = none ∧ t.attrs = []) ∨
    ∃ v, lookup "attributes".toList = some v ∧ t.attrs ≠ [] ∧ isAttrs v t.attrs

namespace Shape

variable {V : Type} {isText isList : V → Prop} {isAttrs : V → List Text → Prop}
  {lookup lookup' : Text → Option V} {t : Taken}

theorem setFormat (h : Shape isText isList isAttrs lookup t) {v : V} (hv : isText v)
    (hset : ∀ k, lookup' k = if k = "format".toList then some v else lookup k) :
    Shape isText isList isAttrs lookup' { t with format := true } := by
  constructor
  · exact ⟨v, by rw [hset, if_pos rfl], hv⟩
  · intro k hk w hw
    have hne : k ≠ "format".toList := by
      rintro rfl
      exact absurd hk (by decide)
    rw [hset, if_neg hne] at hw
    exact h.lists k hk w hw
  · rw [hset, if_neg (by decide)]
    exact h.attrs

theorem setList (h : Shape isText isList isAttrs lookup t) {key : Text} (hkey : key ∈ listKeys) {v : V}
    (hv : isList v) (hset : ∀ k, lookup' k = if k = key then some v else lookup k) :
    Shape isText isList isAttrs lookup' t := by
  have hne : "format".toList ≠ key ∧ "attributes".toList ≠ key := by
    constructor
    · rintro rfl
      exact absurd hkey (by decide)
    · rintro rfl
      exact absurd hkey (by decide)
  constructor
  · rw [hset, if_neg hne.1]
    exact h.format
  · intro k hk w hw
    rw [hset] at hw
    split at hw
    · exact Option.some.inj hw ▸ hv
    · exact h.lists k hk w hw
  · rw [hset, if_neg hne.2]
    exact h.attrs

theorem setAttrs (h : Shape isText isList isAttrs lookup t) {v : V} {attrs : List Text}
    (hne : attrs ≠ []) (hv : isAttrs v attrs)
    (hset : ∀ k, lookup' k = if k = "attributes".toList then some v else lookup k) :
    Shape isText isList isAttrs lookup' { t with attrs := attrs } := by
  have hformat : lookup' "format".toList = lookup "format".toList := by
    rw [hset, if_neg (by decide)]
  constructor
  · rw [hformat]
    exact h.format
  · intro k hk w hw
    have hne : k ≠ "attributes".toList := by
      rintro rfl
      exact absurd hk (by decide)
    rw [hset, if_neg hne] at hw
    exact h.lists k hk w hw
  · exact Or.inr ⟨v, by rw [hset, if_pos rfl], hne, hv⟩

theorem setDatatype (h : Shape isText isList isAttrs lookup t) :
    Shape isText isList isAttrs lookup { t with datatype := true } :=
  ⟨h.format, h.lists, h.attrs⟩

end Shape

theorem Taken.datatype_server {t t' : Taken} {name : ContainName} {key : Option Text}
    {value raw : Text} (h : t.server (.contain name key value raw) = some t') : t'.datatype = t.datatype := by
  cases name <;> simp only [Taken.server, slotOf, Taken.add] at h
  case format | attr =>
    split at h
    · cases h
    · rw [← Option.some.inj h]
  all_goals rw [← Option.some.inj h]

theorem Taken.datatype_browser {t t' : Taken} {name : ContainName} {key : Option Text}
    {value raw : Text} (h : t.browser (.contain name key value raw) = some t') :
    t'.datatype = t.datatype := by
  cases name <;> simp only [Taken.browser, slotOf, Taken.add] at h
  case format =>
    split at h
    · cases h
    · rw [← Option.some.inj h]
  case attr =>
    split at h
    · rw [← Option.some.inj h]
    · split at h
      · cases h
      · split at h <;> rw [← Option.some.inj h]
  all_goals rw [← Option.some.inj h]

/-! ## On the server -/

section Server

def serverAttr (value : Text) : Json := .obj [("type", .str "String"), ("value", text value)]

/-- The service's object of attributes, by the names in it. -/
def IsServerAttrs (v : Json) (attrs : List Text) : Prop :=
  ∃ am, v = .obj am ∧ ∀ k, (k ∈ attrs ∧ ∃ x, am.lookup (String.ofList k) = some (serverAttr x)) ∨
    (k ∉ attrs ∧ am.lookup (String.ofList k) = none)

/-- What the containment object of the server says about the terms so far. -/
def ServerRep (acc : Json) (t : Taken) : Prop :=
  ∃ es, acc = .obj es ∧ Shape (fun v => ∃ x, v = .str x) (fun v => ∃ xs, v = .arr xs) IsServerAttrs
    (fun k => es.lookup (String.ofList k)) t

theorem serverRep_empty : ServerRep (.obj []) .empty :=
  ⟨[], rfl, rfl, fun _ _ _ h => absurd h (by simp), Or.inl ⟨rfl, rfl⟩⟩

theorem lookup_upsert (es : List (String × Json)) (k : String) (v : Json) (k' : String) :
    (es.filter (fun e => e.1 ≠ k) ++ [(k, v)]).lookup k' =
      if k' = k then some v else es.lookup k' := by
  induction es with
  | nil =>
    by_cases hk : k' = k
    · simp [hk]
    · simp [List.lookup_cons, beq_false_of_ne hk, hk]
  | cons e es ih =>
    obtain ⟨key, old⟩ := e
    by_cases hkey : key = k
    · subst hkey
      rw [List.filter_cons_of_neg (by simp), ih]
      by_cases hk : k' = key
      · rw [if_pos hk, if_pos hk]
      · rw [if_neg hk, if_neg hk, List.lookup_cons, beq_false_of_ne hk]
    · rw [List.filter_cons_of_pos (by simpa using hkey), List.cons_append, List.lookup_cons, ih,
        List.lookup_cons]
      by_cases hk : k' = key
      · have hne : k' ≠ k := hk ▸ hkey
        simp [hk, hkey]
      · rw [beq_false_of_ne hk]

theorem tryMerge_single (es : List (String × Json)) (k : String) (v : Json) :
    tryMerge (.obj es) (.obj [(k, v)]) = (tryMerge ((es.lookup k).getD .null) v).map fun m =>
      .obj (es.filter (fun e => e.1 ≠ k) ++ [(k, m)]) := by
  show ((tryMerge ((es.lookup k).getD .null) v).bind fun m => some _).map Json.obj = _
  cases tryMerge ((es.lookup k).getD .null) v <;> rfl

theorem tryMerge_null (b : Json) : tryMerge .null b = some b := by
  cases b <;> rfl

theorem lookup_upsert_ofList (es : List (String × Json)) (key : Text) (v : Json) (k : Text) :
    (es.filter (fun e => e.1 ≠ String.ofList key) ++ [(String.ofList key, v)]).lookup
        (String.ofList k) =
      if k = key then some v else es.lookup (String.ofList k) := by
  rw [lookup_upsert]
  by_cases hk : k = key
  · rw [if_pos hk, if_pos (by rw [hk])]
  · rw [if_neg hk, if_neg (fun h => hk (String.ofList_injective h))]

theorem serverRep_list {acc : Json} {t : Taken} (h : ServerRep acc t) {key : Text}
    (hkey : key ∈ listKeys) (items : List Json) :
    ∃ acc', tryMerge acc (.obj [(String.ofList key, .arr items)]) = some acc' ∧ ServerRep acc' t := by
  obtain ⟨es, rfl, hshape⟩ := h
  have hmerged : ∃ xs, tryMerge ((es.lookup (String.ofList key)).getD .null) (.arr items) =
      some (.arr xs) := by
    cases hlookup : es.lookup (String.ofList key) with
    | none => exact ⟨items, tryMerge_null _⟩
    | some v =>
      obtain ⟨xs, rfl⟩ := hshape.lists key hkey v hlookup
      exact ⟨xs ++ items, rfl⟩
  obtain ⟨xs, hxs⟩ := hmerged
  refine ⟨_, by rw [tryMerge_single, hxs, Option.map_some], _, rfl, ?_⟩
  exact hshape.setList hkey ⟨xs, rfl⟩ fun k => lookup_upsert_ofList es key _ k

theorem tryMerge_serverAttr (x y : Text) : tryMerge (serverAttr x) (serverAttr y) = none := rfl

theorem isServerAttrs_add {am : List (String × Json)} {attrs : List Text}
    (h : IsServerAttrs (.obj am) attrs) {key : Text} (value : Text) :
    IsServerAttrs (.obj (am.filter (fun e => e.1 ≠ String.ofList key) ++
      [(String.ofList key, serverAttr value)])) (attrs ++ [key]) := by
  obtain ⟨_, heq, ham⟩ := h
  cases heq
  refine ⟨_, rfl, fun k => ?_⟩
  rw [lookup_upsert_ofList]
  by_cases hk : k = key
  · exact Or.inl ⟨by simp [hk], value, by rw [if_pos hk]⟩
  · rw [if_neg hk]
    rcases ham k with ⟨hmem, hx⟩ | ⟨hmem, hnone⟩
    · exact Or.inl ⟨List.mem_append_left _ hmem, hx⟩
    · exact Or.inr ⟨by simp [hmem, hk], hnone⟩

theorem serverAttrs_merge {v : Json} {attrs : List Text} (h : IsServerAttrs v attrs) (key value : Text) :
    if key ∈ attrs then tryMerge v (.obj [(String.ofList key, serverAttr value)]) = none
    else ∃ v', tryMerge v (.obj [(String.ofList key, serverAttr value)]) = some v' ∧
      IsServerAttrs v' (attrs ++ [key]) := by
  obtain ⟨am, rfl, ham⟩ := h
  rw [tryMerge_single]
  rcases ham key with ⟨hmem, x, hx⟩ | ⟨hmem, hnone⟩
  · rw [if_pos hmem, hx, Option.getD_some, tryMerge_serverAttr]
    rfl
  · rw [if_neg hmem, hnone, Option.getD_none, tryMerge_null, Option.map_some]
    exact ⟨_, rfl, isServerAttrs_add ⟨am, rfl, ham⟩ value⟩

theorem isServerAttrs_single (key value : Text) :
    IsServerAttrs (.obj [(String.ofList key, serverAttr value)]) [key] :=
  @isServerAttrs_add [] [] ⟨[], rfl, fun _ => Or.inr ⟨List.not_mem_nil, rfl⟩⟩ key value

theorem server_attr {acc : Json} {t : Taken} (h : ServerRep acc t) (key value : Text) :
    if key ∈ t.attrs then tryMerge acc (containFragment .attr (some key) value) = none
    else ∃ acc', tryMerge acc (containFragment .attr (some key) value) = some acc' ∧
      ServerRep acc' { t with attrs := t.attrs ++ [key] } := by
  obtain ⟨es, rfl, hshape⟩ := h
  have hmerge : tryMerge (.obj es) (containFragment .attr (some key) value) =
      (tryMerge ((es.lookup (String.ofList "attributes".toList)).getD .null)
        (.obj [(String.ofList key, serverAttr value)])).map fun m =>
          .obj (es.filter (fun e => e.1 ≠ String.ofList "attributes".toList) ++
            [(String.ofList "attributes".toList, m)]) := tryMerge_single es _ _
  have haccept : ∀ {v' : Json}, IsServerAttrs v' (t.attrs ++ [key]) →
      ServerRep (.obj (es.filter (fun e => e.1 ≠ String.ofList "attributes".toList) ++
        [(String.ofList "attributes".toList, v')])) { t with attrs := t.attrs ++ [key] } :=
    fun hv' => ⟨_, rfl, hshape.setAttrs (by simp) hv' fun k => lookup_upsert_ofList es _ _ k⟩
  rw [hmerge]
  rcases hshape.attrs with ⟨hnone, hattrs⟩ | ⟨v, hv, -, hisAttrs⟩
  · rw [if_neg (by simp [hattrs]), hnone, Option.getD_none, tryMerge_null, Option.map_some]
    refine ⟨_, rfl, haccept ?_⟩
    rw [hattrs]
    exact isServerAttrs_single key value
  · have hattr := serverAttrs_merge hisAttrs key value
    rw [hv, Option.getD_some]
    split
    · next hmem =>
      rw [if_pos hmem] at hattr
      rw [hattr]
      rfl
    · next hmem =>
      rw [if_neg hmem] at hattr
      obtain ⟨v', hv', hisAttrs'⟩ := hattr
      exact ⟨_, by rw [hv', Option.map_some], haccept hisAttrs'⟩

theorem tryMerge_text (x : String) (value : Text) : tryMerge (.str x) (text value) = none := rfl

theorem server_format {acc : Json} {t : Taken} (h : ServerRep acc t) (value : Text) :
    if t.format then tryMerge acc (containFragment .format none value) = none
    else ∃ acc', tryMerge acc (containFragment .format none value) = some acc' ∧
      ServerRep acc' { t with format := true } := by
  obtain ⟨es, rfl, hshape⟩ := h
  have hmerge : tryMerge (.obj es) (containFragment .format none value) =
      (tryMerge ((es.lookup (String.ofList "format".toList)).getD .null) (text value)).map fun m =>
        .obj (es.filter (fun e => e.1 ≠ String.ofList "format".toList) ++
          [(String.ofList "format".toList, m)]) := tryMerge_single es _ _
  have hformat := hshape.format
  rw [hmerge]
  split at hformat
  · next ht =>
    obtain ⟨v, hv, x, rfl⟩ := hformat
    rw [if_pos ht, hv, Option.getD_some, tryMerge_text]
    rfl
  · next ht =>
    rw [if_neg ht, hformat, Option.getD_none, tryMerge_null, Option.map_some]
    exact ⟨_, rfl, _, rfl, hshape.setFormat ⟨_, rfl⟩ fun k => lookup_upsert_ofList es _ _ k⟩

/-- **The containment object of the server knows exactly the terms taken so far.** -/
theorem server_merge {acc : Json} {t : Taken} (h : ServerRep acc t) (name : ContainName)
    (key : Option Text) (value raw : Text) :
    match t.server (.contain name key value raw) with
    | some t' => ∃ acc', tryMerge acc (containFragment name key value) = some acc' ∧ ServerRep acc' t'
    | none => tryMerge acc (containFragment name key value) = none := by
  cases name with
  | format =>
    have hformat := server_format h value
    have htake : t.server (.contain .format key value raw) =
      if t.Has .format then none else some (t.add .format) := rfl
    by_cases ht : t.Has .format
    · rw [if_pos (show t.format = true from ht)] at hformat
      rw [htake, if_pos ht]
      exact hformat
    · rw [if_neg (show ¬ t.format = true from ht)] at hformat
      rw [htake, if_neg ht]
      exact hformat
  | col => exact serverRep_list h (by decide) _
  | dim => exact serverRep_list h (by decide) _
  | pii => exact serverRep_list h (by decide) _
  | attr =>
    have hattr := server_attr h (key.getD []) value
    have htake : t.server (.contain .attr key value raw) =
      if t.Has (.attr (key.getD [])) then none else some (t.add (.attr (key.getD []))) := rfl
    by_cases hmem : t.Has (.attr (key.getD []))
    · rw [if_pos (show key.getD [] ∈ t.attrs from hmem)] at hattr
      rw [htake, if_pos hmem]
      exact hattr
    · rw [if_neg (show key.getD [] ∉ t.attrs from hmem)] at hattr
      rw [htake, if_neg hmem]
      exact hattr

end Server

/-! ## In the browser -/

section Browser

open QueryLanguage (orEmpty)

def browserAttr (value : Text) : JsValue :=
  .object [("type".toList, .string "String".toList), ("value".toList, .string value)] none

/-- The browser's object of the same attributes. -/
def IsBrowserAttrs (v : JsValue) (attrs : List Text) : Prop :=
  ∃ own proto, v = .object own proto ∧ ∀ k, (k ∈ attrs ∧ ∃ x, own.lookup k = some (browserAttr x)) ∨
    (k ∉ attrs ∧ own.lookup k = none)

/-- What the containment object of the browser says about the terms so far. -/
def BrowserRep (acc : JsValue) (t : Taken) : Prop :=
  ∃ own proto, orEmpty acc = .object own proto ∧
    Shape (fun v => ∃ x, v = .string x) (fun v => ∃ xs, v = .array xs) IsBrowserAttrs
      (fun k => own.lookup k) t

theorem browserRep_empty : BrowserRep .undefined .empty :=
  ⟨[], none, rfl, rfl, fun _ _ _ h => absurd h (by simp), Or.inl ⟨rfl, rfl⟩⟩

theorem merge_undefined (b : JsValue) : QueryLanguage.tryMerge .undefined b = some b := by
  cases b <;> rfl

theorem merge_single (own : List (Text × JsValue)) (proto : Option JsValue) (k : Text) (v : JsValue) :
    QueryLanguage.tryMerge (.object own proto) (.object [(k, v)] none) =
      (QueryLanguage.tryMerge ((own.lookup k).getD (JsValue.inherited k)) v).map fun m =>
        (JsValue.object own none).set k m := by
  show (QueryLanguage.tryMerge ((own.lookup k).getD (JsValue.inherited k)) v).bind (fun m => some _) = _
  cases QueryLanguage.tryMerge ((own.lookup k).getD (JsValue.inherited k)) v <;> rfl

theorem lookup_replace (own : List (Text × JsValue)) (key : Text) (v : JsValue) (k : Text) :
    (own.map fun e => if e.1 = key then (key, v) else e).lookup k =
      if k = key then (own.lookup k).map fun _ => v else own.lookup k := by
  induction own with
  | nil => simp
  | cons e own ih =>
    obtain ⟨key', old⟩ := e
    rw [List.map_cons]
    by_cases hkey : key' = key
    · subst hkey
      by_cases hk : k = key'
      · simp [hk]
      · simp [List.lookup_cons, beq_false_of_ne hk, ih, hk]
    · by_cases hk : k = key'
      · simp [hk, hkey]
      · simp [hkey, List.lookup_cons, beq_false_of_ne hk, ih]

theorem lookup_append_single (own : List (Text × JsValue)) (key : Text) (v : JsValue)
    (hnone : own.lookup key = none) (k : Text) :
    (own ++ [(key, v)]).lookup k = if k = key then some v else own.lookup k := by
  rw [List.lookup_append]
  by_cases hk : k = key
  · subst hk
    simp [hnone]
  · simp [List.lookup_cons, beq_false_of_ne hk, hk]

theorem set_property {own : List (Text × JsValue)} {key : Text} (v : JsValue)
    (hkey : (own.lookup key).isSome = true ∨ key ≠ JsValue.protoKey) :
    ∃ own', (JsValue.object own none).set key v = .object own' none ∧
      ∀ k, own'.lookup k = if k = key then some v else own.lookup k := by
  by_cases hown : (own.lookup key).isSome = true
  · refine ⟨_, by unfold JsValue.set; exact if_pos hown, fun k => ?_⟩
    rw [lookup_replace]
    by_cases hk : k = key
    · obtain ⟨old, hold⟩ := Option.isSome_iff_exists.mp hown
      simp [hk, hold]
    · simp [hk]
  · have hnone : own.lookup key = none := Option.not_isSome_iff_eq_none.mp hown
    have hset : (JsValue.object own none).set key v = .object (own ++ [(key, v)]) none := by
      unfold JsValue.set
      exact (if_neg hown).trans (if_neg (hkey.resolve_left hown))
    refine ⟨_, hset, fun k => ?_⟩
    exact lookup_append_single own key v hnone k

theorem browserRep_set {own : List (Text × JsValue)} {t' : Taken} {key : Text} {v m : JsValue}
    (hkey : key ≠ JsValue.protoKey)
    (hmerge : QueryLanguage.tryMerge ((own.lookup key).getD (JsValue.inherited key)) v = some m)
    (hshape : ∀ lookup : Text → Option JsValue, (∀ k, lookup k = if k = key then some m else own.lookup k) →
        Shape (fun v => ∃ x, v = .string x) (fun v => ∃ xs, v = .array xs) IsBrowserAttrs lookup t')
    {acc : JsValue} {proto : Option JsValue} (hacc : orEmpty acc = .object own proto) :
    ∃ acc', QueryLanguage.tryMerge (orEmpty acc) (.object [(key, v)] none) = some acc' ∧
      BrowserRep acc' t' := by
  obtain ⟨own', hset, hlookup⟩ := @set_property own key m (Or.inr hkey)
  refine ⟨.object own' none, ?_, own', none, rfl, hshape _ hlookup⟩
  rw [hacc, merge_single, hmerge, Option.map_some, hset]

theorem inherited_undefined {key : Text} (hproto : key ≠ JsValue.protoKey)
    (hmethod : key ∉ JsValue.methodNames) : JsValue.inherited key = .undefined := by
  rw [JsValue.inherited, if_neg hproto, if_neg hmethod]

theorem browserRep_list {acc : JsValue} {t : Taken} (h : BrowserRep acc t) {key : Text}
    (hkey : key ∈ listKeys) (items : List JsValue) :
    ∃ acc', QueryLanguage.tryMerge (orEmpty acc) (.object [(key, .array items)] none) = some acc' ∧
      BrowserRep acc' t := by
  obtain ⟨own, proto, hacc, hshape⟩ := h
  have hplain : key ≠ JsValue.protoKey ∧ key ∉ JsValue.methodNames := by
    revert hkey
    revert key
    decide
  have hmerged : ∃ xs, QueryLanguage.tryMerge ((own.lookup key).getD (JsValue.inherited key))
      (.array items) = some (.array xs) := by
    cases hlookup : own.lookup key with
    | none =>
      rw [inherited_undefined hplain.1 hplain.2]
      exact ⟨items, merge_undefined _⟩
    | some v =>
      obtain ⟨xs, rfl⟩ := hshape.lists key hkey v hlookup
      exact ⟨xs ++ items, rfl⟩
  obtain ⟨xs, hxs⟩ := hmerged
  exact browserRep_set hplain.1 hxs (fun _ hset => hshape.setList hkey ⟨xs, rfl⟩ hset) hacc

theorem merge_browserAttr (x y : Text) : QueryLanguage.tryMerge (browserAttr x) (browserAttr y) = none := rfl

theorem merge_objectPrototype (y : Text) :
    QueryLanguage.tryMerge .objectPrototype (browserAttr y) = some (browserAttr y) := rfl

theorem browserAttrs_merge {v : JsValue} {attrs : List Text} (h : IsBrowserAttrs v attrs) (key value : Text) :
    if key ∈ attrs ∨ key ∈ JsValue.methodNames then
      QueryLanguage.tryMerge v (.object [(key, browserAttr value)] none) = none
    else ∃ v', QueryLanguage.tryMerge v (.object [(key, browserAttr value)] none) = some v' ∧
      IsBrowserAttrs v' (if key = JsValue.protoKey then attrs else attrs ++ [key]) := by
  obtain ⟨own, proto, rfl, hown⟩ := h
  rw [merge_single]
  rcases hown key with ⟨hmem, x, hx⟩ | ⟨hmem, hnone⟩
  · rw [if_pos (Or.inl hmem), hx, Option.getD_some, merge_browserAttr]
    rfl
  · rw [hnone, Option.getD_none]
    by_cases hproto : key = JsValue.protoKey
    · subst hproto
      have hmethod : JsValue.protoKey ∉ JsValue.methodNames := by decide
      rw [if_neg (not_or.mpr ⟨hmem, hmethod⟩), JsValue.inherited, if_pos rfl, if_pos rfl,
        merge_objectPrototype, Option.map_some]
      -- The prototype is set, the properties are what they were.
      have hset : (JsValue.object own none).set JsValue.protoKey (browserAttr value) =
          .object own (some (browserAttr value)) := by
        unfold JsValue.set
        exact (if_neg (by simp [hnone])).trans (if_pos rfl)
      exact ⟨_, rfl, own, _, hset, hown⟩
    · by_cases hmethod : key ∈ JsValue.methodNames
      · rw [if_pos (Or.inr hmethod), JsValue.inherited, if_neg hproto, if_pos hmethod]
        rfl
      · rw [if_neg (not_or.mpr ⟨hmem, hmethod⟩), if_neg hproto, inherited_undefined hproto hmethod,
          merge_undefined, Option.map_some]
        obtain ⟨own', hset, hlookup⟩ := @set_property own key (browserAttr value) (Or.inr hproto)
        refine ⟨_, rfl, own', none, hset, fun k => ?_⟩
        rw [hlookup]
        by_cases hk : k = key
        · exact Or.inl ⟨by simp [hk], value, by rw [if_pos hk]⟩
        · rw [if_neg hk]
          rcases hown k with ⟨hmem', hx⟩ | ⟨hmem', hnone'⟩
          · exact Or.inl ⟨List.mem_append_left _ hmem', hx⟩
          · exact Or.inr ⟨by simp [hmem', hk], hnone'⟩

theorem isBrowserAttrs_single (key value : Text) :
    IsBrowserAttrs (.object [(key, browserAttr value)] none) [key] := by
  refine ⟨_, none, rfl, fun k => ?_⟩
  by_cases hk : k = key
  · exact Or.inl ⟨by simp [hk], value, by simp [hk]⟩
  · exact Or.inr ⟨by simp [hk], by simp [List.lookup_cons, beq_false_of_ne hk]⟩

theorem browser_attr {acc : JsValue} {t : Taken} (h : BrowserRep acc t) (key value : Text) :
    match t.browser (.contain .attr (some key) value []) with
    | some t' => ∃ acc', QueryLanguage.tryMerge (orEmpty acc)
        (QueryLanguage.containFragment .attr (some key) value) = some acc' ∧ BrowserRep acc' t'
    | none => QueryLanguage.tryMerge (orEmpty acc)
        (QueryLanguage.containFragment .attr (some key) value) = none := by
  obtain ⟨own, proto, hacc, hshape⟩ := h
  have hplain : "attributes".toList ≠ JsValue.protoKey := by decide
  have hfragment : QueryLanguage.containFragment .attr (some key) value =
      .object [("attributes".toList, .object [(key, browserAttr value)] none)] none := rfl
  rw [hfragment]
  simp only [Taken.browser, slotOf, Option.getD_some]
  rcases hshape.attrs with ⟨hnone, hattrs⟩ | ⟨v, hv, hne, hisAttrs⟩
  · rw [if_pos hattrs]
    have hmerge : QueryLanguage.tryMerge ((own.lookup "attributes".toList).getD
        (JsValue.inherited "attributes".toList)) (.object [(key, browserAttr value)] none) =
          some (.object [(key, browserAttr value)] none) := by
      rw [hnone, Option.getD_none, inherited_undefined hplain (by decide), merge_undefined]
    exact browserRep_set hplain hmerge (fun _ hset =>
      hshape.setAttrs (by simp) (isBrowserAttrs_single key value) hset) hacc
  · have hattr := browserAttrs_merge hisAttrs key value
    rw [if_neg hne]
    by_cases hclash : key ∈ t.attrs ∨ key ∈ JsValue.methodNames
    · rw [if_pos hclash] at hattr ⊢
      rw [hacc, merge_single, hv, Option.getD_some, hattr]
      rfl
    · rw [if_neg hclash] at hattr ⊢
      obtain ⟨v', hmerge, hisAttrs'⟩ := hattr
      have hmerge' : QueryLanguage.tryMerge ((own.lookup "attributes".toList).getD
          (JsValue.inherited "attributes".toList)) (.object [(key, browserAttr value)] none) =
            some v' := by
        rw [hv, Option.getD_some, hmerge]
      by_cases hproto : key = JsValue.protoKey
      · rw [if_pos hproto] at hisAttrs' ⊢
        exact browserRep_set hplain hmerge' (fun _ hset => hshape.setAttrs hne hisAttrs' hset) hacc
      · rw [if_neg hproto] at hisAttrs' ⊢
        exact browserRep_set hplain hmerge' (fun _ hset =>
          hshape.setAttrs (by simp) hisAttrs' hset) hacc

theorem merge_string (x y : Text) : QueryLanguage.tryMerge (.string x) (.string y) = none := rfl

theorem browser_format {acc : JsValue} {t : Taken} (h : BrowserRep acc t) (value : Text) :
    if t.format then QueryLanguage.tryMerge (orEmpty acc)
      (QueryLanguage.containFragment .format none value) = none
    else ∃ acc', QueryLanguage.tryMerge (orEmpty acc)
        (QueryLanguage.containFragment .format none value) = some acc' ∧
      BrowserRep acc' { t with format := true } := by
  obtain ⟨own, proto, hacc, hshape⟩ := h
  have hplain : "format".toList ≠ JsValue.protoKey := by decide
  have hfragment : QueryLanguage.containFragment .format none value =
      .object [("format".toList, .string value)] none := rfl
  have hformat := hshape.format
  rw [hfragment]
  split at hformat
  · next ht =>
    obtain ⟨v, hv, x, rfl⟩ := hformat
    rw [if_pos ht, hacc, merge_single, hv, Option.getD_some, merge_string]
    rfl
  · next ht =>
    rw [if_neg ht]
    have hmerge : QueryLanguage.tryMerge ((own.lookup "format".toList).getD
        (JsValue.inherited "format".toList)) (.string value) = some (.string value) := by
      rw [hformat, Option.getD_none, inherited_undefined hplain (by decide), merge_undefined]
    exact browserRep_set hplain hmerge (fun _ hset => hshape.setFormat ⟨_, rfl⟩ hset) hacc

/-- **The containment object of the browser knows the terms taken so far**, but for `__proto__`. -/
theorem browser_merge {acc : JsValue} {t : Taken} (h : BrowserRep acc t) (name : ContainName)
    (key : Option Text) (value raw : Text) :
    match t.browser (.contain name key value raw) with
    | some t' => ∃ acc', QueryLanguage.tryMerge (orEmpty acc)
        (QueryLanguage.containFragment name key value) = some acc' ∧ BrowserRep acc' t'
    | none => QueryLanguage.tryMerge (orEmpty acc)
        (QueryLanguage.containFragment name key value) = none := by
  cases name with
  | format =>
    have hformat := browser_format h value
    have htake : t.browser (.contain .format key value raw) =
      if t.Has .format then none else some (t.add .format) := rfl
    by_cases ht : t.Has .format
    · rw [if_pos (show t.format = true from ht)] at hformat
      rw [htake, if_pos ht]
      exact hformat
    · rw [if_neg (show ¬ t.format = true from ht)] at hformat
      rw [htake, if_neg ht]
      exact hformat
  | col => exact browserRep_list h (by decide) _
  | dim => exact browserRep_list h (by decide) _
  | pii => exact browserRep_list h (by decide) _
  | attr => exact browser_attr h (key.getD []) value

end Browser

/-! ## Verdicts -/

/-- The term a token is taken as, and what is known then. -/
def verdict (classify : Text → Option QueryTerm) (take : Taken → QueryTerm → Option Taken) (t : Taken)
    (raw : Text) : Option (QueryTerm × Taken) :=
  (classify raw).bind fun term => (take t term).map fun t' => (term, t')

/-- What becomes of every token: the term it is taken as, or nothing if it is reported. -/
def verdicts (classify : Text → Option QueryTerm) (take : Taken → QueryTerm → Option Taken) :
    Taken → List Word → List (Word × Option QueryTerm)
  | _, [] => []
  | t, tok :: toks =>
    match verdict classify take t tok.text with
    | some (term, t') => (tok, some term) :: verdicts classify take t' toks
    | none => (tok, none) :: verdicts classify take t toks

def taken (vs : List (Word × Option QueryTerm)) : List QueryTerm := vs.filterMap Prod.snd

def reported (vs : List (Word × Option QueryTerm)) : List Word :=
  (vs.filter fun v => v.2.isNone).map Prod.fst

def termOf : Classified → Option QueryTerm
  | .term t => some t
  | .error _ => none

/-- The term a token stands for on the server. -/
def serverTerm (raw : Text) : Option QueryTerm :=
  match classifyToken raw with
  | .ok c => termOf c
  | .error _ => none

def browserTerm (raw : Text) : Option QueryTerm := termOf (QueryLanguage.classifyToken raw)

def wordOf (e : ParseError) : Word := ⟨e.raw, e.index⟩

section Refinement

variable {σ : Type} (terms : σ → List QueryTerm) (errors : σ → List ParseError)
  (rep : σ → Taken → Prop) (classify : Text → Option QueryTerm)
  (take : Taken → QueryTerm → Option Taken)

/-- A step takes the token as a term, or reports it. -/
def Follows (st st' : σ) (t : Taken) (tok : Word) : Prop :=
  match verdict classify take t tok.text with
  | some (term, t') => rep st' t' ∧ terms st' = terms st ++ [term] ∧ errors st' = errors st
  | none => rep st' t ∧ terms st' = terms st ∧
    (errors st').map wordOf = (errors st).map wordOf ++ [tok]

variable {terms errors rep classify take}

theorem verdicts_of_follows {f : σ → Word → Except Panic σ}
    (hstep : ∀ st t tok, rep st t → ∃ st', f st tok = .ok st' ∧
      Follows terms errors rep classify take st st' t tok) (toks : List Word) :
    ∀ (st : σ) (t : Taken), rep st t → ∃ st', toks.foldlM f st = .ok st' ∧
      terms st' = terms st ++ taken (verdicts classify take t toks) ∧ (errors st').map wordOf =
          (errors st).map wordOf ++ reported (verdicts classify take t toks) := by
  induction toks with
  | nil =>
    intro st t _
    exact ⟨st, rfl, by simp [taken, verdicts], by simp [reported, verdicts]⟩
  | cons tok toks ih =>
    intro st t hrep
    obtain ⟨st₁, hst₁, hfollows⟩ := hstep st t tok hrep
    unfold Follows at hfollows
    rw [List.foldlM_cons, hst₁]
    unfold verdicts
    split at hfollows
    · next term t' heq =>
      obtain ⟨hrep', hterms, herrors⟩ := hfollows
      obtain ⟨st', hst', hterms', herrors'⟩ := ih _ _ hrep'
      refine ⟨st', hst', ?_, ?_⟩
      · rw [hterms', hterms, List.append_assoc]
        rfl
      · rw [herrors', herrors]
        rfl
    · next heq =>
      obtain ⟨hrep', hterms, herrors⟩ := hfollows
      obtain ⟨st', hst', hterms', herrors'⟩ := ih _ _ hrep'
      refine ⟨st', hst', ?_, ?_⟩
      · rw [hterms', hterms]
        rfl
      · rw [herrors', herrors, List.append_assoc]
        rfl

end Refinement

theorem server_follows (st : QueryDsl.ParseState) (t : Taken) (tok : Word)
    (h : ServerRep st.containAcc t ∧ st.hasDatatype = t.datatype) :
    ∃ st', QueryDsl.parseToken st tok = .ok st' ∧ Follows QueryDsl.ParseState.terms QueryDsl.ParseState.errors
        (fun st t => ServerRep st.containAcc t ∧ st.hasDatatype = t.datatype) serverTerm Taken.server
        st st' t tok := by
  obtain ⟨c, hc⟩ := classifyToken_returns tok.text
  have hterm : serverTerm tok.text = termOf c := by
    rw [serverTerm, hc]
  unfold QueryDsl.parseToken Follows verdict
  rw [hc, hterm]
  simp only [bind, Except.bind, pure, Except.pure]
  cases c with
  | error message => exact ⟨_, rfl, h, rfl, by simp [QueryDsl.ParseState.fail, wordOf]⟩
  | term term =>
    cases term with
    | search text raw => exact ⟨_, rfl, h, rfl, rfl⟩
    | filter field op value raw => exact ⟨_, rfl, h, rfl, rfl⟩
    | contain name key value raw =>
      have hmerge := server_merge h.1 name key value raw
      simp only [termOf, Option.bind_some]
      cases htake : t.server (.contain name key value raw) with
      | none =>
        rw [htake] at hmerge
        dsimp only at hmerge
        rw [hmerge]
        exact ⟨_, rfl, h, rfl, by simp [QueryDsl.ParseState.fail, wordOf]⟩
      | some t' =>
        rw [htake] at hmerge
        obtain ⟨acc', hacc', hrep'⟩ := hmerge
        rw [hacc']
        exact ⟨_, rfl, ⟨hrep', h.2.trans (Taken.datatype_server htake).symm⟩, rfl, rfl⟩
    | datatype name raw =>
      obtain ⟨⟨es, hacc, hshape⟩, hdatatype⟩ := h
      have htake : t.server (.datatype name raw) =
        if t.Has .datatype then none else some (t.add .datatype) := rfl
      simp only [termOf, Option.bind_some, htake, hdatatype]
      cases ht : t.datatype with
      | true =>
        rw [if_pos (show t.Has .datatype from ht)]
        exact ⟨_, rfl, ⟨⟨es, hacc, hshape⟩, hdatatype.trans ht⟩, rfl, by
          simp [QueryDsl.ParseState.fail, wordOf]⟩
      | false =>
        rw [if_neg (show ¬ t.Has .datatype from ne_true_of_eq_false ht)]
        exact ⟨_, rfl, ⟨⟨es, hacc, hshape.setDatatype⟩, rfl⟩, rfl, rfl⟩

theorem browser_follows (st : QueryLanguage.ParseState) (t : Taken) (tok : Word)
    (h : BrowserRep st.containAcc t ∧ st.hasDatatype = t.datatype) :
    Follows QueryLanguage.ParseState.terms QueryLanguage.ParseState.errors
      (fun st t => BrowserRep st.containAcc t ∧ st.hasDatatype = t.datatype) browserTerm Taken.browser
      st (QueryLanguage.parseToken st tok) t tok := by
  unfold QueryLanguage.parseToken Follows verdict browserTerm
  cases QueryLanguage.classifyToken tok.text with
  | error message => exact ⟨h, rfl, by simp [QueryLanguage.ParseState.fail, wordOf]⟩
  | term term =>
    cases term with
    | search text raw => exact ⟨h, rfl, rfl⟩
    | filter field op value raw => exact ⟨h, rfl, rfl⟩
    | contain name key value raw =>
      have hmerge := browser_merge h.1 name key value raw
      simp only [termOf, Option.bind_some]
      cases htake : t.browser (.contain name key value raw) with
      | none =>
        rw [htake] at hmerge
        rw [hmerge]
        exact ⟨h, rfl, by simp [QueryLanguage.ParseState.fail, wordOf]⟩
      | some t' =>
        rw [htake] at hmerge
        obtain ⟨acc', hacc', hrep'⟩ := hmerge
        rw [hacc']
        exact ⟨⟨hrep', h.2.trans (Taken.datatype_browser htake).symm⟩, rfl, rfl⟩
    | datatype name raw =>
      obtain ⟨⟨own, proto, hacc, hshape⟩, hdatatype⟩ := h
      have htake : t.browser (.datatype name raw) =
        if t.Has .datatype then none else some (t.add .datatype) := rfl
      simp only [termOf, Option.bind_some, htake, hdatatype]
      cases ht : t.datatype with
      | true =>
        rw [if_pos (show t.Has .datatype from ht)]
        exact ⟨⟨⟨own, proto, hacc, hshape⟩, hdatatype.trans ht⟩, rfl, by
          simp [QueryLanguage.ParseState.fail, wordOf]⟩
      | false =>
        rw [if_neg (show ¬ t.Has .datatype from ne_true_of_eq_false ht)]
        exact ⟨⟨⟨own, proto, hacc, hshape.setDatatype⟩, rfl⟩, rfl, rfl⟩

def serverVerdicts (input : Text) : List (Word × Option QueryTerm) :=
  verdicts serverTerm Taken.server .empty (QueryDsl.tokenize input)

def browserVerdicts (input : Text) : List (Word × Option QueryTerm) :=
  verdicts browserTerm Taken.browser .empty (QueryLanguage.tokenize input)

/-- **The server's parser takes and reports what the verdicts say.** -/
theorem parseQuery_server (input : Text) : ∃ errors,
    QueryDsl.parseQuery input = .ok (taken (serverVerdicts input), errors) ∧
      errors.map wordOf = reported (serverVerdicts input) := by
  obtain ⟨st, hst, hterms, herrors⟩ := verdicts_of_follows server_follows (QueryDsl.tokenize input)
    ⟨[], [], .obj [], false⟩ .empty ⟨serverRep_empty, rfl⟩
  refine ⟨st.errors, ?_, herrors⟩
  unfold QueryDsl.parseQuery
  rw [hst]
  show Except.ok (st.terms, st.errors) = _
  rw [hterms]
  rfl

/-- **The browser's parser takes and reports what the verdicts say.** -/
theorem parseQuery_browser (input : Text) : ∃ errors,
    QueryLanguage.parseQuery input = (taken (browserVerdicts input), errors) ∧
      errors.map wordOf = reported (browserVerdicts input) := by
  obtain ⟨st, hst, hterms, herrors⟩ := verdicts_of_follows
    (f := fun st tok => .ok (QueryLanguage.parseToken st tok))
    (fun st t tok h => ⟨_, rfl, browser_follows st t tok h⟩) (QueryLanguage.tokenize input)
    ⟨[], [], .undefined, false⟩ .empty ⟨browserRep_empty, rfl⟩
  have hfold : (QueryLanguage.tokenize input).foldl QueryLanguage.parseToken
      ⟨[], [], .undefined, false⟩ = st := by
    have hpure := List.foldlM_pure (m := Except Panic) (f := QueryLanguage.parseToken)
      (l := QueryLanguage.tokenize input) (b := ⟨[], [], .undefined, false⟩)
    exact Except.ok.inj (hpure.symm.trans hst)
  refine ⟨st.errors, ?_, herrors⟩
  unfold QueryLanguage.parseQuery
  rw [hfold]
  show (st.terms, st.errors) = _
  rw [hterms]
  rfl

end QueryParsers

end Mekhan

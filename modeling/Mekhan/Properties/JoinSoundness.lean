import Mekhan.Infra.ScriptText
import Mekhan.Properties.JoinSearch
import Mekhan.Properties.ScriptBoundary

/-!
# What a guard says of its constraints

`extract_join_constraints` of `application/src/join_index.rs` splits the text of a guard at every `&&` that it finds
outside brackets and quotes, and takes the equalities of two ports among the parts. The interpreter is a parameter,
and what is documented of it is `RhaiEngine.Documented`.
-/

namespace Mekhan

open Infra JoinIndex JoinSearch

theorem Scope.value_buildScope (inputs : HashMap String Json) (name : String) :
    (buildScope inputs).value name = (inputs.lookup name).map jsonToDynamic := by
  have hnodup : ((buildScope inputs).map (·.1)).Nodup := by
    rw [buildScope, List.map_map]
    exact inputs.toPairs_nodup
  rw [Scope.value, ← lookup_perm hnodup (List.reverse_perm _).symm]
  refine Option.ext fun w => ?_
  rw [lookup_eq_some_iff_mem hnodup]
  exact (HashMap.lookup_map_eq_some_iff inputs jsonToDynamic name w).symm

/-! ## What is assumed of the interpreter -/

/-- `==` on two values; nothing is said of two arrays, two object maps or a value of another type. -/
def Dynamic.scalarEq : Dynamic → Dynamic → Option Bool
  | .unit, .unit => some true
  | .bool x, .bool y => some (x = y)
  | .int i, .int j => some (i = j)
  | .int i, .float f => some ((F64.ofInt i).eq f)
  | .float f, .int i => some (f.eq (.ofInt i))
  | .float f, .float g => some (f.eq g)
  | .string s, .string t => some (s = t)
  | .array _, .array _ | .map _, .map _ | .other _, _ | _, .other _ => none
  | _, _ => some false

/-- The text is one expression, and neither `|` nor `^` is its root. -/
structure Conjunctive (text : List Char) : Prop where
  root : '|' ∉ ScriptReader.start.topLevel text ∧ '^' ∉ ScriptReader.start.topLevel text
  block : '\x7b' ∉ ScriptReader.start.topLevel text
  /-- What may follow a `;` is another one. -/
  statement : ∀ c ∈ (ScriptReader.start.topLevel text).dropWhile (· ≠ ';'), c = ';' ∨ isWhitespace c = true

section

variable (property : Dynamic → String → Option Dynamic)

/-- A field of an object map, `()` where there is none, or a property of another value. -/
def Dynamic.field : Dynamic → String → Option Dynamic
  | .map entries, name => some ((entries.lookup name).getD .unit)
  | v, name => property v name

def Dynamic.fields : Dynamic → List String → Option Dynamic
  | v, [] => some v
  | v, name :: path => (v.field property name).bind fun w => fields w path

/-- The value of `name.field.field` in a script. -/
def Scope.pathValue (scope : Scope) : List String → Option Dynamic
  | [] => none
  | name :: path => (scope.value name).bind fun v => v.fields property path

end

namespace RhaiEngine

variable (engine : RhaiEngine)

/-- A script that is true, and the scope it leaves. -/
def Holds (scope : Scope) (text : List Char) (scope' : Scope) : Prop :=
  engine.evalWithScope scope (String.ofList text) = (.ok true, scope')

/-- What is documented of Rhai: `||`, `|` and `^` bind less than `&&`, which binds less than `==`; statements end
with `;` or a block; the operands of `&&` are evaluated from the left; `==` compares values of one type, and
integers with floats; an array or a string has its length as the property `len`. -/
structure Documented : Prop where
  conjunction : ∀ {scope scope' : Scope} {l r : List Char}, Conjunctive (l ++ '&' :: '&' :: r) →
    ScriptReader.start.after l = .start → engine.Holds scope (l ++ '&' :: '&' :: r) scope' →
    ∃ mid, engine.Holds scope l mid ∧ engine.Holds mid r scope'
  equality : ∀ {scope scope' : Scope} {names names' : List String} {l r : List Char}, PathText names l →
    PathText names' r → engine.Holds scope (l ++ '=' :: '=' :: r) scope' →
    ∃ v w, scope.pathValue engine.property names = some v ∧ scope.pathValue engine.property names' = some w ∧
      v.scalarEq w ≠ some false
  arrayLength : ∀ elems, engine.property (.array elems) "len" = some (.int elems.length)
  stringLength : ∀ s, engine.property (.string s) "len" = some (.int s.length)

end RhaiEngine

/-! ## The operands of a conjunction -/

section Operands

open ScriptReader

variable {engine : RhaiEngine} {scope scope' : Scope} {l r s t : List Char}

theorem step_amp : start.step '&' = start := by decide

theorem topLevel_operands (hl : start.after l = start) :
    start.topLevel (l ++ '&' :: '&' :: r) = start.topLevel l ++ '&' :: '&' :: start.topLevel r := by
  rw [topLevel_append, hl, topLevel_start_cons step_amp, topLevel_start_cons step_amp]

theorem after_operand (hl : start.after l = start) : start.after (l ++ '&' :: '&' :: r) = start.after r := by
  rw [after_append, hl, after_cons, after_cons, step_amp, step_amp]

theorem Conjunctive.operands (h : Conjunctive (l ++ '&' :: '&' :: r)) (hl : start.after l = start) :
    Conjunctive l ∧ Conjunctive r := by
  obtain ⟨⟨hor, hxor⟩, hblock, hstatement⟩ := h
  rw [topLevel_operands hl] at hor hxor hblock hstatement
  simp only [List.mem_append, List.mem_cons, not_or] at hor hxor hblock
  -- After a `;` on the left the operator would follow.
  have hnone : ∀ c ∈ start.topLevel l, decide (c ≠ ';') = true := by
    by_contra hex
    have hne : ((start.topLevel l).dropWhile (· ≠ ';')).isEmpty ≠ true := by
      rwa [Ne, List.isEmpty_iff, List.dropWhile_eq_nil_iff]
    rw [List.dropWhile_append, if_neg hne] at hstatement
    exact absurd (hstatement '&' (by simp)) (by decide)
  rw [List.dropWhile_append_of_pos hnone, List.dropWhile_cons_of_pos (by decide),
    List.dropWhile_cons_of_pos (by decide)] at hstatement
  refine ⟨⟨⟨hor.1, hxor.1⟩, hblock.1, ?_⟩, ⟨hor.2.2.2, hxor.2.2.2⟩, hblock.2.2.2, hstatement⟩
  rw [List.dropWhile_eq_nil_iff.mpr hnone]
  exact fun c hc => absurd hc List.not_mem_nil

/-- Each operand is true from the scope that the one before it leaves. -/
def Passes (engine : RhaiEngine) (scope : Scope) : List (List Char) → Prop
  | [] => True
  | t :: ts => ∃ mid, engine.Holds scope t mid ∧ Passes engine mid ts

/-- **Where a conjunction is true, its operands are.** -/
theorem passes_of_holds (hdoc : engine.Documented) : ∀ {s : List Char} {scope scope' : Scope}, Conjunctive s →
    (∀ p ∈ topLevelDouble '&' s, start.after (s.take p) = start) → engine.Holds scope s scope' →
    Passes engine scope (splitTopLevel '&' s) := by
  intro s
  induction hn : s.length using Nat.strong_induction_on generalizing s with
  | _ n ih =>
    intro scope scope' hs hsplits hholds
    rcases splitTopLevel_cases '&' s with ⟨-, hsplit⟩ | ⟨l, r, rfl, hsplit, hpositions⟩
    · rw [hsplit]
      exact ⟨scope', hholds, trivial⟩
    · rw [hpositions, List.forall_mem_cons, List.take_left] at hsplits
      obtain ⟨hl, hlater⟩ := hsplits
      obtain ⟨mid, hleft, hright⟩ := hdoc.conjunction hs hl hholds
      rw [hsplit]
      refine ⟨mid, hleft, ih r.length ?_ rfl (hs.operands hl).2 (fun p hp => ?_) hright⟩
      · rw [← hn, List.length_append, List.length_cons, List.length_cons]
        omega
      · have hshift := hlater (p + (l.length + 2)) (List.mem_map_of_mem hp)
        have htake : (l ++ '&' :: '&' :: r).take (p + (l.length + 2)) = l ++ '&' :: '&' :: r.take p := by
          rw [show p + (l.length + 2) = l.length + (p + 2) by omega, List.take_length_add_append, List.take_succ_cons,
            List.take_succ_cons]
        rwa [htake, after_operand hl] at hshift

theorem holds_of_passes : ∀ {before : List (List Char)} {ts : List (List Char)},
    Passes engine scope (before ++ t :: ts) → (∀ u ∈ before, (engine.evalWithScope scope (String.ofList u)).2 = scope) →
    ∃ mid, engine.Holds scope t mid
  | [], _, h, _ => ⟨h.choose, h.choose_spec.1⟩
  | u :: before, _, ⟨mid, hu, h⟩, hkeeps => by
    obtain ⟨hkeep, hkeeps⟩ := List.forall_mem_cons.mp hkeeps
    have hmid : mid = scope := by rw [← hkeep, hu]
    exact holds_of_passes (hmid ▸ h) hkeeps

end Operands

/-! ## The values of the two sides -/

section Values

variable {property : Dynamic → String → Option Dynamic} {x y : Json}

theorem bits_eq_of_rank {f g : F64} (h : f.rank = g.rank) :
    (if f.rank = 0 then 0 else f.bits) = if g.rank = 0 then 0 else g.bits := by
  rw [← h]
  split
  · rfl
  · next hzero =>
    unfold F64.rank at h hzero
    refine BitVec.eq_of_toNat_eq ?_
    split at h <;> split at h <;> split at hzero <;> omega

theorem asF64_of_asI64 {n : Number} {i : Int} (h : n.asI64 = some i) : n.asF64 = F64.ofInt i := by
  cases n with
  | posInt n => exact congrArg F64.ofInt (Option.some.inj (Option.ite_none_right_eq_some.mp h).2)
  | negInt n => exact congrArg F64.ofInt (Option.some.inj h)
  | float bits => cases h

theorem scalarEq_num (m n : Number) :
    (jsonToDynamic (.num m)).scalarEq (jsonToDynamic (.num n)) = some (Rhai.numEq m n) := by
  rw [jsonToDynamic, jsonToDynamic, Rhai.numEq]
  cases hm : m.asI64 with
  | none =>
    cases hn : n.asI64 with
    | none => rfl
    | some j => rw [asF64_of_asI64 hn]; rfl
  | some i =>
    cases hn : n.asI64 with
    | none => rw [asF64_of_asI64 hm]; rfl
    | some j => rfl

theorem rank_of_numEq {m n : Number} (h : Rhai.numEq m n = true) : m.asF64.rank = n.asF64.rank := by
  unfold Rhai.numEq at h
  split at h
  · next i j hm hn => rw [asF64_of_asI64 hm, asF64_of_asI64 hn, of_decide_eq_true h]
  · simp only [F64.eq, Bool.and_eq_true, decide_eq_true_eq] at h
    exact h.2

theorem scalarEq_num_of_ne (hx : ∀ m, x ≠ .num m) (n : Number) :
    (jsonToDynamic x).scalarEq (jsonToDynamic (.num n)) = some false ∧
      (jsonToDynamic (.num n)).scalarEq (jsonToDynamic x) = some false := by
  have hn : (∃ i, jsonToDynamic (.num n) = .int i) ∨ ∃ f, jsonToDynamic (.num n) = .float f := by
    rw [jsonToDynamic]
    cases n.asI64 with
    | none => exact .inr ⟨_, rfl⟩
    | some i => exact .inl ⟨i, rfl⟩
  cases x with
  | num m => exact absurd rfl (hx m)
  | _ => obtain ⟨i, hn⟩ | ⟨f, hn⟩ := hn <;> rw [hn] <;> exact ⟨rfl, rfl⟩

/-- **Values that `==` takes for equal have one key.** -/
theorem scalarKey_of_scalarEq (h : (jsonToDynamic x).scalarEq (jsonToDynamic y) ≠ some false) :
    scalarKey (some x) = scalarKey (some y) := by
  cases x with
  | num m =>
    cases y with
    | num n =>
      rw [scalarEq_num, Ne, Option.some.injEq, Bool.not_eq_false] at h
      simp only [scalarKey]
      rw [bits_eq_of_rank (rank_of_numEq h)]
    | _ => exact absurd (scalarEq_num_of_ne (by simp) m).2 h
  | null =>
    cases y with
    | null => rfl
    | num n => exact absurd (scalarEq_num_of_ne (by simp) n).1 h
    | _ => exact absurd rfl h
  | bool b =>
    cases y with
    | bool b' =>
      have hb : b = b' := by simpa [jsonToDynamic, Dynamic.scalarEq] using h
      rw [hb]
    | num n => exact absurd (scalarEq_num_of_ne (by simp) n).1 h
    | _ => exact absurd rfl h
  | str s =>
    cases y with
    | str t =>
      have hs : s = t := by simpa [jsonToDynamic, Dynamic.scalarEq] using h
      rw [hs]
    | num n => exact absurd (scalarEq_num_of_ne (by simp) n).1 h
    | _ => exact absurd rfl h
  | arr xs =>
    cases y with
    | arr ys => rfl
    | num n => exact absurd (scalarEq_num_of_ne (by simp) n).1 h
    | _ => exact absurd rfl h
  | obj es =>
    cases y with
    | obj es' => rfl
    | num n => exact absurd (scalarEq_num_of_ne (by simp) n).1 h
    | _ => exact absurd rfl h

/-- Reading a path, no other value than an object is asked for a property. -/
def FieldsOnly (property : Dynamic → String → Option Dynamic) : Json → List String → Prop
  | _, [] => True
  | .obj entries, name :: path => FieldsOnly property ((entries.lookup name).getD .null) path
  | v, name :: _ => property (jsonToDynamic v) name = none

theorem field_obj {es : List (String × Json)} (h : (Json.obj es).Valid) (name : String) :
    (jsonToDynamic (.obj es)).field property name = some (jsonToDynamic ((es.lookup name).getD .null)) := by
  rw [jsonToDynamic, Dynamic.field, entriesToDynamics_eq, collect_map_snd, lookup_map_snd,
    lookup_collect .btree (Json.valid_obj.mp h).1]
  cases es.lookup name <;> rfl

/-- **What a script reads is what the key is made of.** -/
theorem fields_eq_pluckPath {path : List String} {v : Dynamic} (hx : x.Valid) (honly : FieldsOnly property x path)
    (h : (jsonToDynamic x).fields property path = some v) : v = jsonToDynamic ((pluckPath x path).getD .null) := by
  induction path generalizing x with
  | nil => exact (Option.some.inj h).symm
  | cons name path ih =>
    obtain ⟨w, hw, hpath⟩ := Option.bind_eq_some_iff.mp h
    have hother : (∀ es, x ≠ .obj es) → (jsonToDynamic x).field property name = property (jsonToDynamic x) name := by
      intro hne
      cases x with
      | obj es => exact absurd rfl (hne es)
      | num n =>
        rw [jsonToDynamic]
        cases n.asI64 <;> rfl
      | _ => rfl
    cases x with
    | obj es =>
      obtain rfl := Option.some.inj ((field_obj hx name).symm.trans hw)
      have hmember : ((es.lookup name).getD .null).Valid := by
        cases hlookup : es.lookup name with
        | none => exact Json.valid_null
        | some y => exact (Json.valid_obj.mp hx).2 _ (mem_of_lookup_eq_some hlookup)
      rw [ih hmember honly hpath, pluckPath, Json.get?]
      cases es.lookup name with
      | none => cases path <;> rfl
      | some y => rfl
    | _ =>
      have hnone : property _ name = none := honly
      rw [hother (by simp), hnone] at hw
      cases hw

end Values

/-! ## The constraints of a guard -/

section Necessary

open ScriptReader

variable {engine : RhaiEngine} {guard : String} {inputs : HashMap String Json} {scope scope' : Scope}

/-- Reading a path of the ports, no value but an object is asked for a property. -/
def FieldsRead (property : Dynamic → String → Option Dynamic) (inputs : HashMap String Json) (port : String)
    (path : List String) : Prop :=
  ∀ x, inputs.lookup port = some x → FieldsOnly property x path

/-- The interpreter reads the guard as the splitter does, and the ports as the index does. -/
structure ReadAlike (engine : RhaiEngine) (guard : String) (inputs : HashMap String Json) : Prop where
  conjunctive : Conjunctive guard.toList
  /-- The operators of the splitter are code outside all brackets. -/
  operators : ∀ p ∈ topLevelDouble '&' guard.toList, start.after (guard.toList.take p) = start
  /-- No operand before an equality changes a variable. -/
  unchanged : ∀ before t rest con, splitTopLevel '&' guard.toList = before ++ t :: rest → StatedBy con t →
    ∀ u ∈ before, (engine.evalWithScope (buildScope inputs) (String.ofList u)).2 = buildScope inputs
  /-- No side of an equality is a property that the interpreter has built in. -/
  fields : ∀ t ∈ splitTopLevel '&' guard.toList, ∀ con, StatedBy con t →
    FieldsRead engine.property inputs con.portA con.pathA ∧ FieldsRead engine.property inputs con.portB con.pathB

theorem sideKey_eq {port : String} {path : List String} {v : Dynamic} (hvalid : ∀ e ∈ inputs.toPairs, e.2.Valid)
    (honly : FieldsRead engine.property inputs port path)
    (h : (buildScope inputs).pathValue engine.property (port :: path) = some v) :
    ∃ x, v = jsonToDynamic x ∧ sideKey inputs port path = scalarKey (some x) := by
  obtain ⟨w, hw, hfields⟩ := Option.bind_eq_some_iff.mp h
  rw [Scope.value_buildScope] at hw
  obtain ⟨x, hx, rfl⟩ := Option.map_eq_some_iff.mp hw
  have hxvalid : x.Valid := hvalid (port, x) (HashMap.mem_toPairs.mpr (AList.mem_lookup_iff.mp hx))
  refine ⟨(pluckPath x path).getD .null, fields_eq_pluckPath hxvalid (honly x hx) hfields, ?_⟩
  rw [sideKey, hx, Option.bind_some]
  cases pluckPath x path <;> rfl

theorem holds_of_evaluateGuard (h : engine.evaluateGuard guard inputs = .ok true) :
    ∃ scope', engine.Holds (buildScope inputs) guard.toList scope' := by
  unfold RhaiEngine.evaluateGuard at h
  split at h
  · next b hb =>
    cases h
    refine ⟨(engine.evalWithScope (buildScope inputs) guard).2, ?_⟩
    rw [RhaiEngine.Holds, String.ofList_toList, ← hb]
  · cases h

/-- The splitter sees a top-level `||`, or none of its parts states an equality of two ports. -/
def StatesNothing (guard : String) : Prop :=
  topLevelDouble '|' guard.toList ≠ [] ∨ ∀ t ∈ splitTopLevel '&' guard.toList, ∀ con, ¬ StatedBy con t

theorem not_statesNothing_of_mem {con : JoinConstraint} (hcon : con ∈ extractJoinConstraints guard) :
    ¬ StatesNothing guard := by
  rintro (hor | hnone)
  · rw [extractJoinConstraints, if_neg hor] at hcon
    cases hcon
  · obtain ⟨before, t, rest, hsplit, hparse⟩ := exists_conjunct hcon
    exact hnone t (by rw [hsplit]; simp) con (statedBy_of_parseEquiJoin hparse)

/-- **Where the guard states no equality, or is read alike, its constraints are necessary.** -/
theorem joinConstraints_necessary (hdoc : engine.Documented) (hvalid : ∀ e ∈ inputs.toPairs, e.2.Valid)
    (h : StatesNothing guard ∨ ReadAlike engine guard inputs)
    (htrue : engine.evaluateGuard guard inputs = .ok true) :
    ∀ con ∈ extractJoinConstraints guard, SidesEqual inputs con := by
  intro con hcon
  replace h := h.resolve_left (not_statesNothing_of_mem hcon)
  obtain ⟨scope', hholds⟩ := holds_of_evaluateGuard htrue
  obtain ⟨before, t, rest, hsplit, hparse⟩ := exists_conjunct hcon
  have hstated := statedBy_of_parseEquiJoin hparse
  have hpasses := passes_of_holds hdoc h.conjunctive h.operators hholds
  rw [hsplit] at hpasses
  obtain ⟨mid, ht⟩ := holds_of_passes hpasses (h.unchanged before t rest con hsplit hstated)
  obtain ⟨hfieldsA, hfieldsB⟩ := h.fields t (by rw [hsplit]; simp) con hstated
  obtain ⟨l, r, rfl, hl, hr⟩ := hstated.sides
  obtain ⟨v, w, hv, hw, heq⟩ := hdoc.equality hl hr ht
  obtain ⟨x, rfl, hx⟩ := sideKey_eq hvalid hfieldsA hv
  obtain ⟨y, rfl, hy⟩ := sideKey_eq hvalid hfieldsB hw
  rw [SidesEqual, hx, hy]
  exact scalarKey_of_scalarEq heq

end Necessary

/-! ## Interpreters of a few scripts -/

def lenProperty : Dynamic → String → Option Dynamic
  | .array elems, name => if name = "len" then some (.int elems.length) else none
  | .string s, name => if name = "len" then some (.int s.length) else none
  | _, _ => none

/-- Each script of the table with what it comes to, and an error for any other. -/
def fewScripts (table : List (String × (Scope → Option Bool))) : RhaiEngine where
  evalWithScope scope script :=
    match table.lookup script with
    | some value =>
      match value scope with
      | some b => (.ok b, scope)
      | none => (.error "Data type incorrect", scope)
    | none => (.error "Unexpected script", scope)
  property := lenProperty

def equalPaths (scope : Scope) (names names' : List String) : Option Bool := do
  let v ← scope.pathValue lenProperty names
  let w ← scope.pathValue lenProperty names'
  v.scalarEq w

def flag (scope : Scope) (names : List String) : Option Bool :=
  match scope.pathValue lenProperty names with
  | some (.bool b) => some b
  | _ => none

theorem holds_fewScripts {table : List (String × (Scope → Option Bool))} {scope scope' : Scope} {text : List Char} :
    (fewScripts table).Holds scope text scope' ↔
      ∃ value, table.lookup (String.ofList text) = some value ∧ value scope = some true ∧ scope' = scope := by
  unfold RhaiEngine.Holds fewScripts
  dsimp only
  cases table.lookup (String.ofList text) with
  | none => simp
  | some value =>
    cases hresult : value scope with
    | none => simp [hresult]
    | some b => simp [hresult, eq_comm]

/-! ## A guard that is an equality and a flag -/

/-- The value of `a.x == b.x`. -/
def equality (scope : Scope) : Option Bool := equalPaths scope ["a", "x"] ["b", "x"]

/-- The interpreter of `a.x == b.x && a.ok` and of its two operands. -/
def conjunctionEngine : RhaiEngine := fewScripts
  [("a.x == b.x && a.ok", fun scope => do if ← equality scope then flag scope ["a", "ok"] else some false),
    ("a.x == b.x ", equality), (" a.ok", fun scope => flag scope ["a", "ok"])]

theorem eq_of_holds_conjunction {scope scope' : Scope} {text : List Char}
    (h : conjunctionEngine.Holds scope text scope') : scope' = scope ∧
      (text = "a.x == b.x && a.ok".toList ∧ equality scope = some true ∧ flag scope ["a", "ok"] = some true ∨
        text = "a.x == b.x ".toList ∧ equality scope = some true ∨ text = " a.ok".toList) := by
  obtain ⟨value, hvalue, htrue, hscope⟩ := holds_fewScripts.mp h
  have hmem := mem_of_lookup_eq_some hvalue
  simp only [List.mem_cons, Prod.mk.injEq, List.not_mem_nil, or_false] at hmem
  refine ⟨hscope, ?_⟩
  rcases hmem with ⟨htext, rfl⟩ | ⟨htext, rfl⟩ | ⟨htext, -⟩
  · obtain ⟨b, hequal, hb⟩ := Option.bind_eq_some_iff.mp htrue
    cases b with
    | false => cases hb
    | true => exact .inl ⟨by rw [← htext, String.toList_ofList], hequal, hb⟩
  · exact .inr (.inl ⟨by rw [← htext, String.toList_ofList], htrue⟩)
  · exact .inr (.inr (by rw [← htext, String.toList_ofList]))

theorem equality_sides {names names' : List String} {l r : List Char} (hl : PathText names l) (hr : PathText names' r)
    (h : l ++ '=' :: '=' :: r = "a.x == b.x ".toList) : names = ["a", "x"] ∧ names' = ["b", "x"] := by
  have hleft : ∀ c ∈ l, decide (c ≠ '=') = true := by
    intro c hc
    rw [decide_eq_true_eq]
    rintro rfl
    exact absurd (hl.chars hc) (by decide)
  have htake : l = "a.x ".toList := by
    have htext := congrArg (List.takeWhile (· ≠ '=')) h
    rw [List.takeWhile_append_of_pos hleft, List.takeWhile_cons_of_neg (by decide), List.append_nil] at htext
    exact htext
  subst htake
  have hright : r = " b.x ".toList := by
    have hdrop := congrArg (List.drop 6) h
    exact hdrop
  subst hright
  rw [hl.names_eq, hr.names_eq]
  decide

/-- The text around its `&&`. -/
theorem conjunction_sides {l r : List Char} (h : l ++ '&' :: '&' :: r = "a.x == b.x && a.ok".toList) :
    l = "a.x == b.x ".toList ∧ r = " a.ok".toList := by
  have hleft : ∀ c ∈ l, decide (c ≠ '&') = true := by
    intro c hc
    rw [decide_eq_true_eq]
    rintro rfl
    have hcount := congrArg (List.count '&') h
    rw [List.count_append, List.count_cons_self, List.count_cons_self,
      show List.count '&' "a.x == b.x && a.ok".toList = 2 by decide] at hcount
    have := List.count_pos_iff.mpr hc
    omega
  have htake : l = "a.x == b.x ".toList := by
    have htext := congrArg (List.takeWhile (· ≠ '&')) h
    rw [List.takeWhile_append_of_pos hleft, List.takeWhile_cons_of_neg (by decide), List.append_nil] at htext
    exact htext
  subst htake
  exact ⟨rfl, congrArg (List.drop 13) h⟩

theorem documented_conjunctionEngine : conjunctionEngine.Documented where
  conjunction := by
    intro scope scope' l r _ _ hholds
    obtain ⟨rfl, ⟨htext, hequal, hok⟩ | ⟨htext, -⟩ | htext⟩ := eq_of_holds_conjunction hholds
    · obtain ⟨rfl, rfl⟩ := conjunction_sides htext
      exact ⟨scope', holds_fewScripts.mpr ⟨equality, rfl, hequal, rfl⟩, holds_fewScripts.mpr ⟨_, rfl, hok, rfl⟩⟩
    all_goals
      have hamp : '&' ∈ l ++ '&' :: '&' :: r := by simp
      rw [htext] at hamp
      exact absurd hamp (by decide)
  equality := by
    intro scope scope' names names' l r hl hr hholds
    obtain ⟨-, ⟨htext, -⟩ | ⟨htext, hequal⟩ | htext⟩ := eq_of_holds_conjunction hholds
    · have hamp : '&' ∈ l ++ '=' :: '=' :: r := by
        rw [htext]
        decide
      simp only [List.mem_append, List.mem_cons] at hamp
      rcases hamp with hamp | hamp | hamp | hamp
      · exact absurd (hl.chars hamp) (by decide)
      · exact absurd hamp (by decide)
      · exact absurd hamp (by decide)
      · exact absurd (hr.chars hamp) (by decide)
    · obtain ⟨rfl, rfl⟩ := equality_sides hl hr htext
      obtain ⟨v, hv, hw⟩ := Option.bind_eq_some_iff.mp hequal
      obtain ⟨w, hw, heq⟩ := Option.bind_eq_some_iff.mp hw
      exact ⟨v, w, hv, hw, by rw [heq]; simp⟩
    · have heq : '=' ∈ l ++ '=' :: '=' :: r := by simp
      rw [htext] at heq
      exact absurd heq (by decide)
  arrayLength _ := rfl
  stringLength _ := rfl

def equalInputs : HashMap String Json := HashMap.ofPairs
  [("a", .obj [("ok", .bool true), ("x", .str "p")]), ("b", .obj [("x", .str "p")])]

open ScriptReader in
theorem readAlike_conjunction : ReadAlike conjunctionEngine "a.x == b.x && a.ok" equalInputs := by
  have hsplits : splitTopLevel '&' "a.x == b.x && a.ok".toList = ["a.x == b.x ".toList, " a.ok".toList] := by decide
  have hflag : ∀ con, ¬ StatedBy con " a.ok".toList := by
    intro con hstated
    obtain ⟨l, r, htext, -⟩ := hstated.sides
    have heq : '=' ∈ " a.ok".toList := by rw [htext]; simp
    exact absurd heq (by decide)
  refine ⟨⟨⟨by decide, by decide⟩, by decide, fun c hc => ?_⟩, by decide, ?_, ?_⟩
  · have hnone : (start.topLevel "a.x == b.x && a.ok".toList).dropWhile (· ≠ ';') = [] := by decide
    rw [hnone] at hc
    cases hc
  · intro before t rest con hsplit hstated u hu
    rw [hsplits] at hsplit
    -- the equality stands first
    match before, hsplit with
    | [], _ => cases hu
    | [_], hsplit =>
      obtain ⟨-, htail⟩ := List.cons.inj hsplit
      exact absurd ((List.cons.inj htail).1 ▸ hstated) (hflag con)
    | _ :: _ :: before, hsplit => simp at hsplit
  · intro t ht con hstated
    rw [hsplits] at ht
    rcases List.mem_pair.mp ht with rfl | rfl
    · obtain ⟨l, r, htext, hl, hr⟩ := hstated.sides
      obtain ⟨hA, hB⟩ := equality_sides hl hr htext.symm
      rw [(List.cons.inj hA).1, (List.cons.inj hA).2, (List.cons.inj hB).1, (List.cons.inj hB).2]
      constructor
      · rintro x hx
        obtain rfl : Json.obj [("ok", .bool true), ("x", .str "p")] = x := Option.some.inj hx
        trivial
      · rintro x hx
        obtain rfl : Json.obj [("x", .str "p")] = x := Option.some.inj hx
        trivial
    · exact absurd hstated (hflag con)

/-- A guard of two conjuncts, one of which is an equality. -/
theorem joinConstraints_necessary_conjunction : SidesEqual equalInputs ⟨"a", ["x"], "b", ["x"]⟩ := by
  have hvalid : ∀ e ∈ equalInputs.toPairs, e.2.Valid := by
    have hpairs : equalInputs.toPairs = [("b", .obj [("x", .str "p")]),
        ("a", .obj [("ok", .bool true), ("x", .str "p")])] := rfl
    simp [hpairs, Json.Valid, Json.ValidEntries]
  exact joinConstraints_necessary documented_conjunctionEngine hvalid (.inr readAlike_conjunction) rfl _ (by decide)

/-! ## A guard with a single `|` -/

/-- The conjunction is one side of the `|`. -/
def disjunctionEngine : RhaiEngine :=
  fewScripts [("a.x == b.x && a.ok | b.ok", fun scope => do
    let left ← if ← equality scope then flag scope ["a", "ok"] else some false
    let right ← flag scope ["b", "ok"]
    some (left || right))]

theorem eq_of_holds_disjunction {scope scope' : Scope} {text : List Char}
    (h : disjunctionEngine.Holds scope text scope') : text = "a.x == b.x && a.ok | b.ok".toList := by
  obtain ⟨value, hvalue, -⟩ := holds_fewScripts.mp h
  have hmem := mem_of_lookup_eq_some hvalue
  rw [List.mem_singleton, Prod.mk.injEq] at hmem
  rw [← hmem.1, String.toList_ofList]

def mixedInputs : HashMap String Json :=
  HashMap.ofPairs [("a", .obj [("ok", .bool true), ("x", .str "p")]), ("b", .obj [("ok", .bool true), ("x", .str "q")])]

theorem documented_disjunctionEngine : disjunctionEngine.Documented where
  conjunction := by
    intro scope scope' l r hconj _ hholds
    rw [eq_of_holds_disjunction hholds] at hconj
    exact absurd hconj.root.1 (by decide)
  equality := by
    intro scope scope' names names' l r hl hr hholds
    have hbar : '|' ∈ l ++ '=' :: '=' :: r := by
      rw [eq_of_holds_disjunction hholds]
      decide
    simp only [List.mem_append, List.mem_cons] at hbar
    rcases hbar with hbar | hbar | hbar | hbar
    · exact absurd (hl.chars hbar) (by decide)
    · exact absurd hbar (by decide)
    · exact absurd hbar (by decide)
    · exact absurd (hr.chars hbar) (by decide)
  arrayLength _ := rfl
  stringLength _ := rfl

/-- `a.x == b.x && a.ok | b.ok` is true where only the `ok` of `b` makes it so, and its constraint is not met. -/
theorem disjunction_extracted : ¬ ∀ (engine : RhaiEngine), engine.Documented → ∀ (guard : String)
    (inputs : HashMap String Json), (∀ e ∈ inputs.toPairs, e.2.Valid) →
      engine.evaluateGuard guard inputs = .ok true → ∀ con ∈ extractJoinConstraints guard, SidesEqual inputs con := by
  intro h
  have hvalid : ∀ e ∈ mixedInputs.toPairs, e.2.Valid := by
    have hpairs : mixedInputs.toPairs = [("b", .obj [("ok", .bool true), ("x", .str "q")]),
        ("a", .obj [("ok", .bool true), ("x", .str "p")])] := rfl
    simp [hpairs, Json.Valid, Json.ValidEntries]
  have hunequal := h disjunctionEngine documented_disjunctionEngine "a.x == b.x && a.ok | b.ok" mixedInputs hvalid rfl
    ⟨"a", ["x"], "b", ["x"]⟩ (by decide)
  exact absurd hunequal (by decide)

end Mekhan

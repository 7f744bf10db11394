import Mekhan.Compiler.GuardRefs

/-!
# One value on every surface

A guard finds `<slug>.<field>` by the first field of that name in the shape of what the node has parked, a script
in the envelope that is flattened from a fixed path. The two are the same where nothing that is walked earlier
has a field of that name.
-/

namespace Mekhan

namespace SurfacePaths

open Infra HumanTask TokenShapes TokenShape

/-- A field of the name is somewhere in the shape. -/
inductive HasField (name : String) : TokenShape → Prop where
  | here {fields : List (String × TokenShape)} {s : TokenShape} : (name, s) ∈ fields → HasField name (.object fields)
  | inside {fields : List (String × TokenShape)} {e : String × TokenShape} :
      e ∈ fields → HasField name e.2 → HasField name (.object fields)
  | schema {raw : Json} {fields : List (String × TokenShape)} :
      HasField name (.object fields) → HasField name (.schema raw (.object fields))

/-- No field before the name has one of that name inside. -/
def Clear (fields : List (String × TokenShape)) (name : String) : Prop :=
  ∀ e ∈ fields, e.1 < name → ¬HasField name e.2

def fieldsOf : TokenShape → List (String × TokenShape)
  | .object fields => fields
  | _ => []

/-- Nothing that is walked before the declared field has its name. -/
def Unshadowed (g : WorkflowGraph) (node : WorkflowNode) (inbound : TokenShape) (name : String) : Prop :=
  match node.data with
  | .start initial processName => ∀ e ∈ portFields g.definitions initial, e.1 < name → e.1 ≠ "_instance_id" →
      ¬(processName.isSome ∧ e.1 = "_process_name") → ¬HasField name e.2
  | .humanTask steps _ => name ≠ "completed_at" ∧ name ≠ "data" ∧
      (∀ e ∈ fieldsOf inbound, e.1 < "data" → e.1 ≠ "completed_at" → e.1 ≠ name ∧ ¬HasField name e.2) ∧
      Clear (formFields g.definitions steps) name
  | .automatedStep output _ _ | .agent output =>
      name ≠ "detail" ∧ name ≠ "exit_code" ∧ name ≠ "outputs" ∧ Clear (portFields g.definitions output) name
  | .subWorkflow output => Clear (portFields g.definitions output) name
  | _ => True

/-- The path a guard takes is where the script takes the field from. -/
structure SameOnSurfaces (node : WorkflowNode) (name path : String) : Prop where
  guard : path = dotted (node.data.hoistPath ++ [name])
  script : ∀ token v, valueAt token (node.data.hoistPath ++ [name]) = some v →
    valueAt (hoistedEnvelope node.data.hoistPath token) [name] = some v

/-! ## The first field of a name -/

variable {name : String} {s : TokenShape} {fields : List (String × TokenShape)} {k : String} {path : List String}

theorem findIn_cons (name k : String) (s : TokenShape) (rest : List (String × TokenShape)) :
    findIn name ((k, s) :: rest) = if k = name then some [k] else
      match findLeaf name s with
      | some path => some (k :: path)
      | none => findIn name rest :=
  findIn.eq_2 name k s rest

theorem findIn_eq_none_iff : ∀ {fields : List (String × TokenShape)},
    findIn name fields = none ↔ ∀ e ∈ fields, e.1 ≠ name ∧ findLeaf name e.2 = none
  | [] => by simp [findIn]
  | (k, s) :: rest => by
    rw [findIn_cons, List.forall_mem_cons]
    by_cases hk : k = name
    · simp [hk]
    · cases findLeaf name s with
      | some path => simp [hk]
      | none => simp [hk, findIn_eq_none_iff]

mutual

theorem hasField_of_findLeaf : ∀ {s : TokenShape}, findLeaf name s ≠ none → HasField name s
  | .object fields, h => by
    rw [findLeaf] at h
    exact hasField_of_findIn h
  | .schema _ (.object fields), h => by
    rw [findLeaf] at h
    exact .schema (hasField_of_findIn h)
  | .array _, h | .scalar _, h | .any, h | .unexpanded _, h | .schema _ (.array _), h | .schema _ (.scalar _), h
  | .schema _ .any, h | .schema _ (.unexpanded _), h | .schema _ (.schema _ _), h => absurd (by simp [findLeaf]) h

theorem hasField_of_findIn : ∀ {fields : List (String × TokenShape)}, findIn name fields ≠ none →
    HasField name (.object fields)
  | [], h => absurd (by rw [findIn]) h
  | (k, s) :: rest, h => by
    rw [findIn_cons] at h
    by_cases hk : k = name
    · have hmem : (name, s) ∈ (k, s) :: rest := by
        rw [hk]
        exact List.mem_cons_self
      exact .here hmem
    · rw [if_neg hk] at h
      by_cases hs : findLeaf name s = none
      · rw [hs] at h
        cases hasField_of_findIn h with
        | here hmem => exact .here (List.mem_cons_of_mem _ hmem)
        | inside hmem hin => exact .inside (List.mem_cons_of_mem _ hmem) hin
      · exact .inside (e := (k, s)) List.mem_cons_self (hasField_of_findLeaf hs)

end

theorem findLeaf_eq_none_iff : findLeaf name s = none ↔ ¬HasField name s := by
  refine ⟨fun h hfield => ?_, fun h => by_contra fun hne => h (hasField_of_findLeaf hne)⟩
  induction hfield with
  | here hmem =>
    rw [findLeaf, findIn_eq_none_iff] at h
    exact (h _ hmem).1 rfl
  | inside hmem _ ih =>
    rw [findLeaf, findIn_eq_none_iff] at h
    exact ih (h _ hmem).2
  | schema _ ih =>
    rw [findLeaf] at h
    exact ih (by rw [findLeaf]; exact h)

theorem findIn_eq_some_iff : ∀ {fields : List (String × TokenShape)}, SortedEntries fields →
    (findIn name fields = some (k :: path) ↔ ∃ s, (k, s) ∈ fields ∧
      ((k = name ∧ path = []) ∨ (k ≠ name ∧ findLeaf name s = some path)) ∧
        ∀ e ∈ fields, e.1 < k → e.1 ≠ name ∧ ¬HasField name e.2)
  | [], _ => by simp [findIn]
  | (k₀, s₀) :: rest, hsorted => by
    have hlt : ∀ e ∈ rest, k₀ < e.1 := fun e he => hsorted.lt he
    rw [findIn_cons]
    by_cases hk₀ : k₀ = name
    · rw [if_pos hk₀]
      constructor
      · intro h
        obtain ⟨rfl, rfl⟩ := List.cons.inj (Option.some.inj h)
        refine ⟨s₀, List.mem_cons_self, .inl ⟨hk₀, rfl⟩, ?_⟩
        intro e he hek
        rcases List.mem_cons.mp he with rfl | he
        · exact absurd hek (lt_irrefl _)
        · exact absurd (hlt e he) hek.asymm
      · rintro ⟨s, hmem, hcase, hbefore⟩
        have hle : ¬k₀ < k := fun hlt' => (hbefore _ List.mem_cons_self hlt').1 hk₀
        rcases List.mem_cons.mp hmem with heq | hmem
        · cases heq
          rcases hcase with ⟨_, rfl⟩ | ⟨hne, _⟩
          · rfl
          · exact absurd hk₀ hne
        · exact absurd (hlt _ hmem) hle
    · rw [if_neg hk₀]
      cases hs₀ : findLeaf name s₀ with
      | some path₀ =>
        have hfield : HasField name s₀ := by_contra fun hno => by
          rw [findLeaf_eq_none_iff.mpr hno] at hs₀
          cases hs₀
        constructor
        · intro h
          obtain ⟨rfl, rfl⟩ := List.cons.inj (Option.some.inj h)
          refine ⟨s₀, List.mem_cons_self, .inr ⟨hk₀, hs₀⟩, ?_⟩
          intro e he hek
          rcases List.mem_cons.mp he with rfl | he
          · exact absurd hek (lt_irrefl _)
          · exact absurd (hlt e he) hek.asymm
        · rintro ⟨s, hmem, hcase, hbefore⟩
          have hle : ¬k₀ < k := fun hlt' => (hbefore _ List.mem_cons_self hlt').2 hfield
          rcases List.mem_cons.mp hmem with heq | hmem
          · cases heq
            rcases hcase with ⟨heq, _⟩ | ⟨_, hpath⟩
            · exact absurd heq hk₀
            · rw [hs₀] at hpath
              rw [Option.some.inj hpath]
          · exact absurd (hlt _ hmem) hle
      | none =>
        have hno : ¬HasField name s₀ := findLeaf_eq_none_iff.mp hs₀
        dsimp only
        rw [findIn_eq_some_iff hsorted.tail]
        constructor
        · rintro ⟨s, hmem, hcase, hbefore⟩
          refine ⟨s, List.mem_cons_of_mem _ hmem, hcase, ?_⟩
          intro e he hek
          rcases List.mem_cons.mp he with rfl | he
          · exact ⟨hk₀, hno⟩
          · exact hbefore e he hek
        · rintro ⟨s, hmem, hcase, hbefore⟩
          refine ⟨s, ?_, hcase, fun e he => hbefore e (List.mem_cons_of_mem _ he)⟩
          rcases List.mem_cons.mp hmem with heq | hmem
          · cases heq
            rcases hcase with ⟨heq, _⟩ | ⟨_, hpath⟩
            · exact absurd heq hk₀
            · rw [hs₀] at hpath
              cases hpath
          · exact hmem

mutual

theorem concat_of_findLeaf : ∀ {s : TokenShape} {path : List String}, findLeaf name s = some path →
    ∃ q, path = q ++ [name]
  | .object fields, _, h => by
    rw [findLeaf] at h
    exact concat_of_findIn h
  | .schema _ (.object fields), _, h => by
    rw [findLeaf] at h
    exact concat_of_findIn h
  | .array _, _, h | .scalar _, _, h | .any, _, h | .unexpanded _, _, h | .schema _ (.array _), _, h
  | .schema _ (.scalar _), _, h | .schema _ .any, _, h | .schema _ (.unexpanded _), _, h
  | .schema _ (.schema _ _), _, h => by simp [findLeaf] at h

theorem concat_of_findIn : ∀ {fields : List (String × TokenShape)} {path : List String},
    findIn name fields = some path → ∃ q, path = q ++ [name]
  | [], _, h => by simp [findIn] at h
  | (k, s) :: rest, path, h => by
    rw [findIn_cons] at h
    by_cases hk : k = name
    · rw [if_pos hk] at h
      exact ⟨[], by rw [← Option.some.inj h, hk]; rfl⟩
    · rw [if_neg hk] at h
      cases hs : findLeaf name s with
      | some inner =>
        rw [hs] at h
        obtain ⟨q, hq⟩ := concat_of_findLeaf hs
        exact ⟨k :: q, by rw [← Option.some.inj h, hq]; rfl⟩
      | none =>
        rw [hs] at h
        exact concat_of_findIn h

end

/-! ## Paths as they are written -/

/-- A name that is one segment of a path. -/
def DotFree (k : String) : Prop := '.' ∉ k.toList

instance (k : String) : Decidable (DotFree k) := inferInstanceAs (Decidable ('.' ∉ k.toList))

theorem dotted_cons (k : String) : ∀ {q : List String}, q ≠ [] → dotted (k :: q) = k ++ "." ++ dotted q
  | _ :: _, _ => rfl

theorem dotted_concat (f : String) : ∀ {q : List String}, q ≠ [] → dotted (q ++ [f]) = dotted q ++ "." ++ f
  | [k], _ => rfl
  | k :: k' :: q, _ => by
    have ih := dotted_concat f (List.cons_ne_nil k' q)
    rw [List.cons_append, dotted_cons k (by simp), ih, dotted_cons k (List.cons_ne_nil k' q)]
    simp only [String.append_assoc]

variable {h : String} {q : List String} {ty : ScalarTy} {v : TokenShape}

theorem eq_of_dotted_dotFree (hh : DotFree h) : ∀ {q : List String}, q ≠ [] → dotted q = h → q = [h]
  | [k], _, heq => by rw [← heq]; rfl
  | k :: k' :: q, _, heq => by
    rw [dotted_cons k (List.cons_ne_nil k' q)] at heq
    refine absurd ?_ hh
    rw [← heq]
    simp

theorem dotted_eq_leaf : dotted (q ++ [name]) = name ↔ q = [] := by
  constructor
  · intro h
    by_contra hq
    have hlen := congrArg String.length h
    rw [dotted_concat name hq, String.length_append, String.length_append] at hlen
    have hdot : ".".length = 1 := rfl
    omega
  · rintro rfl
    rfl

theorem dotted_eq_pair (hh : DotFree h) {q : List String} :
    dotted (q ++ [name]) = dotted [h, name] ↔ q = [h] := by
  constructor
  · intro heq
    have hq : q ≠ [] := by
      rintro rfl
      have hnil : [h] = [] := dotted_eq_leaf.mp heq.symm
      cases hnil
    rw [dotted_concat name hq] at heq
    have hpair : dotted [h, name] = h ++ "." ++ name := rfl
    rw [hpair, String.append_assoc, String.append_assoc] at heq
    exact eq_of_dotted_dotFree hh hq ((String.append_left_inj _).mp heq)
  · rintro rfl
    rfl

/-! ## Fields at the top, and one level below -/

theorem findIn_eq_leaf (hsorted : SortedEntries fields) (hdecl : ∃ s, (name, s) ∈ fields) :
    findIn name fields = some [name] ↔ Clear fields name := by
  rw [findIn_eq_some_iff hsorted]
  constructor
  · rintro ⟨_, _, _, hbefore⟩ e he hlt
    exact (hbefore e he hlt).2
  · obtain ⟨s, hs⟩ := hdecl
    exact fun hclear => ⟨s, hs, .inl ⟨rfl, rfl⟩, fun e he hlt => ⟨hlt.ne, hclear e he hlt⟩⟩

theorem findIn_eq_inside (hsorted : SortedEntries fields) (hmem : (k, s) ∈ fields) (hpath : path ≠ []) :
    findIn name fields = some (k :: path) ↔ k ≠ name ∧ findLeaf name s = some path ∧
      ∀ e ∈ fields, e.1 < k → e.1 ≠ name ∧ ¬HasField name e.2 := by
  rw [findIn_eq_some_iff hsorted]
  constructor
  · rintro ⟨s', hs', ⟨_, rfl⟩ | ⟨hne, hs⟩, hbefore⟩
    · exact absurd rfl hpath
    · obtain ⟨_, rfl⟩ := Prod.mk.inj (hsorted.eq_of_mem hs' hmem rfl)
      exact ⟨hne, hs, hbefore⟩
  · rintro ⟨hne, hs, hbefore⟩
    exact ⟨s, hmem, .inr ⟨hne, hs⟩, hbefore⟩

theorem not_hasField_scalar : ¬HasField name (.scalar ty) := by
  intro h
  cases h

/-! ## The kinds -/

variable {definitions : List (String × Json)}

theorem sorted_portFields (port : TokenShapes.Port) : SortedEntries (portFields definitions port) :=
  sorted_insertAll sortedEntries_nil

variable {g : WorkflowGraph} {output port : TokenShapes.Port}
  {arrived form : List (String × TokenShape)} {deep : Bool} {p : String} {node : WorkflowNode}

theorem exists_mem_portFields (h : ∃ f ∈ port.fields, f.name = name) :
    ∃ s, (name, s) ∈ portFields definitions port := by
  rw [portFields, exists_mem_insertAll sortedEntries_nil]
  obtain ⟨f, hf, rfl⟩ := h
  exact .inr ⟨_, List.mem_map.mpr ⟨f, hf, rfl⟩⟩

theorem clear_insertEntry (hsorted : SortedEntries fields) :
    Clear (insertEntry k (.scalar ty) fields) name ↔ ∀ e ∈ fields, e.1 < name → e.1 ≠ k → ¬HasField name e.2 := by
  unfold Clear
  simp only [mem_insertEntry hsorted]
  constructor
  · exact fun h e he hlt hne => h e (.inr ⟨he, hne⟩) hlt
  · rintro h e (rfl | ⟨he, hne⟩) hlt
    · exact not_hasField_scalar
    · exact h e he hlt hne

theorem exists_mem_insertEntry {k : String} (hsorted : SortedEntries fields) (h : ∃ s, (name, s) ∈ fields) :
    ∃ s, (name, s) ∈ insertEntry k v fields := by
  have hall : (∃ s, (name, s) ∈ insertAll fields [(k, v)]) ↔ (∃ s, (name, s) ∈ fields) ∨ ∃ s, (name, s) ∈ [(k, v)] :=
    exists_mem_insertAll hsorted
  exact hall.mpr (.inl h)

theorem findLeaf_start {initial : TokenShapes.Port} {processName : Option String}
    (hdecl : ∃ f ∈ initial.fields, f.name = name) :
    findLeaf name (outShapeStart definitions initial processName) = some [name] ↔
      ∀ e ∈ portFields definitions initial, e.1 < name → e.1 ≠ "_instance_id" →
        ¬(processName.isSome ∧ e.1 = "_process_name") → ¬HasField name e.2 := by
  have hsorted : SortedEntries (portFields definitions initial) := sorted_portFields initial
  have hmem := exists_mem_insertEntry (k := "_instance_id") (v := .scalar .string) hsorted
    (exists_mem_portFields hdecl)
  cases processName with
  | none =>
    have hout : outShapeStart definitions initial none =
        .object (insertEntry "_instance_id" (.scalar .string) (portFields definitions initial)) := rfl
    rw [hout, findLeaf, findIn_eq_leaf (sorted_insertEntry hsorted) hmem, clear_insertEntry hsorted]
    simp
  | some process =>
    have hout : outShapeStart definitions initial (some process) = .object (insertEntry "_process_name" (.scalar .string)
        (insertEntry "_instance_id" (.scalar .string) (portFields definitions initial))) := rfl
    have hsorted' := sorted_insertEntry (k := "_instance_id") (v := TokenShape.scalar .string) hsorted
    rw [hout, findLeaf, findIn_eq_leaf (sorted_insertEntry hsorted') (exists_mem_insertEntry hsorted' hmem),
      clear_insertEntry hsorted']
    simp only [mem_insertEntry hsorted]
    constructor
    · intro h e he hlt hinst hproc
      exact h e (.inr ⟨he, hinst⟩) hlt fun heq => hproc ⟨rfl, heq⟩
    · rintro h e (rfl | ⟨he, hne⟩) hlt hproc
      · exact not_hasField_scalar
      · exact h e he hlt hne fun hboth => hproc hboth.2

theorem findLeaf_subWorkflow {inShape : TokenShape} (hdecl : ∃ f ∈ output.fields, f.name = name) :
    findLeaf name (outShapeSubWorkflow definitions output inShape) = some [name] ↔
      Clear (portFields definitions output) name := by
  have hne : output.fields.isEmpty = false := by
    obtain ⟨f, hf, _⟩ := hdecl
    cases h : output.fields with
    | nil => rw [h] at hf; cases hf
    | cons _ _ => rfl
  rw [outShapeSubWorkflow, hne, if_neg (by simp), findLeaf,
    findIn_eq_leaf (sorted_portFields output) (exists_mem_portFields hdecl)]

/-- The envelope of an automated step, field by field. -/
def stepEnvelope (outputs : TokenShape) (holdsLease : Bool) : List (String × TokenShape) :=
  [("detail", .object [("exit_code", .scalar .number), ("outputs", outputs)]), ("execution_id", .scalar .string),
    ("job_id", .scalar .string)] ++
    (if holdsLease then [("lease", .unexpanded "typed pool lease (Lease__<backend>)")] else []) ++
    [("run", .scalar .number), ("source", .scalar .string), ("status", .scalar .string)]

theorem outShapeAutomatedStep_eq (hdecl : ∃ f ∈ output.fields, f.name = name) (holdsLease : Bool) :
    outShapeAutomatedStep definitions output holdsLease =
      .object (stepEnvelope (.object (portFields definitions output)) holdsLease) := by
  have hne : output.fields.isEmpty = false := by
    obtain ⟨f, hf, _⟩ := hdecl
    cases h : output.fields with
    | nil => rw [h] at hf; cases hf
    | cons _ _ => rfl
  unfold outShapeAutomatedStep
  rw [hne]
  cases holdsLease <;>
    simp (disch := decide) only [TokenShape.insert, insertEntry_nil, insertEntry_of_lt, insertEntry_of_gt, stepEnvelope,
      Bool.false_eq_true, if_false, if_true, List.append_nil, List.cons_append, List.nil_append]

/-- What an automated step has declared comes before all of its envelope but the names on the way there. -/
theorem findLeaf_stepEnvelope {ports : List (String × TokenShape)} (hdecl : ∃ s, (name, s) ∈ ports) (holdsLease : Bool) :
    findLeaf name (.object (stepEnvelope (.object ports) holdsLease)) =
      if name = "detail" then some ["detail"] else if name = "exit_code" then some ["detail", "exit_code"]
      else if name = "outputs" then some ["detail", "outputs"]
      else (findIn name ports).map (["detail", "outputs"] ++ ·) := by
  have hfound : findIn name ports ≠ none := by
    obtain ⟨s, hs⟩ := hdecl
    exact fun hnone => (findIn_eq_none_iff.mp hnone _ hs).1 rfl
  have hexit : findLeaf name (.scalar .number) = none := findLeaf_eq_none_iff.mpr not_hasField_scalar
  rw [findLeaf, stepEnvelope, List.cons_append, List.cons_append, findIn_cons]
  by_cases h₁ : name = "detail"
  · rw [if_pos h₁, if_pos h₁.symm]
  · rw [if_neg h₁, if_neg (Ne.symm h₁), findLeaf, findIn_cons]
    by_cases h₂ : name = "exit_code"
    · rw [if_pos h₂, if_pos h₂.symm]
    · rw [if_neg h₂, if_neg (Ne.symm h₂), hexit]
      dsimp only
      rw [findIn_cons]
      by_cases h₃ : name = "outputs"
      · rw [if_pos h₃, if_pos h₃.symm]
      · rw [if_neg h₃, if_neg (Ne.symm h₃), findLeaf]
        cases hports : findIn name ports with
        | none => exact absurd hports hfound
        | some path => rfl

/-- The path to a declared output is the one that is hoisted where none of the names in the way is its own. -/
theorem dotted_automatedStep (hdecl : ∃ f ∈ output.fields, f.name = name) {holdsLease : Bool}
    {q : List String} (h : findLeaf name (outShapeAutomatedStep definitions output holdsLease) = some q) :
    dotted q = dotted ["detail", "outputs", name] ↔
      name ≠ "detail" ∧ name ≠ "exit_code" ∧ name ≠ "outputs" ∧ Clear (portFields definitions output) name := by
  have hports : ∃ s, (name, s) ∈ portFields definitions output := exists_mem_portFields hdecl
  rw [outShapeAutomatedStep_eq hdecl, findLeaf_stepEnvelope hports] at h
  by_cases h₁ : name = "detail"
  · rw [if_pos h₁] at h
    cases h
    refine ⟨fun heq => ?_, fun hclear => absurd h₁ hclear.1⟩
    rw [h₁] at heq
    exact absurd heq (by decide)
  · rw [if_neg h₁] at h
    by_cases h₂ : name = "exit_code"
    · rw [if_pos h₂] at h
      cases h
      refine ⟨fun heq => ?_, fun hclear => absurd h₂ hclear.2.1⟩
      rw [h₂] at heq
      exact absurd heq (by decide)
    · rw [if_neg h₂] at h
      by_cases h₃ : name = "outputs"
      · rw [if_pos h₃] at h
        cases h
        refine ⟨fun heq => ?_, fun hclear => absurd h₃ hclear.2.2.1⟩
        rw [h₃] at heq
        exact absurd heq (by decide)
      · rw [if_neg h₃, Option.map_eq_some_iff] at h
        obtain ⟨inner, hinner, rfl⟩ := h
        obtain ⟨q, rfl⟩ := concat_of_findIn hinner
        rw [← findIn_eq_leaf (sorted_portFields output) hports, hinner]
        have hleft : dotted (["detail", "outputs"] ++ (q ++ [name])) = "detail" ++ "." ++ ("outputs" ++ "." ++
            dotted (q ++ [name])) := by
          rw [← dotted_cons "outputs" (by simp), ← dotted_cons "detail" (by simp)]
          rfl
        have hright : dotted ["detail", "outputs", name] = "detail" ++ "." ++ ("outputs" ++ "." ++ name) := rfl
        rw [hleft, hright, String.append_right_inj, String.append_right_inj, dotted_eq_leaf]
        constructor
        · rintro rfl
          exact ⟨h₁, h₂, h₃, rfl⟩
        · rintro ⟨_, _, _, heq⟩
          exact List.append_left_eq_self.mp (Option.some.inj heq)

/-- What a human task emits, field by field: what arrived, and over it what the task adds. -/
def taskFields (form arrived : List (String × TokenShape)) : List (String × TokenShape) :=
  insertEntry "steps" (.array .any) (insertAll (insertEntry "data" (.object form)
    (insertEntry "status" (.scalar .string) (insertEntry "task_id" (.scalar .string) arrived)))
      (taskEnvelope.map fun k => (k, .scalar .string)))

theorem outShapeStaticTask_object (steps : List TaskStepConfig) (arrived : List (String × TokenShape)) :
    outShapeStaticTask definitions steps (.object arrived) = .object (taskFields (formFields definitions steps) arrived) :=
  rfl

theorem outShapeStaticTask_other (steps : List TaskStepConfig) (h : s.isObject = false) :
    outShapeStaticTask definitions steps s = s := by
  cases s with
  | object fields => cases h
  | array _ => rfl
  | scalar _ => rfl
  | any => rfl
  | unexpanded _ => rfl
  | schema _ _ => rfl

theorem sorted_taskFields (h : SortedEntries arrived) : SortedEntries (taskFields form arrived) :=
  sorted_insertEntry (sorted_insertAll (sorted_insertEntry (sorted_insertEntry (sorted_insertEntry h))))

theorem mem_taskFields_of_lt (h : SortedEntries arrived)
    {e : String × TokenShape} (hlt : e.1 < "data") : e ∈ taskFields form arrived ↔
      e = ("completed_at", .scalar .string) ∨ (e ∈ arrived ∧ e.1 ≠ "completed_at") := by
  have hne : ∀ {k : String}, "data" ≤ k → e.1 ≠ k := fun hk heq => absurd (heq ▸ hlt) (not_lt.mpr hk)
  have henvelope : e.1 ∈ taskEnvelope ↔ e.1 = "completed_at" := by
    have hkeys : taskEnvelope = ["title", "instructions_mdsvex", "place", "net_id", "response_subject", "completed_at"] := rfl
    rw [hkeys]
    simp [hne (k := "title") (by decide), hne (k := "instructions_mdsvex") (by decide), hne (k := "place") (by decide),
      hne (k := "net_id") (by decide), hne (k := "response_subject") (by decide)]
  have h₁ := sorted_insertEntry (k := "task_id") (v := TokenShape.scalar .string) h
  have h₂ := sorted_insertEntry (k := "status") (v := TokenShape.scalar .string) h₁
  have h₃ := sorted_insertEntry (k := "data") (v := TokenShape.object form) h₂
  rw [taskFields, mem_insertEntry_of_ne (sorted_insertAll h₃) (hne (by decide)), mem_insertAll_const h₃, henvelope,
    mem_insertEntry_of_ne h₂ hlt.ne, mem_insertEntry_of_ne h₁ (hne (by decide)), mem_insertEntry_of_ne h (hne (by decide))]
  exact or_congr_left ⟨fun he => Prod.ext he.1 he.2, fun he => ⟨congrArg Prod.fst he, congrArg Prod.snd he⟩⟩

theorem data_mem_taskFields (h : SortedEntries arrived) :
    ("data", .object form) ∈ taskFields form arrived := by
  have h₂ := sorted_insertEntry (k := "status") (v := TokenShape.scalar .string)
    (sorted_insertEntry (k := "task_id") (v := TokenShape.scalar .string) h)
  have h₃ := sorted_insertEntry (k := "data") (v := TokenShape.object form) h₂
  have hsteps : ("data" : String) ≠ "steps" := by decide
  have henvelope : "data" ∉ taskEnvelope := by decide
  rw [taskFields, mem_insertEntry_of_ne (sorted_insertAll h₃) hsteps, mem_insertAll_const h₃]
  exact .inr ⟨(mem_insertEntry h₂).mpr (.inl rfl), henvelope⟩

theorem sorted_formFields (steps : List TaskStepConfig) : SortedEntries (formFields definitions steps) :=
  sorted_insertAll (sorted_portFields _)

/-- The path to a field of the form is the one that is hoisted where nothing that has arrived comes before it. -/
theorem dotted_humanTask {steps : List TaskStepConfig}
    (harrived : SortedEntries arrived) (hdecl : ∃ f ∈ (deriveHumanTaskOutputPort steps).fields, f.name = name)
    {q : List String} (h : findLeaf name (outShapeStaticTask definitions steps (.object arrived)) = some q) :
    dotted q = dotted ["data", name] ↔ name ≠ "completed_at" ∧ name ≠ "data" ∧
      (∀ e ∈ arrived, e.1 < "data" → e.1 ≠ "completed_at" → e.1 ≠ name ∧ ¬HasField name e.2) ∧
        Clear (formFields definitions steps) name := by
  have hform : ∃ s, (name, s) ∈ formFields definitions steps :=
    (exists_mem_insertAll (sorted_portFields _)).mpr (.inl (exists_mem_portFields hdecl))
  have hpath : dotted q = dotted ["data", name] ↔ q = ["data", name] := by
    obtain ⟨q, rfl⟩ := concat_of_findLeaf h
    rw [dotted_eq_pair (by decide)]
    constructor
    · rintro rfl
      rfl
    · exact fun heq => (List.append_inj' (heq : q ++ [name] = ["data"] ++ [name]) rfl).1
  have hfound : q = ["data", name] ↔ findIn name (taskFields (formFields definitions steps) arrived) =
      some ["data", name] := by
    rw [outShapeStaticTask_object, findLeaf] at h
    rw [h, Option.some_inj]
  rw [hpath, hfound, findIn_eq_inside (sorted_taskFields harrived) (data_mem_taskFields harrived) (by simp), findLeaf,
    findIn_eq_leaf (sorted_formFields steps) hform]
  constructor
  · rintro ⟨hdata, hclear, hbefore⟩
    refine ⟨?_, hdata.symm, ?_, hclear⟩
    · rintro rfl
      exact (hbefore _ ((mem_taskFields_of_lt harrived (by decide)).mpr (.inl rfl)) (by decide)).1 rfl
    · exact fun e he hlt hne => hbefore e ((mem_taskFields_of_lt harrived hlt).mpr (.inr ⟨he, hne⟩)) hlt
  · rintro ⟨hcompleted, hdata, harr, hclear⟩
    refine ⟨hdata.symm, hclear, fun e he hlt => ?_⟩
    rcases (mem_taskFields_of_lt harrived hlt).mp he with rfl | ⟨he, hne⟩
    · exact ⟨hcompleted.symm, not_hasField_scalar⟩
    · exact harr e he hlt hne

theorem dotted_bare (h : findLeaf name s = some q) : dotted q = name ↔ findLeaf name s = some [name] := by
  rw [h, Option.some_inj]
  obtain ⟨q, rfl⟩ := concat_of_findLeaf h
  rw [dotted_eq_leaf]
  constructor
  · rintro rfl
    rfl
  · exact List.append_left_eq_self.mp

/-! ## What arrives -/

/-- An object in the order of its names, and never a schema. -/
def IsToken : TokenShape → Prop
  | .object fields => SortedEntries fields
  | .schema _ _ => False
  | _ => True

theorem isToken_insert {k : String} (h : IsToken s) : IsToken (s.insert k v) := by
  cases s with
  | object fields => exact sorted_insertEntry h
  | array _ => trivial
  | scalar _ => trivial
  | any => trivial
  | unexpanded _ => trivial
  | schema _ _ => exact h

theorem isToken_foldl_insert {v : String → TokenShape} : ∀ {ks : List String} {s : TokenShape}, IsToken s →
    IsToken (ks.foldl (fun o k => o.insert k (v k)) s)
  | [], _, h => h
  | k :: _, s, h => isToken_foldl_insert (s := s.insert k (v k)) (isToken_insert h)

theorem sorted_mergeFields : ∀ {b a : List (String × TokenShape)}, SortedEntries a →
    SortedEntries (mergeFields deep a b)
  | [], _, h => h
  | _ :: b, _, h => by
    rw [mergeFields]
    exact sorted_mergeFields (sorted_insertEntry h)

theorem isToken_mergeFrom {other : TokenShape} (hs : IsToken s) (ho : IsToken other) :
    IsToken (s.mergeFrom deep other) := by
  cases other with
  | object b =>
    cases s with
    | object a =>
      rw [mergeFrom]
      exact sorted_mergeFields hs
    | array _ => exact ho
    | scalar _ => exact ho
    | any => exact ho
    | unexpanded _ => exact ho
    | schema _ _ => exact ho
  | array _ => trivial
  | scalar _ => trivial
  | any => trivial
  | unexpanded _ => trivial
  | schema _ _ => exact ho

theorem isToken_schemaWalk : ∀ {fuel : Nat} {raw : Json}, IsToken (schemaWalk definitions fuel raw)
  | 0, _ => by simp [schemaWalk, IsToken]
  | _ + 1, .null | _ + 1, .bool _ | _ + 1, .num _ | _ + 1, .str _ | _ + 1, .arr _ => by simp [schemaWalk, IsToken]
  | fuel + 1, .obj entries => by
    rw [schemaWalk]
    split
    · -- a pointer to a definition
      split
      · exact isToken_schemaWalk
      · trivial
    · split
      · trivial
      · split
        · split
          · exact sorted_insertAll sortedEntries_nil
          · exact sortedEntries_nil
        · trivial
        · trivial
        · trivial
        · trivial
        · trivial
        · split <;> trivial

theorem isToken_outShapeAutomatedStep {holdsLease : Bool} :
    IsToken (outShapeAutomatedStep definitions output holdsLease) := by
  have hempty : IsToken (.object []) := sortedEntries_nil
  rw [outShapeAutomatedStep]
  split
  · exact isToken_insert (isToken_insert (isToken_insert (isToken_insert (isToken_insert (isToken_insert
      (isToken_insert hempty))))))
  · exact isToken_insert (isToken_insert (isToken_insert (isToken_insert (isToken_insert (isToken_insert hempty)))))

theorem isToken_channelEdgeContribution {producer : WorkflowNode} {e : WorkflowEdge}
    (h : channelEdgeContribution definitions producer e = some s) : IsToken s := by
  unfold channelEdgeContribution at h
  obtain ⟨handle, _, h⟩ := Option.bind_eq_some_iff.mp h
  obtain ⟨ch, _, h⟩ := Option.bind_eq_some_iff.mp h
  dsimp only at h
  split at h
  · cases h
    exact sortedEntries_nil
  · split at h
    · cases h
      split
      · exact isToken_schemaWalk
      · trivial
      · trivial
    · cases h
      exact List.pairwise_singleton _ _

theorem isToken_outShape (node : WorkflowNode) (h : IsToken s) : IsToken (outShape definitions node s) := by
  rw [outShape]
  split
  · next initial processName _ =>
    have hports : IsToken (.object (portFields definitions initial)) := sorted_portFields initial
    rw [outShapeStart]
    split
    · exact isToken_insert (isToken_insert hports)
    · exact isToken_insert hports
  · split
    · exact isToken_insert (isToken_insert (isToken_insert (isToken_insert (isToken_insert (isToken_insert h)))))
    · exact isToken_insert (isToken_foldl_insert (isToken_insert (isToken_insert (isToken_insert h))))
  · exact isToken_outShapeAutomatedStep
  · exact isToken_outShapeAutomatedStep
  · rw [outShapeSubWorkflow]
    split
    · exact h
    · exact sorted_portFields _
  · exact isToken_insert h
  · exact isToken_insert h
  · exact isToken_insert h
  all_goals exact h

theorem isToken_addEdge {nodeOut : String → Option TokenShape}
    (hout : ∀ id s, nodeOut id = some s → IsToken s) {i : Inbound} {e : WorkflowEdge}
    (h : IsToken i.shape ∧ ∀ payload, i.nonObjectChannel = some payload → IsToken payload) :
    IsToken (addEdge g nodeOut deep i e).shape ∧
      ∀ payload, (addEdge g nodeOut deep i e).nonObjectChannel = some payload → IsToken payload := by
  rw [addEdge]
  split
  · next contrib hcontrib =>
    have hc : IsToken contrib := by
      obtain ⟨pred, _, hcontrib⟩ := Option.bind_eq_some_iff.mp hcontrib
      exact isToken_channelEdgeContribution hcontrib
    dsimp only
    split
    · exact ⟨isToken_mergeFrom h.1 hc, h.2⟩
    · refine ⟨h.1, fun payload hp => ?_⟩
      cases hp
      exact hc
  · split
    · next out hsome => exact ⟨isToken_mergeFrom h.1 (hout _ _ hsome), h.2⟩
    · exact h

theorem isToken_foldl_addEdge {nodeOut : String → Option TokenShape}
    (hout : ∀ id s, nodeOut id = some s → IsToken s) : ∀ {es : List WorkflowEdge} {i : Inbound},
    (IsToken i.shape ∧ ∀ payload, i.nonObjectChannel = some payload → IsToken payload) →
      IsToken (es.foldl (addEdge g nodeOut deep) i).result
  | [], i, h => by
    rw [List.foldl_nil, Inbound.result]
    split
    · trivial
    · split
      · next payload hp =>
        split
        · exact h.2 payload hp
        · trivial
      · exact h.1
  | _ :: es, _, h => by
    rw [List.foldl_cons]
    exact isToken_foldl_addEdge hout (isToken_addEdge hout h)

/-- What is known of the nodes so far: the shape that leaves is made from the one that arrived. -/
structure Known (g : WorkflowGraph) (r : ShapeReport) : Prop where
  token : ∀ id s, r.nodeOut id = some s → IsToken s
  made : ∀ id s, r.nodeOut id = some s → ∃ node inbound, g.find? id = some node ∧ r.nodeIn id = some inbound ∧
    IsToken inbound ∧ s = outShape g.definitions node inbound

theorem known_analyzeNode {r : ShapeReport} (h : Known g r) (id : String) : Known g (analyzeNode g r id) := by
  rw [analyzeNode]
  split
  · exact h
  · next node hnode =>
    have hin : IsToken ((incoming g id).foldl (addEdge g r.nodeOut (isDeepJoin node.data)) .start).result :=
      isToken_foldl_addEdge h.token ⟨sortedEntries_nil, fun _ hp => nomatch hp⟩
    generalize ((incoming g id).foldl (addEdge g r.nodeOut (isDeepJoin node.data)) .start).result = inbound at hin ⊢
    refine ⟨fun id' s hs => ?_, fun id' s hs => ?_⟩
    · dsimp only at hs
      by_cases hid : id' = id
      · rw [hid, Function.update_self] at hs
        cases hs
        exact isToken_outShape node hin
      · rw [Function.update_of_ne hid] at hs
        exact h.token id' s hs
    · dsimp only at hs ⊢
      by_cases hid : id' = id
      · subst hid
        rw [Function.update_self] at hs
        cases hs
        exact ⟨node, _, hnode, Function.update_self .., hin, rfl⟩
      · rw [Function.update_of_ne hid] at hs
        obtain ⟨node', inbound, hnode', hinbound, hmade⟩ := h.made id' s hs
        exact ⟨node', inbound, hnode', by rw [Function.update_of_ne hid]; exact hinbound, hmade⟩

theorem known_analyze (g : WorkflowGraph) (order : List String) : Known g (analyze g order) := by
  have hfold : ∀ {order : List String} {r : ShapeReport}, Known g r → Known g (order.foldl (analyzeNode g) r) := by
    intro order
    induction order with
    | nil => exact id
    | cons id order ih => exact fun h => ih (known_analyzeNode h id)
  have hempty : Known g .empty := by
    refine ⟨fun id s hs => ?_, fun id s hs => ?_⟩
    · cases hs
    · cases hs
  exact hfold hempty

/-! ## A reference that resolves -/

theorem eq_of_find? {n : WorkflowNode} (hnode : g.find? p = some node)
    (hn : n ∈ g.nodes) (hid : n.id = p) : n = node := by
  have hmem := List.mem_of_find?_eq_some hnode
  have hp : node.id = p := by simpa using List.find?_some hnode
  exact List.inj_on_of_nodup_map g.ids_nodup hn hmem (hid.trans hp.symm)

theorem any_kind_eq_false (hnode : g.find? p = some node)
    {t : Borrow.NodeKind → Bool} (hkind : t node.data.kind = false) :
    (g.nodes.any fun n => n.id = p && t n.data.kind) = false := by
  rw [Bool.eq_false_iff]
  intro hany
  obtain ⟨n, hn, hboth⟩ := List.any_eq_true.mp hany
  rw [Bool.and_eq_true, decide_eq_true_eq] at hboth
  rw [eq_of_find? hnode hn hboth.1, hkind] at hboth
  cases hboth.2

/-- The kinds whose fields are referred to by their names are not those that are keyed by them, nor a map. -/
theorem kind_of_firstOutputPort {data : NodeData} (h : data.firstOutputPort = some port) :
    data.kind ≠ .loop ∧ data.kind ≠ .leaseScope ∧ data.kind ≠ .map := by
  cases data with
  | start _ _ | humanTask _ _ | automatedStep _ _ _ | agent _ | subWorkflow _ =>
    refine ⟨?_, ?_, ?_⟩ <;> exact fun heq => nomatch heq
  | loop _ | leaseScope | map _ _ | join _ | streamSource _ | streamSink _ | «end» | decision | parallelSplit | scope
  | phaseUpdate | progressUpdate | failure | delay | timeout | trigger => cases h

section

variable {nodeOut : String → Option TokenShape} {root p prodId producerPath : String} {segs : List String}

theorem producer_of_resolveScoped (h : resolveScoped root segs prodId nodeOut = .borrow p producerPath) : prodId = p := by
  rw [resolveScoped] at h
  split at h
  · cases h
  · split at h
    · cases h
    · split at h
      · cases h
      · exact (RefResolution.borrow.inj h).1

theorem producer_of_resolveMap (h : resolveMap root segs prodId = .borrow p producerPath) : prodId = p := by
  rw [resolveMap] at h
  split at h
  · cases h
  · exact (RefResolution.borrow.inj h).1
  · cases h

theorem findByLeaf_of_resolveParked (h : resolveParked [name] prodId nodeOut = .borrow p producerPath) :
    prodId = p ∧ ∃ s, nodeOut p = some s ∧ s.findByLeaf name = some producerPath := by
  unfold resolveParked at h
  cases hout : nodeOut prodId with
  | none =>
    rw [hout] at h
    cases h
  | some shape =>
    rw [hout] at h
    dsimp only at h
    split at h
    · next phys hphys =>
      obtain ⟨rfl, hpath⟩ := RefResolution.borrow.inj h
      exact ⟨rfl, shape, hout, by rw [hphys, ← hpath]; rfl⟩
    · cases h

end

/-- Of a node whose fields are referred to by their names, the path is that of the first field of the name. -/
theorem findByLeaf_of_resolveRef {slugs : SlugIndex} {pos : String → Option Nat}
    {nodeOut : String → Option TokenShape} {knownGlobals : Option (List String)} {inShape : Option TokenShape}
    {consumer : WorkflowNode} {slug : String} (hnode : g.find? p = some node)
    (hport : node.data.firstOutputPort = some port) {producerPath : String}
    (h : resolveRef g slugs pos nodeOut knownGlobals inShape consumer ⟨.qualified slug, [name]⟩ =
      some (.borrow p producerPath)) : ∃ s, nodeOut p = some s ∧ s.findByLeaf name = some producerPath := by
  obtain ⟨hloop, hscope, hmap⟩ := kind_of_firstOutputPort hport
  have hscoped := any_kind_eq_false hnode (t := fun k => k = .loop || k = .leaseScope) (by simp [hloop, hscope])
  have hnomap := any_kind_eq_false hnode (t := fun k => k = .map) (by simp [hmap])
  rw [resolveRef] at h
  dsimp only at h
  split at h
  · cases h
  · split at h
    · split at h <;> cases h
    · next prodId _ =>
      split at h
      · -- a loop or a lease scope
        next hany =>
        rw [producer_of_resolveScoped (Option.some.inj h)] at hany
        rw [hscoped] at hany
        cases hany
      · split at h
        · cases h
        · cases h
        · split at h
          · next hany =>
            rw [producer_of_resolveMap (Option.some.inj h), hnomap] at hany
            cases hany
          · exact (findByLeaf_of_resolveParked (Option.some.inj h)).2

/-! ## The envelope of a script -/

theorem valueAt_append : ∀ {q q' : List String} {v : Json}, valueAt v (q ++ q') = (valueAt v q).bind (valueAt · q')
  | [], _, _ => rfl
  | k :: q, q', v => by
    rw [List.cons_append, valueAt, valueAt, Option.bind_assoc]
    exact congrArg _ (funext fun w => valueAt_append)

theorem hoistedEnvelope_get {hoist : List String} {token v : Json} (h : valueAt token (hoist ++ [name]) = some v) :
    valueAt (hoistedEnvelope hoist token) [name] = some v := by
  cases hoist with
  | nil => exact h
  | cons top rest =>
    rw [valueAt_append] at h
    obtain ⟨inner, hinner, hv⟩ := Option.bind_eq_some_iff.mp h
    obtain ⟨w, hw, hwv⟩ := Option.bind_eq_some_iff.mp hv
    cases inner with
    | obj entries =>
      have hbusiness : entries.lookup name = some v := by
        rw [← hwv]
        exact hw
      have henvelope : hoistedEnvelope (top :: rest) token = .obj (entries ++ (entriesOf token).filter fun e =>
          e.1 ≠ top && (entries.lookup e.1).isNone) := by
        rw [hoistedEnvelope, hinner]
        rfl
      rw [henvelope, valueAt, Json.get?, List.lookup_append, hbusiness]
      rfl
    | null => cases hw
    | bool _ => cases hw
    | num _ => cases hw
    | str _ => cases hw
    | arr _ => cases hw

/-! ## The surfaces -/

/-- **The guard and the script take a declared field from the same place exactly where nothing that comes before it
in the parked shape has its name.** -/
theorem surfaces_agree_iff {g : WorkflowGraph} {order : List String} {slugs : SlugIndex} {pos : String → Option Nat}
    {knownGlobals : Option (List String)} {inShape : Option TokenShape} {consumer node : WorkflowNode} {port : TokenShapes.Port}
    {slug p producerPath : String} (hnode : g.find? p = some node) (hport : node.data.firstOutputPort = some port)
    (hdecl : ∃ f ∈ port.fields, f.name = name)
    (h : resolveRef g slugs pos (analyze g order).nodeOut knownGlobals inShape consumer ⟨.qualified slug, [name]⟩ =
      some (.borrow p producerPath)) :
    SameOnSurfaces node name producerPath ↔ ∃ inbound, (analyze g order).nodeIn p = some inbound ∧
      Unshadowed g node inbound name := by
  obtain ⟨s, hs, hleaf⟩ := findByLeaf_of_resolveRef hnode hport h
  obtain ⟨node', inbound, hnode', hinbound, htoken, rfl⟩ := (known_analyze g order).made p s hs
  cases hnode.symm.trans hnode'
  obtain ⟨q, hq, rfl⟩ := Option.map_eq_some_iff.mp hleaf
  have hsame : SameOnSurfaces node name (dotted q) ↔ dotted q = dotted (node.data.hoistPath ++ [name]) :=
    ⟨fun h => h.guard, fun h => ⟨h, fun token v => hoistedEnvelope_get⟩⟩
  have hunshadowed : (∃ i, (analyze g order).nodeIn p = some i ∧ Unshadowed g node i name) ↔
      Unshadowed g node inbound name := by
    rw [hinbound]
    exact ⟨fun ⟨_, heq, hi⟩ => Option.some.inj heq ▸ hi, fun hi => ⟨_, rfl, hi⟩⟩
  rw [hsame, hunshadowed]
  unfold Unshadowed
  rw [outShape] at hq
  cases hdata : node.data with
  | start initial processName =>
    rw [hdata] at hq hport
    cases hport
    exact (dotted_bare hq).trans (findLeaf_start hdecl)
  | humanTask steps stepsRef =>
    rw [hdata] at hq hport
    cases hport
    cases stepsRef with
    | some _ =>
      obtain ⟨_, hf, _⟩ := hdecl
      cases hf
    | none =>
      have hstatic : findLeaf name (outShapeStaticTask g.definitions steps inbound) = some q := hq
      cases inbound with
      | object arrived => exact dotted_humanTask htoken hdecl hstatic
      | array _ | scalar _ | any | unexpanded _ =>
        rw [outShapeStaticTask_other steps rfl] at hstatic
        simp [findLeaf] at hstatic
      | schema _ _ => exact htoken.elim
  | automatedStep output pooled _ =>
    rw [hdata] at hq hport
    cases hport
    exact dotted_automatedStep hdecl hq
  | agent output =>
    rw [hdata] at hq hport
    cases hport
    exact dotted_automatedStep hdecl hq
  | subWorkflow output =>
    rw [hdata] at hq hport
    cases hport
    exact (dotted_bare hq).trans (findLeaf_subWorkflow hdecl)
  | loop _ | leaseScope | map _ _ | join _ | streamSource _ | streamSink _ | «end» | decision | parallelSplit | scope
  | phaseUpdate | progressUpdate | failure | delay | timeout | trigger =>
    rw [hdata] at hport
    cases hport

def amountField : TaskFieldConfig where
  name := "amount"
  label := "Amount"
  kind := .number
  required := none
  placeholder := none
  descriptionMdsvex := none
  options := none
  accept := none
  maxFileSize := none
  maxFiles := none
  signatureMode := none
  penColor := none
  min := none
  max := none
  step := none
  maxRating := none
  includeTime := none

def amountForm : List TaskStepConfig := [⟨"s1", "Check", none, [.input amountField]⟩]

def reviewNode : WorkflowNode := ⟨"review", "review", none, .humanTask amountForm none⟩

/-- A start node with a field of the name given, a human task that asks for an amount, and the end. -/
def review (startField : String) : WorkflowGraph where
  nodes :=
    [⟨"start", "start", none, .start ⟨[⟨startField, .number, none⟩]⟩ none⟩,
      reviewNode,
      ⟨"end", "end", none, .end⟩]
  edges := [⟨"start", "review", none, none, "sequence", none⟩, ⟨"review", "end", none, none, "sequence", none⟩]
  definitions := []
  ids_nodup := (by decide : ["start", "review", "end"].Nodup)

def reviewOrder : List String := ["start", "review", "end"]

def bySlug : SlugIndex where
  nodeFor := fun s => if s ∈ ["start", "review", "end"] then some s else none
  inj := by
    intro s s' n h h'
    split at h
    · split at h'
      · rw [Option.some.inj h, Option.some.inj h']
      · cases h'
    · cases h

/-- Where the end node finds `review.amount`. -/
def reviewAmount (startField : String) : Option RefResolution :=
  resolveRef (review startField) bySlug (Borrow.topoPos reviewOrder) (analyze (review startField) reviewOrder).nodeOut
    none none ⟨"end", "end", none, .end⟩ ⟨.qualified "review", ["amount"]⟩

theorem amount_declared : ∃ f ∈ (deriveHumanTaskOutputPort amountForm).fields, f.name = "amount" :=
  ⟨⟨"amount", .number, none⟩, List.mem_cons_self, rfl⟩

theorem surfaces_agree_iff_order : SameOnSurfaces reviewNode "amount" "data.amount" ↔
    ∃ inbound, (analyze (review "order") reviewOrder).nodeIn "review" = some inbound ∧
      Unshadowed (review "order") reviewNode inbound "amount" := by
  have hresolves : reviewAmount "order" = some (.borrow "review" "data.amount") := by decide
  exact surfaces_agree_iff rfl rfl amount_declared hresolves

/-- What the task has parked: the amount that came with the order, and the one of the form. -/
def parkedReview : Json :=
  .obj [("amount", .num (.posInt 10)), ("data", .obj [("amount", .num (.posInt 99))]), ("status", .str "completed")]

/-- Where the start node has a field of the same name, the guard reads that, and the script the one of the form. -/
theorem amount_of_start : (review "amount").find? "review" = some reviewNode ∧
      reviewNode.data.firstOutputPort = some (deriveHumanTaskOutputPort amountForm) ∧
      (∃ f ∈ (deriveHumanTaskOutputPort amountForm).fields, f.name = "amount") ∧
      reviewAmount "amount" = some (.borrow "review" "amount") ∧ ¬SameOnSurfaces reviewNode "amount" "amount" ∧
      valueAt parkedReview ["amount"] = some (.num (.posInt 10)) ∧
      valueAt (hoistedEnvelope reviewNode.data.hoistPath parkedReview) ["amount"] = some (.num (.posInt 99)) := by
  have hresolves : reviewAmount "amount" = some (.borrow "review" "amount") := by decide
  refine ⟨rfl, rfl, amount_declared, hresolves, ?_, rfl, rfl⟩
  intro h
  exact absurd h.guard (by decide)

end SurfacePaths

end Mekhan

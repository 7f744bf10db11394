import Mekhan.Infra.Delimiters
import Mekhan.Catalogue.QueryDsl
import Mathlib.Data.List.TakeWhile

/-!
# Placeholders

`{{ path }}` in the texts of a workflow: `parse_placeholder_segments`, `interpolate_to_rhai_expr` and
`json_to_rhai_interpolated` of `service/src/compiler/rhai_gen.rs`, and the scanner of
`service/src/compiler/placeholder_refs.rs`.

The code that is generated is kept as a tree of its expressions.

* `calls_interpolateToRhaiExpr` — what a text is interpolated with, body by body.
-/

namespace Mekhan

namespace Placeholder

open Infra QueryDsl

/-- A step of a placeholder's path. -/
inductive PathSegment where
  | field (name : String)
  | index (n : Nat)
  | indexAll
  deriving DecidableEq

/-! ## Paths -/

def isIdentStart (c : Char) : Bool := c.isAlpha || c = '_'

def isIdentPart (c : Char) : Bool := c.isAlphanum || c = '_'

/-- `ident`: the identifier in front of a text, and what follows it. -/
def ident : List Char → Option (List Char × List Char)
  | [] => none
  | c :: cs => if isIdentStart c then some (c :: cs.takeWhile isIdentPart, cs.dropWhile isIdentPart) else none

variable {l name rest : List Char} {segs : List PathSegment}

theorem length_of_ident (h : ident l = some (name, rest)) : rest.length < l.length := by
  cases l with
  | nil => cases h
  | cons c cs =>
    rw [ident] at h
    split at h
    · cases h
      exact Nat.lt_succ_of_le (List.dropWhile_suffix _).length_le
    · cases h

/-- The number in front of a closing bracket, as far as it is a `usize`, and what follows the bracket. -/
def bracketed (l : List Char) : Option (Nat × List Char) :=
  match l.dropWhile Char.isDigit with
  | ']' :: rest =>
    let digits := l.takeWhile Char.isDigit
    let n := digits.foldl (fun n c => 10 * n + (c.toNat - '0'.toNat)) 0
    if digits.isEmpty || 2 ^ 64 ≤ n then none else some (n, rest)
  | _ => none

variable {n : Nat} {inner : List Char}

theorem length_of_bracketed (h : bracketed l = some (n, rest)) : rest.length < l.length := by
  unfold bracketed at h
  split at h
  · next rest' hrest =>
    dsimp only at h
    split at h
    · cases h
    · obtain ⟨_, rfl⟩ := Prod.mk.inj (Option.some.inj h)
      have hle := (List.dropWhile_suffix (l := l) Char.isDigit).length_le
      rw [hrest, List.length_cons] at hle
      exact hle
  · cases h

/-- The segments behind the first name; anything else is no path. -/
def moreSegments (l : List Char) : Option (List PathSegment) :=
  match l with
  | [] => some []
  | '.' :: cs =>
    match _h : ident cs with
    | none => none
    | some (name, rest) => (moreSegments rest).map (.field (String.ofList name) :: ·)
  | '[' :: '*' :: ']' :: rest => (moreSegments rest).map (.indexAll :: ·)
  | '[' :: cs =>
    match _h : bracketed cs with
    | none => none
    | some (n, rest) => (moreSegments rest).map (.index n :: ·)
  | _ :: _ => none
termination_by l.length
decreasing_by
  · have := length_of_ident _h
    rw [List.length_cons]
    omega
  · simp only [List.length_cons]
    omega
  · have := length_of_bracketed _h
    rw [List.length_cons]
    omega

/-- A path starts with a name; white space around it is dropped. -/
def parsePlaceholderSegments (inner : List Char) : Option (List PathSegment) := do
  let (first, rest) ← ident (trim inner)
  let more ← moreSegments rest
  return .field (String.ofList first) :: more

/-! ## The characters of a path -/

theorem eq_of_ident (h : ident l = some (name, rest)) :
    l = name ++ rest ∧ name ≠ [] ∧ ∀ c ∈ name, isIdentPart c = true := by
  cases l with
  | nil => cases h
  | cons c cs =>
    rw [ident] at h
    split at h
    · next hstart =>
      cases h
      refine ⟨by rw [List.cons_append, List.takeWhile_append_dropWhile], by simp, ?_⟩
      intro x hx
      rcases List.mem_cons.mp hx with rfl | hx
      · unfold isIdentStart at hstart
        unfold isIdentPart Char.isAlphanum
        rw [Bool.or_eq_true] at hstart ⊢
        exact hstart.imp_left fun h => by rw [h]; rfl
      · exact List.mem_takeWhile_imp hx
    · cases h

theorem notMem_of_ident {c : Char} (hc : isIdentPart c = false)
    (h : ident l = some (name, rest)) (hrest : c ∉ rest) : c ∉ l := by
  obtain ⟨rfl, _, hname⟩ := eq_of_ident h
  rw [List.mem_append]
  rintro (hmem | hmem)
  · rw [hname c hmem] at hc
    cases hc
  · exact hrest hmem

theorem notMem_of_bracketed (h : bracketed l = some (n, rest)) (hrest : '}' ∉ rest) : '}' ∉ l := by
  unfold bracketed at h
  split at h
  · next rest' hdrop =>
    dsimp only at h
    split at h
    · cases h
    · obtain ⟨_, rfl⟩ := Prod.mk.inj (Option.some.inj h)
      rw [← List.takeWhile_append_dropWhile (p := Char.isDigit) (l := l), hdrop, List.mem_append, List.mem_cons]
      rintro (hmem | hmem | hmem)
      · exact absurd (List.mem_takeWhile_imp (p := Char.isDigit) hmem) (by decide)
      · exact absurd hmem (by decide)
      · exact hrest hmem
  · cases h

theorem notMem_of_moreSegments (h : moreSegments l = some segs) : '}' ∉ l := by
  induction l using moreSegments.induct generalizing segs with
  | case1 => exact List.not_mem_nil
  | case2 cs hident => rw [moreSegments, hident] at h; cases h
  | case3 cs name rest hident ih =>
    rw [moreSegments, hident] at h
    obtain ⟨more, hmore, _⟩ := Option.map_eq_some_iff.mp h
    have hcs := notMem_of_ident (c := '}') (by decide) hident (ih hmore)
    exact fun hmem => (List.mem_cons.mp hmem).elim (by decide) hcs
  | case4 rest ih =>
    rw [moreSegments] at h
    obtain ⟨more, hmore, _⟩ := Option.map_eq_some_iff.mp h
    have hrest := ih hmore
    simp only [List.mem_cons, not_or]
    exact ⟨by decide, by decide, by decide, hrest⟩
  | case5 cs hshape hbracketed => rw [moreSegments, hbracketed] at h <;> first | exact hshape | cases h
  | case6 cs hshape n rest hbracketed ih =>
    rw [moreSegments, hbracketed] at h
    · obtain ⟨more, hmore, _⟩ := Option.map_eq_some_iff.mp h
      have hcs := notMem_of_bracketed hbracketed (ih hmore)
      exact fun hmem => (List.mem_cons.mp hmem).elim (by decide) hcs
    · exact hshape
  | case7 c cs => rw [moreSegments] at h <;> first | assumption | cases h

theorem parsePlaceholderSegments_eq_some (h : parsePlaceholderSegments inner = some segs) : ∃ first rest more,
      ident (trim inner) = some (first, rest) ∧ moreSegments rest = some more ∧
        segs = .field (String.ofList first) :: more := by
  unfold parsePlaceholderSegments at h
  simp only [Option.bind_eq_bind, Option.bind_eq_some_iff, Option.pure_def, Option.some.injEq, Prod.exists] at h
  obtain ⟨first, rest, hident, more, hmore, rfl⟩ := h
  exact ⟨first, rest, more, hident, hmore, rfl⟩

theorem notMem_of_parse (h : parsePlaceholderSegments inner = some segs) : '}' ∉ trim inner := by
  obtain ⟨first, rest, more, hident, hmore, _⟩ := parsePlaceholderSegments_eq_some h
  exact notMem_of_ident (by decide) hident (notMem_of_moreSegments hmore)

theorem eq_cons_of_moreSegments {name : String} {more : List PathSegment}
    (h : moreSegments l = some (.field name :: more)) : ∃ cs, l = '.' :: cs := by
  rw [moreSegments.eq_def] at h
  split at h
  · cases h
  · next cs => exact ⟨cs, rfl⟩
  · obtain ⟨_, _, heq⟩ := Option.map_eq_some_iff.mp h
    cases heq
  · split at h
    · cases h
    · obtain ⟨_, _, heq⟩ := Option.map_eq_some_iff.mp h
      cases heq
  · cases h

/-! ## Generated code -/

/-- A call of `__pluck`: the variable it starts from and the path. -/
structure Pluck where
  root : String
  segs : List PathSegment
  deriving DecidableEq

/-- A path with a wildcard has no single value to read. -/
def placeholderToAccessor (inner : List Char) : Option Pluck := do
  let segs ← parsePlaceholderSegments inner
  if .indexAll ∈ segs then none else return ⟨"input", segs⟩

/-- Text that stays, or a value that is read. -/
inductive Piece where
  | lit (text : String)
  | expr (call : Pluck)
  deriving DecidableEq

/-- The expressions an injection consists of. -/
inductive Rhai where
  /-- `json_to_rhai_literal`. -/
  | literal (v : Json)
  | concat (pieces : List Piece)
  | pluck (call : Pluck)
  | array (elems : List Rhai)
  | map (entries : List (String × Rhai))

/-- Placeholders stand between double braces. -/
def braces : Delimiters Char where
  opening := ['{', '{']
  closing := ['}', '}']
  opening_ne := by decide
  closing_ne := by decide
  disjoint := by simp

def litPiece (lit : List Char) : List Piece := if lit.isEmpty then [] else [.lit (String.ofList lit)]

/-- The loop of `interpolate_to_rhai_expr`: the pieces that end with a placeholder, and the text after them. -/
def interpolateLoop (lit rest : List Char) : List Piece × List Char :=
  match _h : braces.next rest with
  | none => ([], lit ++ rest)
  | some (before, inner, after) =>
    match placeholderToAccessor inner with
    | some accessor =>
      let out := interpolateLoop [] after
      (litPiece (lit ++ before) ++ .expr accessor :: out.1, out.2)
    -- Not a valid path: the braces stay, and what is between them is looked through once more.
    | none => interpolateLoop (lit ++ before ++ braces.opening) (inner ++ braces.closing ++ after)
termination_by rest.length
decreasing_by
  · exact (Delimiters.length_of_next _h).2
  · exact (Delimiters.length_of_next _h).1

/-- Text without a placeholder stays the literal it is. -/
def interpolateToRhaiExpr (raw : String) : Rhai :=
  let out := interpolateLoop [] raw.toList
  if out.1.isEmpty then .literal (.str raw) else .concat (out.1 ++ litPiece out.2)

mutual

/-- Interpolates every text of a value, not the keys. -/
def jsonToRhaiInterpolated : Json → Rhai
  | .str s => interpolateToRhaiExpr s
  | .arr elems => .array (elemsToRhai elems)
  | .obj entries => .map (entriesToRhai entries)
  | other => .literal other

def elemsToRhai : List Json → List Rhai
  | [] => []
  | v :: vs => jsonToRhaiInterpolated v :: elemsToRhai vs

def entriesToRhai : List (String × Json) → List (String × Rhai)
  | [] => []
  | (k, v) :: vs => (k, jsonToRhaiInterpolated v) :: entriesToRhai vs

end

/-! ## The scanner -/

/-- What the validator checks of a placeholder: its first two names. -/
structure PlaceholderRef where
  head : String
  attr : String
  deriving DecidableEq

/-- A placeholder of one name refers to nothing. -/
def scanBody (inner : List Char) : Option PlaceholderRef :=
  match parsePlaceholderSegments inner with
  | some (.field head :: .field attr :: _) => some ⟨head, attr⟩
  | _ => none

/-- The references of a text in the order they stand. -/
def scanPlaceholders (raw : String) : List PlaceholderRef := (braces.bodies raw.toList).filterMap scanBody

/-! ## Calls -/

def Piece.call? : Piece → Option Pluck
  | .lit _ => none
  | .expr call => some call

def Piece.mapCalls (f : Pluck → Pluck) : Piece → Piece
  | .lit text => .lit text
  | .expr call => .expr (f call)

namespace Rhai

mutual

/-- The calls of `__pluck` in an expression. -/
def calls : Rhai → List Pluck
  | .literal _ => []
  | .concat pieces => pieces.filterMap Piece.call?
  | .pluck call => [call]
  | .array elems => elemsCalls elems
  | .map entries => entriesCalls entries

def elemsCalls : List Rhai → List Pluck
  | [] => []
  | e :: es => e.calls ++ elemsCalls es

def entriesCalls : List (String × Rhai) → List Pluck
  | [] => []
  | (_, e) :: es => e.calls ++ entriesCalls es

end

mutual

/-- The expression with each call replaced. -/
def mapCalls (f : Pluck → Pluck) : Rhai → Rhai
  | .literal v => .literal v
  | .concat pieces => .concat (pieces.map (·.mapCalls f))
  | .pluck call => .pluck (f call)
  | .array elems => .array (elemsMapCalls f elems)
  | .map entries => .map (entriesMapCalls f entries)

def elemsMapCalls (f : Pluck → Pluck) : List Rhai → List Rhai
  | [] => []
  | e :: es => e.mapCalls f :: elemsMapCalls f es

def entriesMapCalls (f : Pluck → Pluck) : List (String × Rhai) → List (String × Rhai)
  | [] => []
  | (k, e) :: es => (k, e.mapCalls f) :: entriesMapCalls f es

end

theorem filterMap_call?_mapCalls (f : Pluck → Pluck) (pieces : List Piece) :
    (pieces.map (·.mapCalls f)).filterMap Piece.call? = (pieces.filterMap Piece.call?).map f := by
  induction pieces with
  | nil => rfl
  | cons p pieces ih =>
    cases p with
    | lit text => exact ih
    | expr call => exact congrArg (f call :: ·) ih

mutual

theorem calls_mapCalls (f : Pluck → Pluck) : ∀ e : Rhai, (e.mapCalls f).calls = e.calls.map f
  | .literal _ => rfl
  | .concat pieces => by rw [mapCalls, calls, calls, filterMap_call?_mapCalls]
  | .pluck _ => rfl
  | .array elems => by rw [mapCalls, calls, calls, elemsCalls_mapCalls f elems]
  | .map entries => by rw [mapCalls, calls, calls, entriesCalls_mapCalls f entries]

theorem elemsCalls_mapCalls (f : Pluck → Pluck) : ∀ es : List Rhai,
    elemsCalls (elemsMapCalls f es) = (elemsCalls es).map f
  | [] => rfl
  | e :: es => by rw [elemsMapCalls, elemsCalls, elemsCalls, calls_mapCalls f e, elemsCalls_mapCalls f es,
      List.map_append]

theorem entriesCalls_mapCalls (f : Pluck → Pluck) : ∀ es : List (String × Rhai),
    entriesCalls (entriesMapCalls f es) = (entriesCalls es).map f
  | [] => rfl
  | (k, e) :: es => by rw [entriesMapCalls, entriesCalls, entriesCalls, calls_mapCalls f e,
      entriesCalls_mapCalls f es, List.map_append]

end

end Rhai

theorem filterMap_call?_litPiece (lit : List Char) : (litPiece lit).filterMap Piece.call? = [] := by
  unfold litPiece
  split <;> rfl

/-- The placeholders of the loop are those of a reader that goes on after the braces it does not understand. -/
theorem calls_interpolateLoop (lit rest : List Char) :
    (interpolateLoop lit rest).1.filterMap Piece.call? = braces.rescan placeholderToAccessor rest := by
  induction hn : rest.length using Nat.strongRecOn generalizing lit rest with
  | _ n ih =>
    rw [interpolateLoop]
    split
    · next hnext => rw [Delimiters.rescan_of_none hnext]; rfl
    · next before inner after hnext =>
      have hlen := Delimiters.length_of_next hnext
      rw [Delimiters.rescan_of_some hnext]
      cases placeholderToAccessor inner with
      | some accessor =>
        dsimp only
        rw [List.filterMap_append, filterMap_call?_litPiece, List.nil_append, List.filterMap_cons]
        exact congrArg (accessor :: ·) (ih _ (hn ▸ hlen.2) [] after rfl)
      | none => exact ih _ (hn ▸ hlen.1) _ _ rfl

theorem calls_interpolateToRhaiExpr (raw : String) : (interpolateToRhaiExpr raw).calls =
      (braces.bodies raw.toList).filterMap (braces.readInside placeholderToAccessor) := by
  rw [← Delimiters.rescan_eq, ← calls_interpolateLoop [] raw.toList]
  unfold interpolateToRhaiExpr
  dsimp only
  split
  · next hempty => rw [List.isEmpty_iff.mp hempty]; rfl
  · rw [Rhai.calls, List.filterMap_append, filterMap_call?_litPiece, List.append_nil]

end Placeholder

end Mekhan

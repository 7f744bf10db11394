import Mekhan.Infra.WhiteSpace

/-!
# Equi-join constraints of a guard

`application/src/join_index.rs`: the equalities `a.path == b.path` a guard's source has as conjuncts
of its root. The scanner is on characters where the source is on bytes; every byte it compares is
ASCII, so the two see the same operators.
-/

namespace Mekhan

structure JoinConstraint where
  portA : String
  pathA : List String
  portB : String
  pathB : List String
  deriving DecidableEq

namespace JoinIndex

open Infra

/-- The three quotes: double, single and back. -/
def isQuote (c : Char) : Bool := c.toNat = 34 || c.toNat = 39 || c.toNat = 96

def isOpen (c : Char) : Bool := c = '(' || c = '[' || c = '\x7b'

def isClose (c : Char) : Bool := c = ')' || c = ']' || c = '\x7d'

/-- Positions of the doubled character `c` at depth 0, outside string and character literals.
`depth`, `quote` and `i` are the scanner's state at the rest of the text. -/
def topLevelDoubleFrom (c : Char) (depth : Int) (quote : Option Char) (i : Nat) :
    List Char → List Nat
  | [] => []
  | [_] => []
  | ch :: next :: rest =>
    match quote with
    | some q =>
      if ch = '\\' then topLevelDoubleFrom c depth quote (i + 2) rest
      else topLevelDoubleFrom c depth (if ch = q then none else quote) (i + 1) (next :: rest)
    | none =>
      if isQuote ch then topLevelDoubleFrom c depth (some ch) (i + 1) (next :: rest)
      else if isOpen ch then topLevelDoubleFrom c (depth + 1) none (i + 1) (next :: rest)
      else if isClose ch then topLevelDoubleFrom c (depth - 1) none (i + 1) (next :: rest)
      else if ch = c ∧ depth = 0 ∧ next = c then i :: topLevelDoubleFrom c depth none (i + 2) rest
      else topLevelDoubleFrom c depth none (i + 1) (next :: rest)

def topLevelDouble (c : Char) (s : List Char) : List Nat := topLevelDoubleFrom c 0 none 0 s

/-- The segments between the positions; `start` is where the current segment begins. -/
def segmentsFrom (s : List Char) : Nat → List Nat → List (List Char)
  | start, [] => [s.drop start]
  | start, pos :: rest => (s.drop start).take (pos - start) :: segmentsFrom s (pos + 2) rest

def splitTopLevel (c : Char) (s : List Char) : List (List Char) :=
  segmentsFrom s 0 (topLevelDouble c s)

/-- Position of the first `==` at depth 0 that is not part of `!=`, `<=`, `>=` or `===`. -/
def topLevelEqFrom (depth : Int) (quote : Option Char) (prev : Option Char) (i : Nat) :
    List Char → Option Nat
  | [] => none
  | [_] => none
  | ch :: next :: rest =>
    match quote with
    | some q =>
      if ch = '\\' then topLevelEqFrom depth quote (some next) (i + 2) rest
      else topLevelEqFrom depth (if ch = q then none else quote) (some ch) (i + 1) (next :: rest)
    | none =>
      if isQuote ch then topLevelEqFrom depth (some ch) (some ch) (i + 1) (next :: rest)
      else if isOpen ch then topLevelEqFrom (depth + 1) none (some ch) (i + 1) (next :: rest)
      else if isClose ch then topLevelEqFrom (depth - 1) none (some ch) (i + 1) (next :: rest)
      else if ch = '=' ∧ depth = 0 ∧ next = '=' ∧ prev ≠ some '!' ∧ prev ≠ some '<' ∧
          prev ≠ some '>' ∧ prev ≠ some '=' ∧ rest.head? ≠ some '=' then some i
      else topLevelEqFrom depth none (some ch) (i + 1) (next :: rest)

def topLevelEq (s : List Char) : Option Nat := topLevelEqFrom 0 none none 0 s

def isAsciiAlphabetic (c : Char) : Bool := ('a' ≤ c && c ≤ 'z') || ('A' ≤ c && c ≤ 'Z')

def isIdent : List Char → Bool
  | [] => false
  | c :: rest => (isAsciiAlphabetic c || c = '_') &&
      rest.all fun d => isAsciiAlphabetic d || ('0' ≤ d && d ≤ '9') || d = '_'

/-- `split('.')`. -/
def splitDot : List Char → List (List Char)
  | [] => [[]]
  | c :: rest =>
    if c = '.' then [] :: splitDot rest
    else
      match splitDot rest with
      | seg :: segs => (c :: seg) :: segs
      | [] => [[c]]

/-- `ident(.ident)+` as a port and its field path. -/
def parsePortPath (expr : List Char) : Option (String × List String) :=
  let segments := (splitDot expr).map trim
  if segments.all isIdent then
    match segments.map String.ofList with
    | port :: field :: fields => some (port, field :: fields)
    | _ => none
  else none

def parseEquiJoin (conjunct : List Char) : Option JoinConstraint := do
  let eq ← topLevelEq conjunct
  let (portA, pathA) ← parsePortPath (conjunct.take eq)
  let (portB, pathB) ← parsePortPath (conjunct.drop (eq + 2))
  if portA = portB ∨ pathA = [] ∨ pathB = [] then none
  else some ⟨portA, pathA, portB, pathB⟩

/-! ## The splitter -/

section Splitter

variable {c : Char} {depth : Int} {quote : Option Char} {i k : Nat} {s : List Char}

theorem topLevelDoubleFrom_add : topLevelDoubleFrom c depth quote (i + k) s =
    (topLevelDoubleFrom c depth quote i s).map (· + k) := by
  fun_induction topLevelDoubleFrom c depth quote i s <;> rw [topLevelDoubleFrom] <;>
    simp_all [Nat.add_right_comm]

theorem topLevelDoubleFrom_cons {p : Nat} {ps : List Nat} (h : topLevelDoubleFrom c depth quote i s = p :: ps) :
    ∃ l r, s = l ++ c :: c :: r ∧ p = i + l.length ∧ ps = topLevelDoubleFrom c 0 none (p + 2) r := by
  -- A character before the operator is one more on the left.
  have hmore : ∀ (x : Char) {i : Nat} {s : List Char},
      (∃ l r, s = l ++ c :: c :: r ∧ p = i + 1 + l.length ∧ ps = topLevelDoubleFrom c 0 none (p + 2) r) →
      ∃ l r, x :: s = l ++ c :: c :: r ∧ p = i + l.length ∧ ps = topLevelDoubleFrom c 0 none (p + 2) r := by
    rintro x i s ⟨l, r, rfl, rfl, hps⟩
    exact ⟨x :: l, r, rfl, by rw [List.length_cons]; omega, hps⟩
  fun_induction topLevelDoubleFrom c depth quote i s with
  | case1 => cases h
  | case2 => cases h
  | case3 depth i next rest q ih => exact hmore '\\' (hmore next (ih h))
  | case4 depth i ch next rest q hch ih => exact hmore ch (ih h)
  | case5 depth i ch next rest hch ih => exact hmore ch (ih h)
  | case6 depth i ch next rest hch hopen ih => exact hmore ch (ih h)
  | case7 depth i ch next rest hch hopen hclose ih => exact hmore ch (ih h)
  | case8 depth i ch next rest hquote hopen hclose hop ih =>
    obtain ⟨rfl, rfl, rfl⟩ := hop
    cases h
    exact ⟨[], rest, rfl, rfl, rfl⟩
  | case9 depth i ch next rest hch hopen hclose hop ih => exact hmore ch (ih h)

theorem segmentsFrom_add (u : List Char) : ∀ (start : Nat) (ps : List Nat),
    segmentsFrom (u ++ s) (u.length + start) (ps.map (· + u.length)) = segmentsFrom s start ps
  | start, [] => by rw [List.map_nil, segmentsFrom, segmentsFrom, List.drop_length_add_append]
  | start, p :: ps => by
    have hlength : p + u.length - (u.length + start) = p - start := by omega
    have hnext : p + u.length + 2 = u.length + (p + 2) := by omega
    rw [List.map_cons, segmentsFrom, segmentsFrom, List.drop_length_add_append, hlength, hnext, segmentsFrom_add u (p + 2) ps]

/-- **The splitter splits at the first operator and goes on after it.** -/
theorem splitTopLevel_cases (c : Char) (s : List Char) : (topLevelDouble c s = [] ∧ splitTopLevel c s = [s]) ∨
      ∃ l r, s = l ++ c :: c :: r ∧ splitTopLevel c s = l :: splitTopLevel c r ∧
        topLevelDouble c s = l.length :: (topLevelDouble c r).map (· + (l.length + 2)) := by
  cases hps : topLevelDouble c s with
  | nil => exact .inl ⟨rfl, by rw [splitTopLevel, hps, segmentsFrom, List.drop_zero]⟩
  | cons p ps =>
    obtain ⟨l, r, rfl, rfl, rfl⟩ := topLevelDoubleFrom_cons hps
    have hlater : topLevelDoubleFrom c 0 none (0 + l.length + 2) r = (topLevelDouble c r).map (· + (l.length + 2)) := by
      rw [Nat.add_assoc, topLevelDoubleFrom_add, topLevelDouble]
    rw [hlater, Nat.zero_add] at hps ⊢
    refine .inr ⟨l, r, rfl, ?_, rfl⟩
    have hrest := segmentsFrom_add (s := r) (l ++ [c, c]) 0 (topLevelDouble c r)
    simp only [List.length_append, List.length_cons, List.length_nil, List.append_assoc, List.cons_append,
      List.nil_append] at hrest
    rw [splitTopLevel, hps, segmentsFrom, List.drop_zero, Nat.sub_zero, List.take_left]
    exact congrArg (l :: ·) hrest

theorem topLevelEqFrom_spec {prev : Option Char} {p : Nat} (h : topLevelEqFrom depth quote prev i s = some p) :
    ∃ l r, s = l ++ '=' :: '=' :: r ∧ p = i + l.length := by
  have hmore : ∀ (x : Char) {i : Nat} {s : List Char}, (∃ l r, s = l ++ '=' :: '=' :: r ∧ p = i + 1 + l.length) →
      ∃ l r, x :: s = l ++ '=' :: '=' :: r ∧ p = i + l.length := by
    rintro x i s ⟨l, r, rfl, rfl⟩
    exact ⟨x :: l, r, rfl, by rw [List.length_cons]; omega⟩
  fun_induction topLevelEqFrom depth quote prev i s with
  | case1 => cases h
  | case2 => cases h
  | case3 depth prev i next rest q ih => exact hmore '\\' (hmore next (ih h))
  | case4 depth prev i ch next rest q hch ih => exact hmore ch (ih h)
  | case5 depth prev i ch next rest hquote ih => exact hmore ch (ih h)
  | case6 depth prev i ch next rest hquote hopen ih => exact hmore ch (ih h)
  | case7 depth prev i ch next rest hquote hopen hclose ih => exact hmore ch (ih h)
  | case8 depth prev i ch next rest hquote hopen hclose hop =>
    obtain ⟨rfl, -, rfl, -⟩ := hop
    exact ⟨[], rest, rfl, Option.some.inj h.symm⟩
  | case9 depth prev i ch next rest hquote hopen hclose hop ih => exact hmore ch (ih h)

end Splitter

/-! ## Paths -/

structure NameText (name : String) (text : List Char) : Prop where
  ident : isIdent name.toList = true
  text : ∃ u v, text = u ++ name.toList ++ v ∧ u.all isWhitespace = true ∧ v.all isWhitespace = true

inductive PathText : List String → List Char → Prop
  | last {name text} : NameText name text → PathText [name] text
  | cons {name text names rest} : NameText name text → PathText names rest →
    PathText (name :: names) (text ++ '.' :: rest)

section Paths

variable {text : List Char}

theorem nameText_of_trim (h : isIdent (trim text) = true) : NameText (String.ofList (trim text)) text := by
  obtain ⟨u, v, htext, hu, hv⟩ := trim_spec text
  exact ⟨by rwa [String.toList_ofList], u, v, by rwa [String.toList_ofList], hu, hv⟩

theorem splitDot_ne_nil : ∀ text : List Char, splitDot text ≠ []
  | [] => List.cons_ne_nil _ _
  | c :: text => by
    rw [splitDot]
    split
    · exact List.cons_ne_nil _ _
    · split <;> exact List.cons_ne_nil _ _

theorem splitDot_spec : ∀ {text seg : List Char} {segs : List (List Char)}, splitDot text = seg :: segs →
    (text = seg ∧ segs = []) ∨ ∃ rest, text = seg ++ '.' :: rest ∧ splitDot rest = segs
  | [], seg, segs, h => by
    cases h
    exact .inl ⟨rfl, rfl⟩
  | c :: text, seg, segs, h => by
    rw [splitDot] at h
    split at h
    · next hdot =>
      cases h
      exact .inr ⟨text, by rw [hdot, List.nil_append], rfl⟩
    · split at h
      · next seg' segs' hsplit =>
        cases h
        rcases splitDot_spec hsplit with ⟨rfl, rfl⟩ | ⟨rest, rfl, hrest⟩
        · exact .inl ⟨rfl, rfl⟩
        · exact .inr ⟨rest, rfl, hrest⟩
      · next hsplit => exact absurd hsplit (splitDot_ne_nil text)

theorem pathText_of_splitDot : ∀ {segs : List (List Char)} {text : List Char}, splitDot text = segs →
    (∀ seg ∈ segs, isIdent (trim seg) = true) → PathText (segs.map fun seg => String.ofList (trim seg)) text
  | [], text, h, _ => absurd h (splitDot_ne_nil text)
  | seg :: segs, text, h, hident => by
    obtain ⟨hseg, hsegs⟩ := List.forall_mem_cons.mp hident
    rcases splitDot_spec h with ⟨rfl, rfl⟩ | ⟨rest, rfl, hrest⟩
    · exact .last (nameText_of_trim hseg)
    · exact .cons (nameText_of_trim hseg) (pathText_of_splitDot hrest hsegs)

/-- **What is read as a path is a path.** -/
theorem pathText_of_parsePortPath {port : String} {path : List String}
    (h : parsePortPath text = some (port, path)) : PathText (port :: path) text := by
  unfold parsePortPath at h
  dsimp only at h
  split at h
  · next hall =>
    split at h
    · next port' field fields hmap =>
      cases h
      have hident : ∀ seg ∈ splitDot text, isIdent (trim seg) = true := fun seg hseg =>
        List.all_eq_true.mp hall _ (List.mem_map_of_mem hseg)
      have htext := pathText_of_splitDot rfl hident
      rw [List.map_map] at hmap
      exact hmap ▸ htext
    · cases h
  · cases h

/-- The text is an equality of a path of one port with a path of another. -/
structure StatedBy (con : JoinConstraint) (text : List Char) : Prop where
  sides : ∃ l r, text = l ++ '=' :: '=' :: r ∧ PathText (con.portA :: con.pathA) l ∧
    PathText (con.portB :: con.pathB) r
  ports : con.portA ≠ con.portB
  paths : con.pathA ≠ [] ∧ con.pathB ≠ []

/-- **A constraint is stated by its conjunct.** -/
theorem statedBy_of_parseEquiJoin {con : JoinConstraint} (h : parseEquiJoin text = some con) : StatedBy con text := by
  unfold parseEquiJoin at h
  obtain ⟨eq, heq, hsides⟩ := Option.bind_eq_some_iff.mp h
  obtain ⟨⟨portA, pathA⟩, hl, hright⟩ := Option.bind_eq_some_iff.mp hsides
  obtain ⟨⟨portB, pathB⟩, hr, hcon⟩ := Option.bind_eq_some_iff.mp hright
  obtain ⟨l, r, rfl, rfl⟩ := topLevelEqFrom_spec heq
  dsimp only at hcon
  split at hcon
  · cases hcon
  · next hcross =>
    cases hcon
    simp only [not_or] at hcross
    rw [Nat.zero_add, List.take_left] at hl
    rw [Nat.zero_add, List.drop_length_add_append] at hr
    exact ⟨⟨l, r, rfl, pathText_of_parsePortPath hl, pathText_of_parsePortPath hr⟩, hcross.1, hcross.2⟩

/-! ## The characters of a path -/

def isWordChar (c : Char) : Bool := isAsciiAlphabetic c || ('0' ≤ c && c ≤ '9') || c = '_'

theorem isWhitespace_of_isWordChar {c : Char} (h : isWordChar c = true) : isWhitespace c = false := by
  have hrange : 48 ≤ c.toNat ∧ c.toNat ≤ 122 := by
    simp only [isWordChar, isAsciiAlphabetic, Bool.or_eq_true, Bool.and_eq_true, decide_eq_true_eq, Char.le_def,
      UInt32.le_iff_toNat_le] at h
    rcases h with ((⟨hlow, hhigh⟩ | ⟨hlow, hhigh⟩) | ⟨hlow, hhigh⟩) | rfl
    · exact ⟨le_trans (by decide) hlow, le_trans hhigh (by decide)⟩
    · exact ⟨le_trans (by decide) hlow, le_trans hhigh (by decide)⟩
    · exact ⟨le_trans (by decide) hlow, le_trans hhigh (by decide)⟩
    · decide
  simp only [isWhitespace, Bool.or_eq_false_iff, Bool.and_eq_false_iff, decide_eq_false_iff_not, beq_eq_false_iff_ne]
  omega

theorem isWordChar_of_isIdent {name : List Char} (h : isIdent name = true) {c : Char} (hc : c ∈ name) :
    isWordChar c = true := by
  cases name with
  | nil => cases h
  | cons d name =>
    obtain ⟨hd, hname⟩ := Bool.and_eq_true_iff.mp h
    rcases List.mem_cons.mp hc with rfl | hc
    · rcases Bool.or_eq_true_iff.mp hd with hd | hd
      · simp [isWordChar, hd]
      · simp [isWordChar, hd]
    · exact List.all_eq_true.mp hname c hc

variable {name : String} {names : List String}

theorem NameText.chars (h : NameText name text) {c : Char} (hc : c ∈ text) :
    isWhitespace c = true ∨ isWordChar c = true := by
  obtain ⟨hident, u, v, rfl, hu, hv⟩ := h
  rcases List.mem_append.mp hc with hc | hc
  · rcases List.mem_append.mp hc with hc | hc
    · exact .inl (List.all_eq_true.mp hu c hc)
    · exact .inr (isWordChar_of_isIdent hident hc)
  · exact .inl (List.all_eq_true.mp hv c hc)

theorem PathText.chars (h : PathText names text) {c : Char} (hc : c ∈ text) :
    c = '.' ∨ isWhitespace c = true ∨ isWordChar c = true := by
  induction h with
  | last hname => exact .inr (hname.chars hc)
  | cons hname _ ih =>
    rcases List.mem_append.mp hc with hc | hc
    · exact .inr (hname.chars hc)
    · rcases List.mem_cons.mp hc with rfl | hc
      · exact .inl rfl
      · exact ih hc

theorem NameText.trim_eq (h : NameText name text) : String.ofList (trim text) = name := by
  obtain ⟨hident, u, v, rfl, hu, hv⟩ := h
  have hname : ∀ c ∈ name.toList, isWhitespace c = false := fun c hc =>
    isWhitespace_of_isWordChar (isWordChar_of_isIdent hident hc)
  have hkept : ∀ (l rest : List Char), l ≠ [] → (∀ c ∈ l, isWhitespace c = false) →
      (l ++ rest).dropWhile isWhitespace = l ++ rest := by
    intro l rest hne hl
    obtain ⟨c, l, rfl⟩ := List.exists_cons_of_ne_nil hne
    rw [List.cons_append, List.dropWhile_cons_of_neg]
    simp [hl c List.mem_cons_self]
  have hne : name.toList ≠ [] := by
    intro hnil
    rw [hnil] at hident
    cases hident
  rw [trim, List.append_assoc, List.dropWhile_append_of_pos (List.all_eq_true.mp hu), hkept _ _ hne hname,
    List.reverse_append, List.dropWhile_append_of_pos, ← List.append_nil name.toList.reverse, hkept, List.append_nil,
    List.reverse_reverse, String.ofList_toList]
  · exact List.reverse_ne_nil_iff.mpr hne
  · exact fun c hc => hname c (List.mem_reverse.mp hc)
  · exact fun c hc => List.all_eq_true.mp hv c (List.mem_reverse.mp hc)

theorem splitDot_of_notMem : ∀ {u : List Char}, '.' ∉ u → splitDot u = [u]
  | [], _ => rfl
  | c :: u, h => by
    rw [List.mem_cons, not_or] at h
    rw [splitDot, if_neg (Ne.symm h.1), splitDot_of_notMem h.2]

theorem splitDot_append {u : List Char} (h : '.' ∉ u) (rest : List Char) :
    splitDot (u ++ '.' :: rest) = u :: splitDot rest := by
  induction u with
  | nil => rfl
  | cons c u ih =>
    rw [List.mem_cons, not_or] at h
    rw [List.cons_append, splitDot, if_neg (Ne.symm h.1), ih h.2]

/-- **The names of a path are those that are read from it.** -/
theorem PathText.names_eq (h : PathText names text) :
    names = (splitDot text).map fun seg => String.ofList (trim seg) := by
  have hdot : ∀ {name : String} {text : List Char}, NameText name text → '.' ∉ text := by
    intro name text hname hmem
    exact absurd (hname.chars hmem) (by decide)
  induction h with
  | last hname => rw [splitDot_of_notMem (hdot hname), List.map_singleton, hname.trim_eq]
  | cons hname _ ih => rw [splitDot_append (hdot hname), List.map_cons, hname.trim_eq, ← ih]

end Paths

end JoinIndex

open JoinIndex in
/-- `extract_join_constraints`: nothing below a top-level `||`, otherwise the equalities among the
top-level conjuncts. -/
def extractJoinConstraints (guard : String) : List JoinConstraint :=
  if topLevelDouble '|' guard.toList = [] then
    (splitTopLevel '&' guard.toList).filterMap parseEquiJoin
  else []

example : extractJoinConstraints "req.grant_id == held.grant_id && a.x.y == b.z" =
    [⟨"req", ["grant_id"], "held", ["grant_id"]⟩, ⟨"a", ["x", "y"], "b", ["z"]⟩] := by decide

example : extractJoinConstraints "a.k == b.k || a.j == b.j" = [] := by decide

open JoinIndex in
theorem exists_conjunct {guard : String} {con : JoinConstraint} (h : con ∈ extractJoinConstraints guard) :
    ∃ before t rest, splitTopLevel '&' guard.toList = before ++ t :: rest ∧ parseEquiJoin t = some con := by
  unfold extractJoinConstraints at h
  split at h
  · obtain ⟨t, ht, hcon⟩ := List.mem_filterMap.mp h
    obtain ⟨before, rest, hsplit⟩ := List.append_of_mem ht
    exact ⟨before, t, rest, hsplit, hcon⟩
  · cases h

end Mekhan

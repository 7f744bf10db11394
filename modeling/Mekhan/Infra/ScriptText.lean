import Mathlib.Data.List.Basic

/-!
# The text of a script

A text is code, with strings, characters and comments in it. A `ScriptReader` knows, between any two characters,
what the next one is part of and how deep in brackets it stands.

* Strings in double quotes and characters have a backslash as escape.
* A string in backticks has no escape, but code between `${` and `}`.
* A raw string stands between `#"` and `"#`, with one `#` or more.
* Comments go from `//` to the end of the line, or from `/*` to `*/`; the second kind nests.

`topLevel` are the characters of a text that are code outside all brackets.
-/

namespace Infra

/-- What the reader is inside of. -/
inductive ScriptMode where
  | code
  /-- Code after a `/`. -/
  | slash
  /-- Code after `n + 1` times `#`. -/
  | hash (n : Nat)
  | quoted (quote : Char)
  | escaped (quote : Char)
  | backtick
  /-- A string in backticks, after a `$`. -/
  | dollar
  | line
  /-- A comment in `n` others. -/
  | comment (n : Nat)
  | commentSlash (n : Nat)
  | commentStar (n : Nat)
  | raw (n : Nat)
  /-- A raw string, after a quote and `k` times `#`. -/
  | rawEnd (n k : Nat)
  deriving DecidableEq

/-- `outer` are the depths of the code around the strings in backticks that the reader is in the code of. -/
structure ScriptReader where
  mode : ScriptMode
  depth : Int
  outer : List Int
  deriving DecidableEq

namespace ScriptReader

def start : ScriptReader := ⟨.code, 0, []⟩

def code (q : ScriptReader) (c : Char) : ScriptReader :=
  if c.toNat = 34 ∨ c.toNat = 39 then { q with mode := .quoted c }
  else if c.toNat = 96 then { q with mode := .backtick }
  else if c = '/' then { q with mode := .slash }
  else if c = '#' then { q with mode := .hash 0 }
  else if c = '(' ∨ c = '[' ∨ c = '\x7b' then { q with mode := .code, depth := q.depth + 1 }
  else if c = ')' ∨ c = ']' ∨ c = '\x7d' then
    match q.outer with
    | depth :: outer =>
      if c = '\x7d' ∧ q.depth = 0 then ⟨.backtick, depth, outer⟩
      else { q with mode := .code, depth := q.depth - 1 }
    | [] => { q with mode := .code, depth := q.depth - 1 }
  else { q with mode := .code }

/-- One character further. -/
def step (q : ScriptReader) (c : Char) : ScriptReader :=
  match q.mode with
  | .code => q.code c
  | .slash =>
    if c = '/' then { q with mode := .line }
    else if c = '*' then { q with mode := .comment 0 }
    else q.code c
  | .hash n =>
    if c = '#' then { q with mode := .hash (n + 1) }
    else if c.toNat = 34 then { q with mode := .raw n }
    else q.code c
  | .quoted quote =>
    if c = '\\' then { q with mode := .escaped quote }
    else if c = quote then { q with mode := .code }
    else q
  | .escaped quote => { q with mode := .quoted quote }
  | .backtick =>
    if c.toNat = 96 then { q with mode := .code }
    else if c = '$' then { q with mode := .dollar }
    else q
  | .dollar =>
    if c = '\x7b' then ⟨.code, 0, q.depth :: q.outer⟩
    else if c.toNat = 96 then { q with mode := .code }
    else if c = '$' then q
    else { q with mode := .backtick }
  | .line => if c = '\n' then { q with mode := .code } else q
  | .comment n =>
    if c = '/' then { q with mode := .commentSlash n }
    else if c = '*' then { q with mode := .commentStar n }
    else q
  | .commentSlash n =>
    if c = '*' then { q with mode := .comment (n + 1) }
    else if c = '/' then q
    else { q with mode := .comment n }
  | .commentStar n =>
    if c = '/' then { q with mode := match n with | 0 => .code | m + 1 => .comment m }
    else if c = '*' then q
    else { q with mode := .comment n }
  | .raw n => if c.toNat = 34 then { q with mode := .rawEnd n 0 } else q
  | .rawEnd n k =>
    if c = '#' then { q with mode := if k = n then .code else .rawEnd n (k + 1) }
    else if c.toNat = 34 then { q with mode := .rawEnd n 0 }
    else { q with mode := .raw n }

/-- The reader at the end of a text. -/
def after (q : ScriptReader) (text : List Char) : ScriptReader := text.foldl step q

/-- The next character is code outside all brackets; one after a `#` belongs to that. -/
def AtTop (q : ScriptReader) : Prop := (q.mode = .code ∨ q.mode = .slash) ∧ q.depth = 0 ∧ q.outer = []

instance (q : ScriptReader) : Decidable q.AtTop := inferInstanceAs (Decidable (_ ∧ _))

/-- The characters of a text that are code outside all brackets. -/
def topLevel : ScriptReader → List Char → List Char
  | _, [] => []
  | q, c :: text => if q.AtTop then c :: topLevel (q.step c) text else topLevel (q.step c) text

variable {q : ScriptReader} {c : Char} {u v : List Char}

@[simp] theorem after_nil : q.after [] = q := rfl

@[simp] theorem after_cons : q.after (c :: u) = (q.step c).after u := rfl

theorem after_append : q.after (u ++ v) = (q.after u).after v := List.foldl_append ..

theorem topLevel_append : ∀ {q : ScriptReader} {u : List Char},
    q.topLevel (u ++ v) = q.topLevel u ++ (q.after u).topLevel v
  | _, [] => rfl
  | q, c :: u => by
    rw [List.cons_append, topLevel, topLevel, topLevel_append (u := u), after_cons]
    split <;> rfl

theorem topLevel_start_cons (h : start.step c = start) : start.topLevel (c :: v) = c :: start.topLevel v := by
  rw [topLevel, h]
  rfl

end ScriptReader

end Infra

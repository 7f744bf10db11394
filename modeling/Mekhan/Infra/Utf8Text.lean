import Mathlib.Data.List.Basic
import Mathlib.Algebra.Ring.Nat

/-!
# Texts by byte offset

A text is the list of its characters, and an offset counts the bytes of their UTF-8 encoding. An offset
is a boundary if a character starts there, or the text ends.
-/

namespace Infra

/-- The length in bytes. -/
def byteLen (text : List Char) : Nat := (text.map Char.utf8Size).sum

/-- The parts before and after a byte offset; none if that is not a boundary. -/
def splitAt? : List Char → Nat → Option (List Char × List Char)
  | text, 0 => some ([], text)
  | [], _ + 1 => none
  | c :: text, n + 1 =>
    if c.utf8Size ≤ n + 1 then
      (splitAt? text (n + 1 - c.utf8Size)).map fun parts => (c :: parts.1, parts.2)
    else none

/-- The character that starts at an offset. -/
def charAt? (text : List Char) (offset : Nat) : Option Char :=
  (splitAt? text offset).bind fun parts => parts.2.head?

@[simp] theorem byteLen_nil : byteLen [] = 0 := rfl

@[simp] theorem byteLen_cons (c : Char) (text : List Char) :
    byteLen (c :: text) = c.utf8Size + byteLen text := by
  simp [byteLen]

@[simp] theorem byteLen_append (a b : List Char) : byteLen (a ++ b) = byteLen a + byteLen b := by
  simp [byteLen]

@[simp] theorem splitAt?_zero (text : List Char) : splitAt? text 0 = some ([], text) := by
  cases text <;> rfl

theorem splitAt?_append (a b : List Char) : splitAt? (a ++ b) (byteLen a) = some (a, b) := by
  induction a with
  | nil => simp
  | cons c a ih =>
    have hpos : 0 < c.utf8Size := Char.utf8Size_pos c
    obtain ⟨n, hn⟩ : ∃ n, byteLen (c :: a) = n + 1 := ⟨c.utf8Size + byteLen a - 1, by
      rw [byteLen_cons]
      omega⟩
    have hrest : n + 1 - c.utf8Size = byteLen a := by
      rw [byteLen_cons] at hn
      omega
    have hle : c.utf8Size ≤ n + 1 := by
      rw [byteLen_cons] at hn
      omega
    rw [hn, List.cons_append, splitAt?, if_pos hle, hrest, ih, Option.map_some]

@[simp] theorem charAt?_zero (text : List Char) : charAt? text 0 = text.head? := by
  simp [charAt?]

theorem charAt?_append (a b : List Char) : charAt? (a ++ b) (byteLen a) = b.head? := by
  rw [charAt?, splitAt?_append, Option.bind_some]

theorem charAt?_cons {c : Char} (hc : c.utf8Size = 1) (text : List Char) (n : Nat) :
    charAt? (c :: text) (n + 1) = charAt? text n := by
  rw [charAt?, splitAt?, if_pos (by omega), hc, Nat.add_sub_cancel]
  cases hsplit : splitAt? text n <;> simp [charAt?, hsplit]

end Infra

import Mathlib.Data.List.TakeWhile
import Mathlib.Tactic.Common

/-!
# White space

The characters with the Unicode property `White_Space`, and texts without them at their ends.
-/

namespace Infra

/-- `char::is_whitespace` -/
def isWhitespace (c : Char) : Bool :=
  let n := c.toNat
  (9 ≤ n && n ≤ 13) || n == 0x20 || n == 0x85 || n == 0xA0 || n == 0x1680 ||
    (0x2000 ≤ n && n ≤ 0x200A) || n == 0x2028 || n == 0x2029 || n == 0x202F || n == 0x205F ||
      n == 0x3000

/-- `str::trim` -/
def trim (text : List Char) : List Char :=
  ((text.dropWhile isWhitespace).reverse.dropWhile isWhitespace).reverse

theorem trim_spec (text : List Char) : ∃ u v, text = u ++ trim text ++ v ∧ u.all isWhitespace = true ∧
    v.all isWhitespace = true := by
  refine ⟨text.takeWhile isWhitespace, ((text.dropWhile isWhitespace).reverse.takeWhile isWhitespace).reverse, ?_,
    List.all_takeWhile, by rw [List.all_reverse, List.all_takeWhile]⟩
  rw [trim, List.append_assoc, ← List.reverse_append, List.takeWhile_append_dropWhile, List.reverse_reverse,
    List.takeWhile_append_dropWhile]

end Infra

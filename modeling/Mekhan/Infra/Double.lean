import Mekhan.Infra.Json
import Mathlib.Tactic.NormNum

/-!
# Arithmetic of doubles

A finite double is a fraction, and an operation on doubles rounds the exact result to the nearest
double, ties to even: `ofRatio`. What a text denotes is the double nearest to the decimal number.
-/

namespace Infra

namespace F64

/-- The bits of the infinities, without the sign. -/
def infinityBits : Nat := 0x7FF0000000000000

/-- A double by its sign and the other bits. -/
def ofParts (neg : Bool) (magnitude : Nat) : F64 :=
  ⟨BitVec.ofNat 64 ((if neg then 2 ^ 63 else 0) + magnitude)⟩

def nan : F64 := ofParts false (infinityBits + 2 ^ 51)

def infinity (neg : Bool) : F64 := ofParts neg infinityBits

/-- The sign bit, also of a zero. -/
def isNegative (x : F64) : Bool := 2 ^ 63 ≤ x.bits.toNat

/-- The absolute value of a finite double, as a fraction. -/
def ratio? (x : F64) : Option (Nat × Nat) :=
  let magnitude := x.bits.toNat % 2 ^ 63
  let exponent := magnitude / 2 ^ 52
  let fraction := magnitude % 2 ^ 52
  if exponent = 2047 then none
  else if exponent = 0 then some (fraction, 2 ^ 1074)
  else if 1075 ≤ exponent then some ((2 ^ 52 + fraction) * 2 ^ (exponent - 1075), 1)
  else some (2 ^ 52 + fraction, 2 ^ (1075 - exponent))

/-- The bits of the double nearest to a fraction, ties to even. -/
def magnitudeOfRatio (num den : Nat) : Nat :=
  if num = 0 then 0
  else
    -- The fraction is at least `2 ^ (e - 1)` and less than `2 ^ (e + 1)`.
    let e : Int := (Nat.log2 num : Int) - Nat.log2 den
    let exponent := if num * 2 ^ (-e).toNat < den * 2 ^ e.toNat then e - 1 else e
    -- Below the normal doubles, their spacing is the smallest one.
    let ulp := max (exponent - 52) (-1074)
    let n := num * 2 ^ (-ulp).toNat
    let d := den * 2 ^ ulp.toNat
    let q := n / d
    let rest := n % d
    let mantissa := if d < 2 * rest ∨ (2 * rest = d ∧ q % 2 = 1) then q + 1 else q
    -- A carry out of the mantissa moves into the exponent by itself.
    min ((ulp + 1074).toNat * 2 ^ 52 + mantissa) infinityBits

/-- The double nearest to a fraction, ties to even. -/
def ofRatio (neg : Bool) (num den : Nat) : F64 := ofParts neg (magnitudeOfRatio num den)

def ofNat (n : Nat) : F64 := ofRatio false n 1

/-- The exact product, rounded once. -/
def mul (x y : F64) : F64 :=
  let neg := xor x.isNegative y.isNegative
  if x.isNaN || y.isNaN then nan
  else
    match x.ratio?, y.ratio? with
    | some a, some b => ofRatio neg (a.1 * b.1) (a.2 * b.2)
    | some a, none => if a.1 = 0 then nan else infinity neg
    | none, some b => if b.1 = 0 then nan else infinity neg
    | none, none => infinity neg

/-- To the nearest integer, halves away from zero. -/
def round (x : F64) : F64 :=
  match x.ratio? with
  | some a => ofRatio x.isNegative ((2 * a.1 + a.2) / (2 * a.2)) 1
  | none => x

/-- The integer part, the nearest bound if it is out of range; NaN is `0`. -/
def toI64 (x : F64) : Int :=
  if x.isNaN then 0
  else
    match x.isNegative, x.ratio? with
    | false, some a => min (a.1 / a.2 : Nat) (2 ^ 63 - 1)
    | false, none => 2 ^ 63 - 1
    | true, some a => max (-(a.1 / a.2 : Nat)) (-2 ^ 63)
    | true, none => -2 ^ 63

/-! ## Texts -/

def isDigit (c : Char) : Bool := '0' ≤ c && c ≤ '9'

def digitsToNat (digits : List Char) : Nat :=
  digits.foldl (fun n c => n * 10 + (c.toNat - '0'.toNat)) 0

def splitSign : List Char → Bool × List Char
  | '-' :: rest => (true, rest)
  | '+' :: rest => (false, rest)
  | text => (false, text)

/-- The exponent of a decimal number, `0` at its end. -/
def parseExponent : List Char → Option Int
  | [] => some 0
  | c :: rest =>
    let (neg, digits) := splitSign rest
    if (c = 'e' ∨ c = 'E') ∧ digits ≠ [] ∧ digits.all isDigit then
      some (if neg then -digitsToNat digits else digitsToNat digits)
    else none

/-- The digits after a point, and what follows them. -/
def parseFraction : List Char → List Char × List Char
  | '.' :: rest => (rest.takeWhile isDigit, rest.dropWhile isDigit)
  | rest => ([], rest)

def parseNumber (neg : Bool) (text : List Char) : Option F64 :=
  let whole := text.takeWhile isDigit
  let after := parseFraction (text.dropWhile isDigit)
  if whole = [] ∧ after.1 = [] then none
  else (parseExponent after.2).map fun exponent =>
    let digits := digitsToNat (whole ++ after.1)
    let scale : Int := exponent - after.1.length
    ofRatio neg (digits * 10 ^ scale.toNat) (10 ^ (-scale).toNat)

/-- The double a text denotes, if it denotes one. -/
def parse (text : List Char) : Option F64 :=
  let (neg, body) := splitSign text
  let lower := body.map Char.toLower
  if lower = ['i', 'n', 'f'] ∨ lower = ['i', 'n', 'f', 'i', 'n', 'i', 't', 'y'] then some (infinity neg)
  else if lower = ['n', 'a', 'n'] then
    some (ofParts neg (infinityBits + 2 ^ 51))
  else parseNumber neg body

/-! ## Signs -/

theorem isNegative_ofParts {magnitude : Nat} (h : magnitude < 2 ^ 63) :
    (ofParts false magnitude).isNegative = false := by
  have hbits : (ofParts false magnitude).bits.toNat = magnitude := by
    simp only [ofParts, Bool.false_eq_true, if_false, Nat.zero_add, BitVec.toNat_ofNat]
    exact Nat.mod_eq_of_lt (Nat.lt_trans h (by norm_num))
  rw [isNegative, hbits]
  exact decide_eq_false (Nat.not_le.mpr h)

theorem infinityBits_lt : infinityBits < 2 ^ 63 := by
  norm_num [infinityBits]

theorem magnitudeOfRatio_le (num den : Nat) : magnitudeOfRatio num den ≤ infinityBits := by
  unfold magnitudeOfRatio
  split
  · exact Nat.zero_le _
  · exact Nat.min_le_right _ _

theorem isNegative_ofRatio (num den : Nat) : (ofRatio false num den).isNegative = false :=
  isNegative_ofParts (Nat.lt_of_le_of_lt (magnitudeOfRatio_le num den) infinityBits_lt)

theorem isNegative_nan : nan.isNegative = false :=
  isNegative_ofParts (by norm_num [infinityBits])

theorem isNegative_infinity : (infinity false).isNegative = false :=
  isNegative_ofParts infinityBits_lt

variable {x : F64}

theorem isNegative_mul {y : F64} (hx : x.isNegative = false) (hy : y.isNegative = false) :
    (x.mul y).isNegative = false := by
  unfold mul
  rw [hx, hy]
  dsimp only
  split
  · exact isNegative_nan
  · split
    · exact isNegative_ofRatio _ _
    · split
      · exact isNegative_nan
      · exact isNegative_infinity
    · split
      · exact isNegative_nan
      · exact isNegative_infinity
    · exact isNegative_infinity

theorem isNegative_round (hx : x.isNegative = false) : x.round.isNegative = false := by
  unfold round
  split
  · rw [hx]
    exact isNegative_ofRatio _ _
  · exact hx

theorem toI64_nonneg (hx : x.isNegative = false) : 0 ≤ x.toI64 := by
  unfold toI64
  rw [hx]
  split
  · exact Int.le_refl 0
  · split
    · next a _ _ =>
      have hquot : (0 : Int) ≤ (a.1 / a.2 : Nat) := Int.natCast_nonneg _
      omega
    · omega
    · next h _ => cases h
    · next h _ => cases h

theorem isNegative_parse {text : List Char} (hsign : splitSign text = (false, text))
    (h : parse text = some x) : x.isNegative = false := by
  unfold parse at h
  rw [hsign] at h
  dsimp only at h
  split at h
  · cases h
    exact isNegative_infinity
  · split at h
    · cases h
      exact isNegative_nan
    · unfold parseNumber at h
      dsimp only at h
      split at h
      · cases h
      · obtain ⟨exponent, -, rfl⟩ := Option.map_eq_some_iff.mp h
        exact isNegative_ofRatio _ _

end F64

end Infra

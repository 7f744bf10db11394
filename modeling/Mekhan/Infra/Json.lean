import Mathlib.Data.List.AList
import Mathlib.Algebra.Order.BigOperators.Group.List
import Mathlib.Tactic.Ring

/-!
# JSON trees

The tree a JSON text denotes. Objects are lists of pairs, in the order of the text, so a tree still
shows the order in which a serializer wrote its entries and the duplicates a text may contain.
What a map built from such a list keeps is the business of `collect` (`Infra/JsonMap.lean`).
-/

namespace Infra

/-! ## Doubles -/

/-- A double, by its bits. -/
structure F64 where
  bits : BitVec 64
  deriving DecidableEq

namespace F64

def isNaN (x : F64) : Bool := 0x7FF0000000000000 < x.bits.toNat % 2 ^ 63

/-- The position of a number that is not NaN in the order of the doubles; both zeros are at `0`. -/
def rank (x : F64) : Int :=
  if x.bits.toNat < 2 ^ 63 then x.bits.toNat else -(x.bits.toNat - 2 ^ 63 : Int)

/-- IEEE comparison: false as soon as one side is NaN. -/
def lt (x y : F64) : Bool := !x.isNaN && !y.isNaN && x.rank < y.rank

/-- `==` on doubles: a NaN equals nothing, and the zeros are equal. -/
def eq (x y : F64) : Bool := !x.isNaN && !y.isNaN && x.rank = y.rank

/-- The bits of the double nearest to a positive integer below `2 ^ 64`, ties to even. -/
def magnitudeOfNat (n : Nat) : Nat :=
  if n = 0 then 0
  else
    let e := Nat.log2 n
    let q :=
      if e ≤ 52 then n <<< (52 - e)
      else
        let shift := e - 52
        let q := n >>> shift
        let rest := n % 2 ^ shift
        if 2 ^ shift < 2 * rest ∨ (2 * rest = 2 ^ shift ∧ q % 2 = 1) then q + 1 else q
    -- A carry out of the mantissa moves into the exponent by itself.
    ((e + 1022) <<< 52) + q

def ofInt : Int → F64
  | .ofNat n => ⟨BitVec.ofNat 64 (magnitudeOfNat n)⟩
  | .negSucc n => ⟨BitVec.ofNat 64 (2 ^ 63 + magnitudeOfNat (n + 1))⟩

/-- The mantissa with its leading bit, rounded, is at most `2 ^ 53`; the exponent puts the double
above zero and far below the infinities. -/
theorem magnitudeOfNat_bounds {n : Nat} (hpos : 0 < n) (hn : n < 2 ^ 64) :
    0 < magnitudeOfNat n ∧ magnitudeOfNat n < 1088 * 2 ^ 52 := by
  have hne : n ≠ 0 := Nat.pos_iff_ne_zero.mp hpos
  have he : Nat.log2 n < 64 := (Nat.log2_lt hne).mpr hn
  have hlt : n < 2 ^ (Nat.log2 n + 1) := Nat.lt_log2_self
  unfold magnitudeOfNat
  rw [if_neg hne]
  dsimp only
  rw [Nat.shiftLeft_eq]
  have hq : ∀ q, q ≤ 2 ^ 53 → 0 < (Nat.log2 n + 1022) * 2 ^ 52 + q ∧
      (Nat.log2 n + 1022) * 2 ^ 52 + q < 1088 * 2 ^ 52 := by
    intro q hq
    omega
  apply hq
  split
  · next hsmall =>
    have hexp : 2 ^ (Nat.log2 n + 1) * 2 ^ (52 - Nat.log2 n) = 2 ^ 53 := by
      rw [← Nat.pow_add]
      congr 1
      omega
    rw [Nat.shiftLeft_eq, ← hexp]
    exact Nat.mul_le_mul_right _ (Nat.le_of_lt hlt)
  · next hlarge =>
    have hquot : n >>> (Nat.log2 n - 52) < 2 ^ 53 := by
      rw [Nat.shiftRight_eq_div_pow]
      refine Nat.div_lt_of_lt_mul ?_
      rw [← Nat.pow_add]
      have hexp : Nat.log2 n - 52 + 53 = Nat.log2 n + 1 := by omega
      rw [hexp]
      exact hlt
    split <;> omega

theorem ofInt_zero_lt {n : Nat} (hpos : 0 < n) (hn : n < 2 ^ 64) : (ofInt 0).lt (ofInt n) = true := by
  obtain ⟨hlow, hhigh⟩ := magnitudeOfNat_bounds hpos hn
  have hbits : (ofInt n).bits.toNat = magnitudeOfNat n := by
    show (BitVec.ofNat 64 (magnitudeOfNat n)).toNat = _
    rw [BitVec.toNat_ofNat]
    omega
  have hzero : (ofInt 0).rank = 0 := by decide
  have hnan : (ofInt n).isNaN = false := by
    simp only [isNaN, hbits, decide_eq_false_iff_not]
    omega
  have hrank : (ofInt n).rank = magnitudeOfNat n := by
    unfold rank
    rw [hbits, if_pos (by omega)]
  have hzeroNaN : (ofInt 0).isNaN = false := by decide
  unfold lt
  rw [hnan, hzeroNaN, hrank, hzero]
  simpa using hlow

end F64

/-! ## Trees -/

/-- A JSON number: the integers of 64 bits by sign, and the bit pattern of a double. -/
inductive Number where
  | posInt (n : Nat)
  /-- The negative integer `-(n + 1)`. -/
  | negInt (n : Nat)
  | float (bits : BitVec 64)
  deriving DecidableEq

/-- Zero counts among the positive numbers. -/
def Number.ofInt : Int → Number
  | .ofNat n => .posInt n
  | .negSucc n => .negInt n

def Number.toInt? : Number → Option Int
  | .posInt n => some (.ofNat n)
  | .negInt n => some (.negSucc n)
  | .float _ => none

/-- As `serde_json` reads it: `none` where it does not fit. -/
def Number.asI64 : Number → Option Int
  | .posInt n => if n < 2 ^ 63 then some n else none
  | .negInt n => some (.negSucc n)
  | .float _ => none

def Number.asU64 : Number → Option Nat
  | .posInt n => some n
  | _ => none

/-- The nearest double. -/
def Number.asF64 : Number → F64
  | .posInt n => .ofInt (.ofNat n)
  | .negInt n => .ofInt (.negSucc n)
  | .float bits => ⟨bits⟩

/-- Equality of numbers: integers by value, doubles by IEEE equality, never across the two. -/
def Number.eqv : Number → Number → Bool
  | .posInt m, .posInt n => m = n
  | .negInt m, .negInt n => m = n
  | .float x, .float y => F64.eq ⟨x⟩ ⟨y⟩
  | _, _ => false

@[simp] theorem Number.toInt?_ofInt (i : Int) : (Number.ofInt i).toInt? = some i := by
  cases i <;> rfl

/-- A value; an object keeps the order of its entries. -/
inductive Json where
  | null
  | bool (b : Bool)
  | num (n : Number)
  | str (s : String)
  | arr (elems : List Json)
  | obj (entries : List (String × Json))
  deriving Inhabited

namespace Json

/-! ## Decidable equality

`deriving` does not reach through the nested lists, so the comparison is written out. -/

mutual

def decEq : (a b : Json) → Decidable (a = b)
  | .null, .null => isTrue rfl
  | .bool x, .bool y => decidable_of_iff (x = y) (by simp)
  | .num x, .num y => decidable_of_iff (x = y) (by simp)
  | .str x, .str y => decidable_of_iff (x = y) (by simp)
  | .arr x, .arr y =>
    match decEqList x y with
    | isTrue h => isTrue (by rw [h])
    | isFalse h => isFalse (by intro he; injection he; exact h ‹_›)
  | .obj x, .obj y =>
    match decEqEntries x y with
    | isTrue h => isTrue (by rw [h])
    | isFalse h => isFalse (by intro he; injection he; exact h ‹_›)
  | .null, .bool _ | .null, .num _ | .null, .str _ | .null, .arr _ | .null, .obj _
  | .bool _, .null | .bool _, .num _ | .bool _, .str _ | .bool _, .arr _ | .bool _, .obj _
  | .num _, .null | .num _, .bool _ | .num _, .str _ | .num _, .arr _ | .num _, .obj _
  | .str _, .null | .str _, .bool _ | .str _, .num _ | .str _, .arr _ | .str _, .obj _
  | .arr _, .null | .arr _, .bool _ | .arr _, .num _ | .arr _, .str _ | .arr _, .obj _
  | .obj _, .null | .obj _, .bool _ | .obj _, .num _ | .obj _, .str _ | .obj _, .arr _ =>
    isFalse (by simp)

def decEqList : (a b : List Json) → Decidable (a = b)
  | [], [] => isTrue rfl
  | x :: xs, y :: ys =>
    match decEq x y, decEqList xs ys with
    | isTrue h, isTrue h' => isTrue (by rw [h, h'])
    | isFalse h, _ => isFalse (by intro he; injection he; exact h ‹_›)
    | _, isFalse h => isFalse (by intro he; injection he; exact h ‹_›)
  | [], _ :: _ | _ :: _, [] => isFalse (by simp)

def decEqEntries : (a b : List (String × Json)) → Decidable (a = b)
  | [], [] => isTrue rfl
  | (k, x) :: xs, (l, y) :: ys =>
    match decEq x y, decEqEntries xs ys with
    | isTrue h, isTrue h' => decidable_of_iff (k = l) (by simp [h, h'])
    | isFalse h, _ => isFalse (by intro he; injection he with he; injection he; exact h ‹_›)
    | _, isFalse h => isFalse (by intro he; injection he; exact h ‹_›)
  | [], _ :: _ | _ :: _, [] => isFalse (by simp)

end

instance : DecidableEq Json := decEq

/-! ## Reading a tree -/

/-- The value stored under `key`, `none` when the tree is not an object or lacks the key. -/
def get? (key : String) : Json → Option Json
  | .obj entries => entries.lookup key
  | _ => none

/-! ## Equality of values

Two objects are equal as maps, whatever the order of their entries. -/

mutual

/-- Equality as Rust decides it, objects by what they hold. -/
def eqv : Json → Json → Bool
  | .null, .null => true
  | .bool x, .bool y => x = y
  | .num x, .num y => x.eqv y
  | .str x, .str y => x = y
  | .arr xs, .arr ys => eqvList xs ys
  | .obj xs, .obj ys => xs.length = ys.length && eqvEntries xs ys
  | _, _ => false

def eqvList : List Json → List Json → Bool
  | [], [] => true
  | x :: xs, y :: ys => eqv x y && eqvList xs ys
  | _, _ => false

/-- Every entry has an equal counterpart in the other map. -/
def eqvEntries : List (String × Json) → List (String × Json) → Bool
  | [], _ => true
  | (k, x) :: xs, ys =>
    (match ys.lookup k with
    | some y => eqv x y
    | none => false) && eqvEntries xs ys

end

def asStr? : Json → Option String
  | .str s => some s
  | _ => none

end Json

end Infra

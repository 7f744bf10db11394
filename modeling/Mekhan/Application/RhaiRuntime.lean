import Mekhan.Infra.Json

/-!
# The matcher of the Rhai runtime

`application/src/rhai_runtime.rs`: the function `satisfies(requirements, caps)` it registers for
guards, and what a script makes of a value: reading a property, and `==`.

A value of the interpreter is the JSON value it was made from. `json_to_dynamic` turns the integers
that do not fit an `i64` into floats, so comparisons go by `as_i64` and `as_f64`.
-/

namespace Mekhan

open Infra

abbrev RhaiMap := List (String × Json)

namespace Rhai

/-- `map.key` in a script: `()` for a key that is not there. -/
def prop (map : RhaiMap) (key : String) : Json := (map.lookup key).getD .null

variable {m n : Nat} {s : String} {v : Json}

theorem lookup_of_prop_str {map : RhaiMap} {key : String} (h : prop map key = .str s) :
    map.lookup key = some (.str s) := by
  unfold prop at h
  cases hlookup : map.lookup key with
  | none => simp [hlookup] at h
  | some v =>
    rw [hlookup] at h
    exact congrArg some h

/-! ## Equality in scripts -/

/-- `==` on two numbers: exact on two integers, on the floats as soon as one of them is one. -/
def numEq (x y : Number) : Bool :=
  match x.asI64, y.asI64 with
  | some i, some j => i = j
  | _, _ => F64.eq x.asF64 y.asF64

mutual

/-- `==` on two values: false across types, apart from integers and floats. -/
def eq : Json → Json → Bool
  | .null, .null => true
  | .bool x, .bool y => x = y
  | .num x, .num y => numEq x y
  | .str x, .str y => x = y
  | .arr xs, .arr ys => eqList xs ys
  | .obj xs, .obj ys => xs.length = ys.length && eqEntries xs ys
  | _, _ => false

def eqList : List Json → List Json → Bool
  | [], [] => true
  | x :: xs, y :: ys => eq x y && eqList xs ys
  | _, _ => false

def eqEntries : List (String × Json) → List (String × Json) → Bool
  | [], _ => true
  | (k, x) :: xs, ys =>
    (match ys.lookup k with
    | some y => eq x y
    | none => false) && eqEntries xs ys

end

/-- `<` on two values: false across types, apart from integers and floats. -/
def lt : Json → Json → Bool
  | .num x, .num y =>
    match x.asI64, y.asI64 with
    | some i, some j => i < j
    | _, _ => F64.lt x.asF64 y.asF64
  | .str x, .str y => x < y
  | _, _ => false

/-- `>=` on two values. -/
def ge (x y : Json) : Bool := lt y x || eq x y

def int (n : Nat) : Json := .num (.posInt n)

/-- `value + 1` on an integer. -/
def increment : Json → Json
  | .num x =>
    match x.asI64 with
    | some i => .num (.ofInt (i + 1))
    | none => .null
  | _ => .null

theorem increment_int (h : n < 2 ^ 63) : increment (int n) = int (n + 1) := by
  have hint : (Number.posInt n).asI64 = some (n : Int) := if_pos h
  simp only [increment, int, hint]
  rfl

theorem lt_posInt (hm : m < 2 ^ 63) (hn : n < 2 ^ 63) :
    lt (.num (.posInt m)) (.num (.posInt n)) = true ↔ m < n := by
  have hm' : (Number.posInt m).asI64 = some (m : Int) := if_pos hm
  have hn' : (Number.posInt n).asI64 = some (n : Int) := if_pos hn
  simp only [lt, hm', hn', decide_eq_true_eq, Int.ofNat_lt]

theorem eq_posInt (hm : m < 2 ^ 63) (hn : n < 2 ^ 63) :
    eq (.num (.posInt m)) (.num (.posInt n)) = true ↔ m = n := by
  have hm' : (Number.posInt m).asI64 = some (m : Int) := if_pos hm
  have hn' : (Number.posInt n).asI64 = some (n : Int) := if_pos hn
  simp only [eq, numEq, hm', hn', decide_eq_true_eq, Int.ofNat_inj]

theorem ge_posInt (hm : m < 2 ^ 63) (hn : n < 2 ^ 63) :
    ge (.num (.posInt m)) (.num (.posInt n)) = !lt (.num (.posInt m)) (.num (.posInt n)) := by
  rw [Bool.eq_iff_iff, ge, Bool.or_eq_true, Bool.not_eq_true', Bool.eq_false_iff, Ne,
    lt_posInt hm hn, lt_posInt hn hm, eq_posInt hm hn]
  omega

@[simp] theorem eq_str_left : eq (.str s) v = true ↔ v = .str s := by
  cases v with
  | str x =>
    rw [eq, decide_eq_true_eq, Json.str.injEq]
    exact eq_comm
  | _ => simp [eq]

@[simp] theorem eq_str_right : eq v (.str s) = true ↔ v = .str s := by
  cases v with
  | str x => rw [eq, decide_eq_true_eq, Json.str.injEq]
  | _ => simp [eq]

@[simp] theorem eq_str_self (s : String) : eq (.str s) (.str s) = true := eq_str_left.mpr rfl

/-! ## The matcher -/

def dynamicAsF64 : Json → Option F64
  | .num n => some n.asF64
  | _ => none

mutual

/-- `dynamic_to_json_value`: a value as it comes back from the interpreter. -/
def dynamicToJsonValue : Json → Json
  | .num n =>
    match n.asI64 with
    | some i => .num (.ofInt i)
    | none => .num (.float n.asF64.bits)
  | .arr elems => .arr (dynamicToJsonValues elems)
  | .obj entries => .obj (dynamicToJsonEntries entries)
  | .null => .null
  | .bool b => .bool b
  | .str s => .str s

def dynamicToJsonValues : List Json → List Json
  | [] => []
  | x :: xs => dynamicToJsonValue x :: dynamicToJsonValues xs

def dynamicToJsonEntries : List (String × Json) → List (String × Json)
  | [] => []
  | (k, x) :: xs => (k, dynamicToJsonValue x) :: dynamicToJsonEntries xs

end

def dynamicEq (a b : Json) : Bool :=
  match dynamicAsF64 a, dynamicAsF64 b with
  | some x, some y => F64.eq x y
  | _, _ => (dynamicToJsonValue a).eqv (dynamicToJsonValue b)

def evalOp (op : String) (fieldValue expected : Json) : Bool :=
  let compare (holds : F64 → F64 → Bool) :=
    match dynamicAsF64 fieldValue, dynamicAsF64 expected with
    | some a, some b => holds a b
    | _, _ => false
  match op with
  | "eq" => dynamicEq fieldValue expected
  | "neq" => !dynamicEq fieldValue expected
  | "gt" => compare fun a b => b.lt a
  | "gte" => compare fun a b => b.lt a || b.eq a
  | "lt" => compare fun a b => a.lt b
  | "lte" => compare fun a b => a.lt b || a.eq b
  | "in" =>
    match expected with
    | .arr members => members.any fun member => dynamicEq fieldValue member
    | _ => false
  | _ => false

/-- One constraint; anything that is malformed or missing fails it. -/
def holdsConstraint (caps : RhaiMap) (constraint : Json) : Bool :=
  match constraint with
  | .obj c =>
    match (prop c "capability").asStr?, (prop c "field").asStr?, (prop c "op").asStr? with
    | some capability, some field, some op =>
      match caps.lookup capability with
      | some (.obj cap) =>
        match cap.lookup field with
        | some fieldValue => op = "exists" || evalOp op fieldValue (prop c "value")
        | none => false
      | _ => false
    | _, _, _ => false
  | _ => false

/-- `satisfies_impl`: without an array of constraints there is nothing to satisfy. -/
def satisfiesImpl (requirements caps : RhaiMap) : Bool :=
  match requirements.lookup "constraints" with
  | some (.arr constraints) => constraints.all (holdsConstraint caps)
  | _ => true

/-- `satisfies` as a guard calls it. It is registered for two maps; on anything else the call is an
error, and a guard that fails rejects the binding. -/
def satisfies (requirements caps : Json) : Bool :=
  match requirements, caps with
  | .obj requirements, .obj caps => satisfiesImpl requirements caps
  | _, _ => false

end Rhai

end Mekhan

import Mathlib.Data.Rat.Defs

/-!
# JSON values

`serde_json::Value`, as far as the modelled code reads it. A number is an integer
of 64 bits, signed or unsigned, or has a fraction or an exponent; the latter are
kept as exact rationals. An object is a map, as a list of its entries in the order
of their keys.
-/

namespace Omnion

/-- A JSON number. -/
inductive Number where
  | int (n : ℤ)
  /-- A number with a fraction or an exponent. -/
  | float (q : ℚ)
  deriving DecidableEq

/-- A JSON value. -/
inductive Json where
  | null
  | bool (b : Bool)
  | number (n : Number)
  | string (s : String)
  | array (items : List Json)
  | object (fields : List (String × Json))

namespace Json

/-- `Value::get` with a key. -/
def get (key : String) : Json → Option Json
  | .object fields => fields.lookup key
  | _ => none

/-- `Value::as_str`. -/
def asStr : Json → Option String
  | .string s => some s
  | _ => none

/-- `Value::as_bool`. -/
def asBool : Json → Option Bool
  | .bool b => some b
  | _ => none

/-- `Value::as_array`. -/
def asArray : Json → Option (List Json)
  | .array items => some items
  | _ => none

/-- `Value::as_i64`. -/
def asI64 : Json → Option ℤ
  | .number (.int n) => if -0x8000000000000000 ≤ n ∧ n ≤ 0x7fffffffffffffff then some n else none
  | _ => none

/-- The 64-bit float nearest to an integer, the even one of two. -/
def nearestFloat (n : ℤ) : ℤ :=
  -- The bits beyond the 53 of a float are rounded off.
  let extra := n.natAbs.log2 + 1 - 53
  let unit := 1 <<< extra
  let kept := n.natAbs / unit
  let rest := n.natAbs % unit
  let kept := if 2 * rest > unit ∨ (2 * rest = unit ∧ kept % 2 = 1) then kept + 1 else kept
  n.sign * (kept * unit : ℕ)

/-- `Value::as_f64`. -/
def asF64 : Json → Option ℚ
  | .number (.int n) => some (nearestFloat n)
  | .number (.float q) => some q
  | _ => none

mutual

/-- `==` of values. An integer is never equal to a number with a fraction. -/
def beq : Json → Json → Bool
  | .null, .null => true
  | .bool a, .bool b => a == b
  | .number a, .number b => a == b
  | .string a, .string b => a == b
  | .array a, .array b => beqItems a b
  | .object a, .object b => beqFields a b
  | _, _ => false

/-- `==` of arrays. -/
def beqItems : List Json → List Json → Bool
  | [], [] => true
  | a :: as, b :: bs => beq a b && beqItems as bs
  | _, _ => false

/-- `==` of objects. -/
def beqFields : List (String × Json) → List (String × Json) → Bool
  | [], [] => true
  | (k, a) :: as, (l, b) :: bs => k == l && beq a b && beqFields as bs
  | _, _ => false

end

theorem sizeOf_of_lookup {fields : List (String × Json)} {key : String} {v : Json}
    (h : fields.lookup key = some v) : sizeOf v < sizeOf (Json.object fields) := by
  obtain ⟨l, r, hfields, -⟩ := List.lookup_eq_some_iff.mp h
  have hmem : sizeOf (key, v) < sizeOf fields := List.sizeOf_lt_of_mem (by rw [hfields]; simp)
  simp only [Prod.mk.sizeOf_spec, Json.object.sizeOf_spec] at hmem ⊢
  omega

theorem sizeOf_of_mem {items : List Json} {v : Json} (h : v ∈ items) :
    sizeOf v < sizeOf (Json.array items) := by
  have := List.sizeOf_lt_of_mem h
  simp only [Json.array.sizeOf_spec]
  omega

end Json

end Omnion

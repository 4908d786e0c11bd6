/-!
# JSON values

Requests and answers are JSON documents. A number keeps the kind it was read as: a whole
number that fits in 64 unsigned bits, a negative whole number that fits in 64 signed bits,
or a double. The kind decides how the number is used (a count must be an unsigned whole
number) and how it is written back (a double always shows a point or an exponent).

An object is a list of fields. The reader keeps them in ascending order of their keys, each
key once with the last value given for it, as a map from keys to values would; answers are
written in the order their fields are listed.
-/

namespace Annealing.Json

/-- A JSON number, by the kind it was read as. -/
inductive Number where
  /-- A whole number below `2^64`. -/
  | unsigned (n : Nat)
  /-- A negative whole number, not below `-2^63`. -/
  | negative (n : Int)
  /-- A finite double. -/
  | double (x : Float)
  deriving Inhabited

/-- A JSON document. -/
inductive Value where
  | null
  | bool (b : Bool)
  | number (n : Number)
  | string (s : String)
  | array (xs : List Value)
  | object (fields : List (String × Value))
  deriving Inhabited

namespace Number

/-- The number as a double, rounded to the nearest one. -/
def toFloat : Number → Float
  | .unsigned n => Float.ofScientific n false 0
  | .negative n => -Float.ofScientific n.natAbs false 0
  | .double x => x

end Number

namespace Value

/-- Adds a field to fields in ascending key order, replacing the value of a key already
there. -/
def insertField (k : String) (v : Value) : List (String × Value) → List (String × Value)
  | [] => [(k, v)]
  | (k', v') :: rest =>
    if k < k' then (k, v) :: (k', v') :: rest
    else if k = k' then (k, v) :: rest
    else (k', v') :: insertField k v rest

/-- The value of a field of an object; `none` for a missing key or a value that is not an
object. -/
def get? (v : Value) (k : String) : Option Value :=
  match v with
  | .object fields => (fields.find? (·.1 == k)).map (·.2)
  | _ => none

end Value

end Annealing.Json

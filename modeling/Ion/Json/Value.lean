import Ion.Scalar.Binary64

/-!
JSON values. Integers and floats are different numbers; members keep the order in which their
keys first came.
-/
namespace Ion

inductive JsonNumber
  | int (value : Int)
  | float (value : Binary64)
  deriving DecidableEq, Repr

inductive JsonValue
  | null
  | bool (value : Bool)
  | number (value : JsonNumber)
  | string (value : String)
  | array (items : List JsonValue)
  | object (members : List (String × JsonValue))
  deriving Inhabited

namespace JsonNumber

def ofInt? (n : Int) : Option JsonNumber :=
  if -0x8000000000000000 ≤ n ∧ n < 0x10000000000000000 then some (int n) else none

def ofFloat? (f : Binary64) : Option JsonNumber := if f.isFinite then some (float f) else none

end JsonNumber

namespace JsonValue

def insert (key : String) (value : JsonValue) : List (String × JsonValue) → List (String × JsonValue)
  | [] => [(key, value)]
  | (k, v) :: rest => if k = key then (k, value) :: rest else (k, v) :: insert key value rest

def ofMembers (members : List (String × JsonValue)) : JsonValue :=
  object (members.foldl (fun acc (key, value) => insert key value acc) [])

end JsonValue

end Ion

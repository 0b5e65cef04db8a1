import Ion.Scalar.Binary64
import Ion.Scalar.Decimal
import Ion.Scalar.Timestamp

/-!
Decoded scalars. An integer is held in the narrowest of three forms; asking for a wider one
widens it, asking for a narrower one succeeds if the number fits.
-/
namespace Ion

inductive IntegerSize
  | unknown | int | long | big
  deriving DecidableEq, Repr

inductive Scalar
  | bool (value : Bool)
  | int (value : Int32)
  | long (value : Int64)
  | big (value : Int)
  | double (value : Binary64)
  | decimal (value : Decimal)
  | string (value : String)
  | timestamp (value : Timestamp)
  deriving DecidableEq

def int32? (n : Int) : Option Int32 :=
  if -0x80000000 ≤ n ∧ n < 0x80000000 then some (Int32.ofInt n) else none

def int64? (n : Int) : Option Int64 :=
  if -0x8000000000000000 ≤ n ∧ n < 0x8000000000000000 then some (Int64.ofInt n) else none

namespace Scalar

def integer (n : Int) : Scalar :=
  match int32? n, int64? n with
  | some i, _ => int i
  | none, some l => long l
  | none, none => big n

end Scalar

abbrev Variant := Option Scalar

namespace Variant

def integerSize : Variant → IntegerSize
  | some (.int _) => .int
  | some (.long _) => .long
  | some (.big _) => .big
  | _ => .unknown

def integer? : Variant → Option Int
  | some (.int n) => some n.toInt
  | some (.long n) => some n.toInt
  | some (.big n) => some n
  | _ => none

def long? (v : Variant) : Option Int64 := v.integer?.bind int64?

def int? (v : Variant) : Option Int32 := v.integer?.bind int32?

def bool? : Variant → Option Bool
  | some (.bool b) => some b
  | _ => none

def double? : Variant → Option Binary64
  | some (.double f) => some f
  | _ => none

def decimal? : Variant → Option Decimal
  | some (.decimal d) => some d
  | _ => none

def string? : Variant → Option String
  | some (.string s) => some s
  | _ => none

def timestamp? : Variant → Option Timestamp
  | some (.timestamp t) => some t
  | _ => none

end Variant

end Ion

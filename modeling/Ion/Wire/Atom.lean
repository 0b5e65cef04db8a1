import Ion.VarInt
import Ion.Scalar.Binary64
import Ion.Scalar.Decimal
import Ion.Scalar.Timestamp

/-!
The written form of values without children: a descriptor, a length where it does not fit the
descriptor, and a body. Each body is the shortest of its kind.
-/
namespace Ion

inductive Atom
  | null (type : ValueType)
  | bool (value : Bool)
  | int (value : Int)
  | float (value : Binary64)
  | decimal (value : Decimal)
  | timestamp (value : Timestamp)
  | symbol (sid : Nat)
  | string (value : String)
  | clob (value : Bytes)
  | blob (value : Bytes)
  deriving DecidableEq

namespace Wire

def shortLength : Nat := 13

def header (code length : Nat) : Bytes :=
  if length ≤ shortLength then [descriptor code length]
  else descriptor code longLength :: VarUInt.encode length

def typed (code : Nat) (body : Bytes) : Bytes := header code body.length ++ body

def signedMagnitude (n : Int) : Bytes :=
  let sign := if n < 0 then 128 else 0
  match Bytes.shortest n.natAbs with
  | [] => []
  | b :: rest =>
    if 128 ≤ b.toNat then UInt8.ofNat sign :: b :: rest
    else UInt8.ofNat (sign + b.toNat) :: rest

def intCode (n : Int) : Nat := if n < 0 then negativeCode else ValueType.int.code

def float (f : Binary64) : Bytes :=
  typed ValueType.float.code (if f = .zero then [] else Bytes.be 8 f.bits.toNat)

def decimal? (d : Decimal) : Except IonError Bytes :=
  if d.scale = Int64.minValue then .error .numericOverflow
  else if d.scale = 0 ∧ d.coefficient = 0 then .ok (typed ValueType.decimal.code [])
  else
    .ok <| typed ValueType.decimal.code <|
      VarInt.encodeInt (-d.scale.toInt) ++ signedMagnitude d.coefficient

def offset : Option Int → Bytes
  | none => VarInt.encode true 0
  | some m => VarInt.encodeInt m

def timestampFields (t : Timestamp) : List Nat :=
  [t.utc.date.month, t.utc.date.day, t.utc.time.hour, t.utc.time.minute, t.utc.time.second].take
    t.precision.fields

def fraction : Option (Nat × Nat) → Bytes
  | none => []
  | some (digits, coefficient) => VarInt.encode true digits ++ signedMagnitude coefficient

def timestampBody (t : Timestamp) : Bytes :=
  offset t.offset ++ VarUInt.encode t.utc.date.year.toNat ++
    (timestampFields t).flatMap VarUInt.encode ++ fraction t.fraction?

end Wire

namespace Atom

def type : Atom → ValueType
  | null t => t
  | bool _ => .bool
  | int _ => .int
  | float _ => .float
  | decimal _ => .decimal
  | timestamp _ => .timestamp
  | symbol _ => .symbol
  | string _ => .string
  | clob _ => .clob
  | blob _ => .blob

def encode? : Atom → Except IonError Bytes
  | null t => .ok [t.nullByte]
  | bool b => .ok [descriptor ValueType.bool.code b.toNat]
  | int n => .ok (Wire.typed (Wire.intCode n) (Bytes.shortest n.natAbs))
  | float f => .ok (Wire.float f)
  | decimal d => Wire.decimal? d
  | timestamp t => .ok (Wire.typed ValueType.timestamp.code (Wire.timestampBody t))
  | symbol sid => .ok (Wire.typed ValueType.symbol.code (Bytes.shortest sid))
  | string s => .ok (Wire.typed ValueType.string.code (Bytes.ofText s))
  | clob raw => .ok (Wire.typed ValueType.clob.code raw)
  | blob raw => .ok (Wire.typed ValueType.blob.code raw)

end Atom

end Ion

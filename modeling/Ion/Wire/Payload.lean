import Ion.Scalar.Variant
import Ion.Wire.Scan

/-!
What the body of a scalar says. Bodies need not be the shortest of their value: leading zeros,
four-byte floats, long numbers and fractions finer than a nanosecond are read as well.
-/
namespace Ion

namespace Payload

def signed (negative : Bool) (magnitude : Nat) : Int :=
  if negative then -(magnitude : Int) else magnitude

def word (raw : Bytes) : UInt64 := raw.foldl (fun acc b => acc * 256 + b.toUInt64) 0

def intMagnitude (raw : Bytes) : Nat :=
  if raw.length ≤ 8 then (word raw).toNat else Bytes.value raw

def int (negative : Bool) (raw : Bytes) : Except IonError Scalar :=
  let magnitude := intMagnitude raw
  if negative ∧ magnitude = 0 then .error .negativeZero
  else .ok (.integer (signed negative magnitude))

def float (raw : Bytes) : Except IonError Binary64 :=
  match raw.length with
  | 0 => .ok .zero
  | 4 => .ok (.ofBinary32 (Bytes.value raw))
  | 8 => .ok ⟨UInt64.ofNat (Bytes.value raw)⟩
  | n => .error (.badFloatLength n)

def exponent : Scan Int := do
  let (negative, magnitude) ← Scan.lift Cursor.varInt
  if magnitude < 0x8000000000000000 then return signed negative magnitude else throw .numericOverflow

def coefficient : Scan Int := do
  let (negative, magnitude) ← Scan.lift (Cursor.int (← get).remaining)
  return signed negative (Bytes.value magnitude)

def decimal (raw : Bytes) : Except IonError Decimal :=
  if raw = [] then .ok .zero
  else
    Scan.runOn raw do
      let e ← exponent
      let c ← coefficient
      return ⟨c, Int64.ofInt (-e)⟩

def offset : Scan (Option Int) := do
  let (negative, magnitude) ← Scan.lift Cursor.varInt
  if negative ∧ magnitude = 0 then return none
  else if magnitude < 0x80000000 then return some (signed negative magnitude)
  else throw .badTimestamp

def numbers : Nat → Scan (List Nat)
  | 0 => return []
  | limit + 1 => do
    if (← get).atEnd then return []
    else
      let n ← Scan.lift Cursor.varUInt
      let rest ← numbers limit
      return n :: rest

def precisionOf? : Nat → Option Precision
  | 0 => some .year
  | 1 => some .month
  | 2 => some .day
  | 4 => some .minute
  | 5 => some .second
  | _ => none

def fractionLimit : Nat := 1000

def fractionOf (exponent coefficient : Int) : Except IonError (Precision × Nat) :=
  if coefficient < 0 then .error .badTimestamp
  else if 0 ≤ exponent then
    if coefficient = 0 then .ok (.second, 0) else .error .badTimestamp
  else
    let digits := exponent.natAbs
    if fractionLimit < digits then .error .badTimestamp
    else
      let whole := Nat.pow 10 digits
      if whole ≤ coefficient.natAbs then .error .badTimestamp
      else .ok (.fraction (min digits 9), coefficient.natAbs * 1000000000 / whole)

def fraction (precision : Precision) : Scan (Precision × Nat) := do
  if (← get).atEnd then return (precision, 0)
  else
    let e ← exponent
    let c ← coefficient
    match fractionOf e c with
    | .ok found => return found
    | .error e => throw e

def moment? (year : Nat) (fields : List Nat) (nano : Nat) : Option DateTime := do
  let date ← Date.of? year (fields[0]?.getD 1) (fields[1]?.getD 1)
  let time ← Time.of? (fields[2]?.getD 0) (fields[3]?.getD 0) (fields[4]?.getD 0) nano
  return ⟨date, time⟩

def timestamp (raw : Bytes) : Except IonError Timestamp :=
  Scan.runOn raw do
    let offset ← offset
    let year ← Scan.lift Cursor.varUInt
    let fields ← numbers 5
    let some precision := precisionOf? fields.length | throw .badTimestamp
    let (precision, nano) ← fraction precision
    let some utc := moment? year fields nano | throw .badTimestamp
    match Timestamp.of utc offset precision with
    | .ok t => return t
    | .error e => throw e

def text (raw : Bytes) : Except IonError String :=
  match Bytes.text? raw with
  | some s => .ok s
  | none => .error (.input .invalidText)

def symbol (raw : Bytes) : Except IonError Nat :=
  if raw.length ≤ 4 then .ok (Bytes.value raw) else .error .numericOverflow

end Payload

end Ion

import Ion.Register
import Ion.Wire.Payload

/-!
Timestamps on machine integers. Offsets are registers of 32 bits, digits of 8, and every absolute value,
product, power and conversion on the way is checked: work stops where one does not fit.
-/
namespace Ion

inductive MachinePrecision
  | year
  | month
  | day
  | minute
  | second
  | fraction (digits : Register .unsigned8)
  deriving DecidableEq, Repr

namespace MachinePrecision

def plain : MachinePrecision → Precision
  | year => .year
  | month => .month
  | day => .day
  | minute => .minute
  | second => .second
  | fraction digits => .fraction digits.value.toNat

def hasTime (p : MachinePrecision) : Bool := p.plain.hasTime

def inRange (p : MachinePrecision) : Bool := p.plain.inRange

def dateOnly : MachinePrecision → MachinePrecision
  | year => year
  | month => month
  | _ => day

end MachinePrecision

namespace Time

def nanos (t : Time) : Register .unsigned32 :=
  ⟨t.nano, Int.natCast_nonneg _, by have := t.valid; simp only [Width.unsigned32]; omega⟩

def cappedNanos (t : Time) : Register .unsigned32 :=
  ⟨(min t.nano 999999999 : Nat), Int.natCast_nonneg _, by simp only [Width.unsigned32]; omega⟩

end Time

structure MachineTimestamp where
  utc : DateTime
  offset : Option (Register .signed32)
  precision : MachinePrecision
  deriving DecidableEq, Repr

namespace MachineTimestamp

def refuse : Checked α := .error (.refused .badTimestamp)

def fractionScale (digits : Register .unsigned8) : Checked (Register .unsigned32) := do
  let nine : Register .unsigned32 := ⟨9, by decide⟩
  let ten : Register .unsigned32 := ⟨10, by decide⟩
  ten.power (← nine.minus (← digits.cast .unsigned32))

def cutDate? (d : Date) : MachinePrecision → Option Date
  | .year => Date.of? d.year 1 1
  | .month => Date.of? d.year d.month 1
  | _ => Date.of? d.year d.month d.day

def cutTime? (t : Time) : MachinePrecision → Checked (Option Time)
  | .year | .month | .day => return Time.of? 0 0 0 0
  | .minute => return Time.of? t.hour t.minute 0 0
  | .second => return Time.of? t.hour t.minute t.second 0
  | .fraction digits => do
    let scale ← fractionScale digits
    let nano ← (← t.cappedNanos.quotient scale).times scale
    return Time.of? t.hour t.minute t.second nano.value.toNat

def truncate (utc : DateTime) (p : MachinePrecision) : Checked (Option DateTime) :=
  match cutDate? utc.date p with
  | some date => do return (← cutTime? utc.time p).map fun time => ⟨date, time⟩
  | none => return none

def checkedOffset : Option (Register .signed32) → Checked (Option (Register .signed32))
  | none => return none
  | some m => do if minutesOfDay ≤ (← m.abs).value then refuse else return some m

def of (utc : DateTime) (offset : Option (Register .signed32)) (p : MachinePrecision) :
    Checked MachineTimestamp :=
  if 1 ≤ utc.date.year ∧ utc.date.year ≤ 9999 then
    if p.inRange then do
      let offset ← if p.hasTime then checkedOffset offset else pure none
      match ← truncate utc p with
      | some utc => return ⟨utc, offset, p⟩
      | none => refuse
    else refuse
  else refuse

def ofDate (year : Register .signed32) (month day : Register .unsigned32) (p : MachinePrecision) :
    Checked MachineTimestamp :=
  match Date.of? year.value month.value.toNat day.value.toNat with
  | some date => of ⟨date, .midnight⟩ none p.dateOnly
  | none => refuse

def ofYear (year : Register .signed32) : Checked MachineTimestamp :=
  ofDate year ⟨1, by decide⟩ ⟨1, by decide⟩ .year

def ofInstant (utc : DateTime) (offsetSeconds : Register .signed32) (p : MachinePrecision) :
    Checked MachineTimestamp := do
  of utc (some (← offsetSeconds.quotient ⟨60, by decide⟩)) p

def dropZero? (digits : Register .unsigned8) (nano : Register .unsigned32) :
    Checked (Option (Register .unsigned8 × Register .unsigned32)) :=
  if 1 < digits.value then do
    if (← nano.remainder ⟨10, by decide⟩).value = 0 then
      let nano ← nano.quotient ⟨10, by decide⟩
      return some (← digits.minus ⟨1, by decide⟩, nano)
    else return none
  else return none

theorem dropZeroFewer {digits fewer : Register .unsigned8} {nano rest : Register .unsigned32}
    (turn : dropZero? digits nano = .ok (some (fewer, rest))) : fewer.value.toNat < digits.value.toNat := by
  unfold dropZero? at turn
  split at turn
  · rename_i many
    obtain ⟨last, -, turn⟩ := exceptOk turn
    split at turn
    · obtain ⟨cut, -, turn⟩ := exceptOk turn
      obtain ⟨one, less, ends⟩ := exceptOk turn
      cases ends
      have value : fewer.value = digits.value - 1 := Register.exactlyValue less
      omega
    · cases turn
  · cases turn

def leastDigits (digits : Register .unsigned8) (nano : Register .unsigned32) : Checked (Register .unsigned8) :=
  match turn : dropZero? digits nano with
  | .ok (some (fewer, nano)) =>
    have := dropZeroFewer turn
    leastDigits fewer nano
  | .ok none => .ok digits
  | .error trap => .error trap
termination_by digits.value.toNat

def exactPrecision (utc : DateTime) : Checked MachinePrecision := do
  if utc.time.cappedNanos.value = 0 then return .second
  else return .fraction (← leastDigits ⟨9, by decide⟩ utc.time.cappedNanos)

def ofInstantExact (utc : DateTime) (offsetSeconds : Register .signed32) : Checked MachineTimestamp := do
  ofInstant utc offsetSeconds (← exactPrecision utc)

def fraction? (t : MachineTimestamp) : Checked (Option (Register .unsigned8 × Register .unsigned32)) :=
  match t.precision with
  | .fraction digits => do return some (digits, ← t.utc.time.nanos.quotient (← fractionScale digits))
  | _ => return none

def offsetSeconds (t : MachineTimestamp) : Checked Int :=
  match t.offset with
  | some m => do
    let seconds ← m.times ⟨60, by decide⟩
    return if seconds.value.natAbs < 86400 then seconds.value else 0
  | none => return 0

def localTime (t : MachineTimestamp) : Checked DateTime := do return t.utc.shift ((← t.offsetSeconds) / 60)

def offsetText : Option (Register .signed32) → Checked String
  | none => return "-00:00"
  | some m =>
    if m.value = 0 then return "Z"
    else do
      let hours ← (← m.abs).quotient ⟨60, by decide⟩
      let minutes ← (← m.abs).remainder ⟨60, by decide⟩
      return (if m.value < 0 then "-" else "+") ++ Timestamp.padded 2 hours.value.toNat ++ ":" ++
        Timestamp.padded 2 minutes.value.toNat

def fractionText (t : MachineTimestamp) : Checked String := do
  match ← t.fraction? with
  | some (digits, coefficient) => return "." ++ Timestamp.padded digits.value.toNat coefficient.value.toNat
  | none => return ""

def text (t : MachineTimestamp) : Checked String := do
  let moment ← t.localTime
  let date := Timestamp.dateText moment.date t.precision.plain
  if t.precision.hasTime then
    let second := if 5 ≤ t.precision.plain.fields then ":" ++ Timestamp.padded 2 moment.time.second else ""
    let fraction ← t.fractionText
    let offset ← offsetText t.offset
    return date ++ "T" ++ Timestamp.padded 2 moment.time.hour ++ ":" ++ Timestamp.padded 2 moment.time.minute ++
      (second ++ fraction) ++ offset
  else return date

end MachineTimestamp

abbrev MachineScan (α : Type) := EStateM Trap Cursor α

namespace MachinePayload

open MachineTimestamp (refuse)

def read (act : Scan α) : MachineScan α := act.adaptExcept .refused

def runOn (raw : Bytes) (act : MachineScan α) : Checked α :=
  match act (.ofBytes raw) with
  | .ok a _ => .ok a
  | .error trap _ => .error trap

def check : Checked α → MachineScan α
  | .ok a => return a
  | .error trap => throw trap

def varUInt : MachineScan (Register .unsigned64) := do
  check (Register.exactly .unsigned64 (← read (Scan.lift Cursor.varUInt)))

def varInt : MachineScan (Bool × Register .unsigned64) := do
  let (negative, magnitude) ← read (Scan.lift Cursor.varInt)
  return (negative, ← check (Register.exactly .unsigned64 magnitude))

def signed (w : Width) (cause : IonError) (negative : Bool) (magnitude : Register .unsigned64) :
    Checked (Register w) := do
  let value ← Register.narrow w cause magnitude.value
  if negative then value.neg else return value

def exponent : MachineScan (Register .signed64) := do
  let (negative, magnitude) ← varInt
  check (signed .signed64 .numericOverflow negative magnitude)

def offset : MachineScan (Option (Register .signed32)) := do
  let (negative, magnitude) ← varInt
  if negative ∧ magnitude.value = 0 then return none
  else return some (← check (signed .signed32 .badTimestamp negative magnitude))

def numbers : Nat → Register .unsigned64 → MachineScan (Register .unsigned64 × List (Register .unsigned64))
  | 0, count => return (count, [])
  | limit + 1, count => do
    if (← get).atEnd then return (count, [])
    else
      let n ← varUInt
      let (count, rest) ← numbers limit (← check (count.plus ⟨1, by decide⟩))
      return (count, n :: rest)

def precisionOf? (count : Register .unsigned64) : Option MachinePrecision :=
  match count.value with
  | 0 => some .year
  | 1 => some .month
  | 2 => some .day
  | 3 => none
  | 4 => some .minute
  | _ => some .second

def scaled (digits : Register .unsigned32) (coefficient : Int) :
    Checked (MachinePrecision × Register .unsigned32) :=
  if Payload.fractionLimit < digits.value then refuse
  else
    let whole := Nat.pow 10 digits.value.toNat
    if whole ≤ coefficient then refuse
    else do
      let nano ← Register.narrow .unsigned32 .badTimestamp (coefficient * 1000000000 / whole)
      return (.fraction (← Register.exactly .unsigned8 (min digits.value 9)), nano)

def fractionOf (exponent : Register .signed64) (coefficient : Int) :
    Checked (MachinePrecision × Register .unsigned32) :=
  if coefficient < 0 then refuse
  else if 0 ≤ exponent.value then
    if coefficient = 0 then return (.second, ⟨0, by decide⟩) else refuse
  else do
    let digits ← Register.narrow .unsigned32 .badTimestamp (← exponent.neg).value
    scaled digits coefficient

def fraction (precision : MachinePrecision) : MachineScan (MachinePrecision × Register .unsigned32) := do
  if (← get).atEnd then return (precision, ⟨0, by decide⟩)
  else
    let e ← exponent
    let c ← read Payload.coefficient
    check (fractionOf e c)

def field (fields : List (Register .unsigned64)) (place : Nat) (absent : Register .unsigned64) :
    Checked (Register .unsigned32) :=
  Register.narrow .unsigned32 .badTimestamp (fields[place]?.getD absent).value

def date (year : Register .signed32) (fields : List (Register .unsigned64)) : Checked Date := do
  let month ← field fields 0 ⟨1, by decide⟩
  let day ← field fields 1 ⟨1, by decide⟩
  match Date.of? year.value month.value.toNat day.value.toNat with
  | some date => return date
  | none => refuse

def time (fields : List (Register .unsigned64)) (nano : Register .unsigned32) : Checked Time := do
  let hour ← field fields 2 ⟨0, by decide⟩
  let minute ← field fields 3 ⟨0, by decide⟩
  let second ← field fields 4 ⟨0, by decide⟩
  match Time.of? hour.value.toNat minute.value.toNat second.value.toNat nano.value.toNat with
  | some time => return time
  | none => refuse

def moment (year : Register .unsigned64) (fields : List (Register .unsigned64)) (nano : Register .unsigned32) :
    Checked DateTime := do
  let year ← Register.narrow .signed32 .badTimestamp year.value
  let date ← date year fields
  return ⟨date, ← time fields nano⟩

def timestampScan : MachineScan MachineTimestamp := do
  let offset ← offset
  let year ← varUInt
  let (count, fields) ← numbers 5 ⟨0, by decide⟩
  match precisionOf? count with
  | none => check refuse
  | some precision =>
    let (precision, nano) ← fraction precision
    check do
      let utc ← moment year fields nano
      MachineTimestamp.of utc offset precision

def timestamp (raw : Bytes) : Checked MachineTimestamp := runOn raw timestampScan

end MachinePayload

end Ion

import Ion.Error
import Ion.Scalar.Calendar

/-!
Timestamps: a UTC date-time known to a precision, with a local offset that may be unknown.
What lies below the precision is at its least, and dates carry no offset.
-/
namespace Ion

inductive Precision
  | year
  | month
  | day
  | minute
  | second
  | fraction (digits : Nat)
  deriving DecidableEq, Repr

namespace Precision

def fields : Precision → Nat
  | year => 0
  | month => 1
  | day => 2
  | minute => 4
  | second | fraction _ => 5

def hasTime (p : Precision) : Bool := 4 ≤ p.fields

def inRange : Precision → Bool
  | fraction digits => 1 ≤ digits && digits ≤ 9
  | _ => true

def dateOnly : Precision → Precision
  | year => year
  | month => month
  | _ => day

end Precision

def fractionUnit (digits : Nat) : Nat := Nat.pow 10 (9 - digits)

def cutNano (digits nano : Nat) : Nat :=
  min nano 999999999 / fractionUnit digits * fractionUnit digits

theorem cutNanoBound (digits nano : Nat) : cutNano digits nano ≤ 999999999 := by
  have cut := Nat.div_mul_le_self (min nano 999999999) (fractionUnit digits)
  unfold cutNano
  omega

theorem cutNanoCut (digits nano : Nat) : cutNano digits (cutNano digits nano) = cutNano digits nano := by
  have bound := cutNanoBound digits nano
  have unit : 0 < fractionUnit digits := Nat.pow_pos (by decide)
  rw [cutNano, Nat.min_eq_left bound]
  rw [show cutNano digits nano = min nano 999999999 / fractionUnit digits * fractionUnit digits from rfl]
  rw [Nat.mul_div_cancel _ unit]

namespace DateTime

def truncate (t : DateTime) : Precision → DateTime
  | .year => ⟨t.date.firstOfYear, .midnight⟩
  | .month => ⟨t.date.firstOfMonth, .midnight⟩
  | .day => ⟨t.date, .midnight⟩
  | .minute => ⟨t.date, ⟨t.time.hour, t.time.minute, 0, 0, by have := t.time.valid; omega⟩⟩
  | .second =>
    ⟨t.date, ⟨t.time.hour, t.time.minute, t.time.second, 0, by have := t.time.valid; omega⟩⟩
  | .fraction digits =>
    ⟨t.date, ⟨t.time.hour, t.time.minute, t.time.second, cutNano digits t.time.nano, by
      have := t.time.valid
      have := cutNanoBound digits t.time.nano
      omega⟩⟩

theorem truncateTruncate (t : DateTime) (p : Precision) :
    (t.truncate p).truncate p = t.truncate p := by
  cases p <;> simp [truncate, Date.firstOfYear, Date.firstOfMonth, cutNanoCut]

theorem truncateYear (t : DateTime) (p : Precision) : (t.truncate p).date.year = t.date.year := by
  cases p <;> simp [truncate, Date.firstOfYear, Date.firstOfMonth]

end DateTime

def minutesOfDay : Nat := 1440

structure Timestamp where
  utc : DateTime
  -- minutes by which local time is ahead of UTC; none when unknown
  offset : Option Int
  precision : Precision
  yearFits : 1 ≤ utc.date.year ∧ utc.date.year ≤ 9999
  digitsFit : precision.inRange = true
  offsetFits : ∀ m ∈ offset, precision.hasTime = true ∧ m.natAbs < minutesOfDay
  truncated : utc.truncate precision = utc

namespace Timestamp

theorem ext {a b : Timestamp} (utc : a.utc = b.utc) (offset : a.offset = b.offset)
    (precision : a.precision = b.precision) : a = b := by
  cases a; cases b; simp_all

instance : DecidableEq Timestamp := fun a b =>
  decidable_of_iff (a.utc = b.utc ∧ a.offset = b.offset ∧ a.precision = b.precision)
    ⟨fun h => ext h.1 h.2.1 h.2.2, fun h => by simp [h]⟩

def keptOffset (offset : Option Int) (precision : Precision) : Option Int :=
  if precision.hasTime then offset else none

def of (utc : DateTime) (offset : Option Int) (precision : Precision) : Except IonError Timestamp :=
  if h : (1 ≤ utc.date.year ∧ utc.date.year ≤ 9999) ∧ precision.inRange = true ∧
      ∀ m ∈ keptOffset offset precision, m.natAbs < minutesOfDay then
    .ok
      { utc := utc.truncate precision
        offset := keptOffset offset precision
        precision
        yearFits := by rw [utc.truncateYear]; exact h.1
        digitsFit := h.2.1
        offsetFits := by
          intro m kept
          refine ⟨?_, h.2.2 m kept⟩
          unfold keptOffset at kept
          split at kept
          · assumption
          · simp at kept
        truncated := utc.truncateTruncate precision }
  else .error .badTimestamp

def ofDate (year : Int) (month day : Nat) (precision : Precision) : Except IonError Timestamp :=
  match Date.of? year month day with
  | some date => of ⟨date, .midnight⟩ none precision.dateOnly
  | none => .error .badTimestamp

def ofYear (year : Int) : Except IonError Timestamp := ofDate year 1 1 .year

def ofInstant (utc : DateTime) (offsetSeconds : Int) (precision : Precision) :
    Except IonError Timestamp :=
  of utc (some (offsetSeconds.tdiv 60)) precision

def leastDigits : Nat → Nat → Nat
  | digits + 2, nano => if nano % 10 = 0 then leastDigits (digits + 1) (nano / 10) else digits + 2
  | digits, _ => digits

def exactPrecision (utc : DateTime) : Precision :=
  match min utc.time.nano 999999999 with
  | 0 => .second
  | nano => .fraction (leastDigits 9 nano)

def ofInstantExact (utc : DateTime) (offsetSeconds : Int) : Except IonError Timestamp :=
  ofInstant utc offsetSeconds (exactPrecision utc)

def fraction? (t : Timestamp) : Option (Nat × Nat) :=
  match t.precision with
  | .fraction digits => some (digits, t.utc.time.nano / fractionUnit digits)
  | _ => none

def localTime (t : Timestamp) : DateTime := t.utc.shift (t.offset.getD 0)

def padded (width n : Nat) : String :=
  let digits := Nat.toDigits 10 n
  String.ofList (List.replicate (width - digits.length) '0' ++ digits)

def offsetText : Option Int → String
  | none => "-00:00"
  | some 0 => "Z"
  | some m => (if m < 0 then "-" else "+") ++ padded 2 (m.natAbs / 60) ++ ":" ++ padded 2 (m.natAbs % 60)

def dateText (d : Date) : Precision → String
  | .year => padded 4 d.year.toNat ++ "T"
  | .month => padded 4 d.year.toNat ++ "-" ++ padded 2 d.month ++ "T"
  | _ => padded 4 d.year.toNat ++ "-" ++ padded 2 d.month ++ "-" ++ padded 2 d.day

def secondText (t : Timestamp) : String :=
  (if 5 ≤ t.precision.fields then ":" ++ padded 2 t.utc.time.second else "") ++
  match t.fraction? with
  | some (digits, coefficient) => "." ++ padded digits coefficient
  | none => ""

def text (t : Timestamp) : String :=
  let moment := t.localTime
  let date := dateText moment.date t.precision
  if t.precision.hasTime then
    date ++ "T" ++ padded 2 moment.time.hour ++ ":" ++ padded 2 moment.time.minute ++ secondText t ++
      offsetText t.offset
  else date

end Timestamp

end Ion

/-!
Dates of the proleptic Gregorian calendar, times of day and both together. A second may be
lengthened: nanoseconds run to two seconds, which is how a leap second is given.
-/
namespace Ion

def isLeapYear (year : Int) : Bool :=
  year % 4 == 0 && (year % 100 != 0 || year % 400 == 0)

def daysInMonth (year : Int) (month : Nat) : Nat :=
  if month = 2 then if isLeapYear year then 29 else 28
  else if month = 4 ∨ month = 6 ∨ month = 9 ∨ month = 11 then 30
  else if 1 ≤ month ∧ month ≤ 12 then 31
  else 0

structure Date where
  year : Int
  month : Nat
  day : Nat
  valid : 1 ≤ day ∧ day ≤ daysInMonth year month
  deriving DecidableEq, Repr

structure Time where
  hour : Nat
  minute : Nat
  second : Nat
  nano : Nat
  valid : hour < 24 ∧ minute < 60 ∧ second < 60 ∧ nano < 2000000000
  deriving DecidableEq, Repr

structure DateTime where
  date : Date
  time : Time
  deriving DecidableEq, Repr

theorem daysInMonthPositive (year : Int) {month : Nat} (first : 1 ≤ month) (last : month ≤ 12) :
    28 ≤ daysInMonth year month := by
  unfold daysInMonth
  repeat' split
  all_goals omega

theorem monthOfDay {year : Int} {month day : Nat}
    (h : 1 ≤ day ∧ day ≤ daysInMonth year month) : 1 ≤ month ∧ month ≤ 12 := by
  unfold daysInMonth at h
  repeat' split at h
  all_goals omega

namespace Date

def of? (year : Int) (month day : Nat) : Option Date :=
  if h : 1 ≤ day ∧ day ≤ daysInMonth year month then some ⟨year, month, day, h⟩ else none

def firstOfMonth (d : Date) : Date :=
  have month := monthOfDay d.valid
  have days := daysInMonthPositive d.year month.1 month.2
  ⟨d.year, d.month, 1, by omega⟩

def firstOfYear (d : Date) : Date := ⟨d.year, 1, 1, by simp [daysInMonth]⟩

def next (d : Date) : Date :=
  if h : d.day + 1 ≤ daysInMonth d.year d.month then ⟨d.year, d.month, d.day + 1, by omega⟩
  else if m : d.month < 12 then
    have month := monthOfDay d.valid
    have days := daysInMonthPositive d.year (Nat.le_add_left 1 d.month) m
    ⟨d.year, d.month + 1, 1, by omega⟩
  else ⟨d.year + 1, 1, 1, by simp [daysInMonth]⟩

def previous (d : Date) : Date :=
  if h : 1 < d.day then ⟨d.year, d.month, d.day - 1, by have := d.valid; omega⟩
  else if m : 1 < d.month then
    have month := monthOfDay d.valid
    have days := daysInMonthPositive d.year (Nat.le_sub_one_of_lt m) (by omega)
    ⟨d.year, d.month - 1, daysInMonth d.year (d.month - 1), by omega⟩
  else ⟨d.year - 1, 12, 31, by simp [daysInMonth]⟩

end Date

namespace Time

def midnight : Time := ⟨0, 0, 0, 0, by decide⟩

def of? (hour minute second nano : Nat) : Option Time :=
  if h : hour < 24 ∧ minute < 60 ∧ second < 60 ∧ nano < 2000000000 then
    some ⟨hour, minute, second, nano, h⟩
  else none

def minutes (t : Time) : Nat := t.hour * 60 + t.minute

def withMinutes (t : Time) (minutes : Nat) : Time :=
  ⟨minutes / 60 % 24, minutes % 60, t.second, t.nano, by have := t.valid; omega⟩

end Time

namespace DateTime

def shift (t : DateTime) (minutes : Int) : DateTime :=
  let moved : Int := t.time.minutes + minutes
  if moved < 0 then ⟨t.date.previous, t.time.withMinutes (moved + 1440).toNat⟩
  else if moved < 1440 then ⟨t.date, t.time.withMinutes moved.toNat⟩
  else ⟨t.date.next, t.time.withMinutes (moved - 1440).toNat⟩

end DateTime

end Ion

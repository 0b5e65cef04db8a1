import Ion.Error

/-!
Machine integers: numbers between the least and the greatest of their width. An operation is the one on
numbers; work stops where that has no result or none that fits.
-/
namespace Ion

inductive Trap
  | overflow
  | zeroDivisor
  | refused (cause : IonError)
  deriving DecidableEq, Repr

abbrev Checked (α : Type) := Except Trap α

structure Width where
  least : Int
  greatest : Int
  deriving DecidableEq, Repr

namespace Width

def unsigned8 : Width := ⟨0, 255⟩

def unsigned32 : Width := ⟨0, 4294967295⟩

def unsigned64 : Width := ⟨0, 18446744073709551615⟩

def signed32 : Width := ⟨-2147483648, 2147483647⟩

def signed64 : Width := ⟨-9223372036854775808, 9223372036854775807⟩

def Holds (w : Width) (n : Int) : Prop := w.least ≤ n ∧ n ≤ w.greatest

instance (w : Width) (n : Int) : Decidable (w.Holds n) := inferInstanceAs (Decidable (_ ∧ _))

end Width

structure Register (w : Width) where
  value : Int
  fits : w.Holds value
  deriving DecidableEq, Repr

namespace Register

variable {w : Width}

def of? (w : Width) (n : Int) : Option (Register w) := if fits : w.Holds n then some ⟨n, fits⟩ else none

def exactly (w : Width) (n : Int) : Checked (Register w) :=
  match of? w n with
  | some a => .ok a
  | none => .error .overflow

theorem exactlyValue {n : Int} {a : Register w} (ok : exactly w n = .ok a) : a.value = n := by
  unfold exactly of? at ok
  split at ok
  · rename_i found
    cases ok
    split at found <;> cases found
    rfl
  · cases ok

def narrow (w : Width) (cause : IonError) (n : Int) : Checked (Register w) :=
  match of? w n with
  | some a => .ok a
  | none => .error (.refused cause)

def cast (v : Width) (a : Register w) : Checked (Register v) := exactly v a.value

def neg (a : Register w) : Checked (Register w) := exactly w (-a.value)

def abs (a : Register w) : Checked (Register w) := exactly w a.value.natAbs

def plus (a b : Register w) : Checked (Register w) := exactly w (a.value + b.value)

def minus (a b : Register w) : Checked (Register w) := exactly w (a.value - b.value)

def times (a b : Register w) : Checked (Register w) := exactly w (a.value * b.value)

def power (a b : Register w) : Checked (Register w) := exactly w (a.value.pow b.value.toNat)

def quotient (a b : Register w) : Checked (Register w) :=
  if b.value = 0 then .error .zeroDivisor else exactly w (a.value.tdiv b.value)

def remainder (a b : Register w) : Checked (Register w) := do
  let _ ← a.quotient b
  exactly w (a.value.tmod b.value)

def Gives (work : Checked (Register w)) (n : Int) : Prop := ∃ a, work = .ok a ∧ a.value = n

variable {a b : Register w} {n m : Nat}

theorem ofSome {n : Int} (fits : w.Holds n) : of? w n = some ⟨n, fits⟩ := dif_pos fits

theorem exactlyGives {n : Int} (fits : w.Holds n) : Gives (exactly w n) n :=
  ⟨⟨n, fits⟩, by rw [exactly, ofSome fits], rfl⟩

theorem narrowGives {n : Int} (cause : IonError) (fits : w.Holds n) : Gives (narrow w cause n) n :=
  ⟨⟨n, fits⟩, by rw [narrow, ofSome fits], rfl⟩

theorem narrowRefuses {n : Int} {cause : IonError} (misfit : ¬w.Holds n) :
    narrow w cause n = .error (.refused cause) := by
  rw [narrow, of?, dif_neg misfit]

section Signed

variable (balanced : w.least = -w.greatest - 1) (positive : a.value ≠ w.least)
include balanced positive

theorem negGives : Gives a.neg (-a.value) := by
  obtain ⟨low, high⟩ := a.fits
  exact exactlyGives ⟨by omega, by omega⟩

theorem absGives : Gives a.abs a.value.natAbs := by
  obtain ⟨low, high⟩ := a.fits
  exact exactlyGives ⟨by omega, by omega⟩

end Signed

section Division

variable (zero : w.Holds 0)
include zero

theorem towardsZero {n : Int} (near : n.natAbs ≤ a.value.natAbs) (same : 0 ≤ a.value → 0 ≤ n)
    (same' : a.value ≤ 0 → n ≤ 0) : w.Holds n := by
  have fits := a.fits
  unfold Width.Holds at *
  omega

theorem quotientGives (positive : 0 < b.value) : Gives (a.quotient b) (a.value.tdiv b.value) := by
  have near : (a.value.tdiv b.value).natAbs ≤ a.value.natAbs := by
    rw [Int.natAbs_tdiv]
    exact Nat.div_le_self _ _
  have opposite : (-a.value).tdiv b.value = -a.value.tdiv b.value := Int.neg_tdiv ..
  rw [quotient, if_neg (by omega)]
  have above (low : 0 ≤ a.value) := Int.tdiv_nonneg low (Int.le_of_lt positive)
  refine exactlyGives (towardsZero zero near above fun high => ?_)
  have low := Int.tdiv_nonneg (Int.neg_nonneg_of_nonpos high) (Int.le_of_lt positive)
  omega

variable (left : a.value = n) (right : b.value = m) (positive : 0 < m)
include left right positive

theorem quotientWhole : Gives (a.quotient b) (n / m : Nat) := by
  have whole : a.value.tdiv b.value = (n / m : Nat) := by rw [left, right]; rfl
  rw [← whole]
  exact quotientGives zero (by omega)

theorem remainderWhole : Gives (a.remainder b) (n % m : Nat) := by
  have rest : a.value.tmod b.value = (n % m : Nat) := by rw [left, right]; rfl
  have near := Nat.mod_le n m
  obtain ⟨q, ran, -⟩ := quotientWhole zero left right positive
  rw [remainder, ran, rest]
  exact exactlyGives (towardsZero zero (a := a) (by omega) (by omega) (by omega))

end Division

end Register

end Ion

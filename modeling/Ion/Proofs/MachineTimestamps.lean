import Ion.MachineTimestamp
import Ion.Proofs.TimestampTexts

/-! Timestamps on machine integers against those on numbers. What is checked before it is used keeps every
operation within its width, except for one: the absolute value of an offset is taken before the offset is
known to have one. -/
namespace Ion

def Checked.of (plain : Except IonError α) : Checked α := plain.mapError .refused

theorem Checked.ofBind (first : Except IonError α) (next : α → Except IonError β) :
    Checked.of (first >>= next) = Checked.of first >>= fun a => Checked.of (next a) := by
  cases first <;> rfl

open Register (Gives)

namespace Timestamp

theorem ofMisfit {utc : DateTime} {offset : Option Int} {p : Precision} (misfit : ¬Fits utc offset p) :
    of utc offset p = .error .badTimestamp :=
  dif_neg fun fits => misfit ⟨fits.1, fits.2.1, fits.2.2⟩

theorem offsetTextSigned {m : Int} (known : m ≠ 0) : offsetText (some m) =
    (if m < 0 then "-" else "+") ++ padded 2 (m.natAbs / 60) ++ ":" ++
      padded 2 (m.natAbs % 60) := by
  unfold offsetText
  split
  · contradiction
  · rename_i zero
    exact (known (Option.some.inj zero)).elim
  · rename_i same
    cases same
    rfl

end Timestamp

namespace MachineTimestamp

structure Spells (m : MachineTimestamp) (t : Timestamp) : Prop where
  utc : m.utc = t.utc
  offset : m.offset.map Register.value = t.offset
  precision : m.precision.plain = t.precision

theorem fractionScaleGives {digits : Register .unsigned8} (few : digits.value ≤ 9) :
    Gives (fractionScale digits) (fractionUnit digits.value.toNat) := by
  have low := digits.fits.1
  simp only [Width.unsigned8] at low
  obtain ⟨wide, ran, value⟩ := Register.exactlyGives (w := .unsigned32) (n := digits.value)
    ⟨low, Int.le_trans few (by decide)⟩
  obtain ⟨rest, ran', value'⟩ := Register.exactlyGives (w := .unsigned32) (n := 9 - wide.value)
    (by simp only [Width.Holds, Width.unsigned32]; omega)
  have same : Int.pow 10 rest.value.toNat = (fractionUnit digits.value.toNat : Nat) := by
    have places : rest.value.toNat = 9 - digits.value.toNat := by omega
    rw [places, fractionUnit, Nat.pow_eq, Int.natCast_pow]
    rfl
  have bound : fractionUnit digits.value.toNat ≤ 10 ^ 9 := Nat.pow_le_pow_right (by decide) (Nat.sub_le 9 _)
  simp only [fractionScale, Register.cast, Register.minus, Register.power, ran, ran', bind, Except.bind, same]
  exact Register.exactlyGives (by simp only [Width.Holds, Width.unsigned32]; omega)

theorem cutDateSame (d : Date) (time : Time) (p : MachinePrecision) :
    cutDate? d p = some ((⟨d, time⟩ : DateTime).truncate p.plain).date := by
  have month := monthOfDay d.valid
  have days := daysInMonthPositive d.year month.1 month.2
  cases p with
  | year => rfl
  | month => exact dif_pos ⟨Nat.le_refl 1, by omega⟩
  | day | minute | second | fraction => exact dif_pos d.valid

theorem fractionFew {digits : Register .unsigned8} :
    (MachinePrecision.fraction digits).inRange = true ↔ 1 ≤ digits.value ∧ digits.value ≤ 9 := by
  simp only [MachinePrecision.inRange, MachinePrecision.plain, Precision.inRange, Bool.and_eq_true,
    decide_eq_true_eq]
  omega

theorem cutTimeSame (date : Date) (t : Time) {p : MachinePrecision} (kept : p.inRange = true) :
    cutTime? t p = .ok (some ((⟨date, t⟩ : DateTime).truncate p.plain).time) := by
  have valid := t.valid
  cases p with
  | year | month | day => rfl
  | minute => exact congrArg Except.ok (dif_pos (by omega))
  | second => exact congrArg Except.ok (dif_pos (by omega))
  | fraction digits =>
    have few := fractionFew.mp kept
    obtain ⟨scale, ran, unit⟩ := fractionScaleGives few.2
    have positive : 0 < fractionUnit digits.value.toNat := Nat.pow_pos (by decide)
    obtain ⟨whole, ran', value⟩ := Register.quotientWhole (a := t.cappedNanos) (by decide) rfl unit positive
    have cut := cutNanoBound digits.value.toNat t.nano
    have product : whole.value * scale.value = (cutNano digits.value.toNat t.nano : Nat) := by
      rw [value, unit, cutNano, Int.natCast_mul]
    obtain ⟨nano, ran'', value'⟩ := Register.exactlyGives (w := .unsigned32) (n := whole.value * scale.value)
      (by rw [product]; simp only [Width.Holds, Width.unsigned32]; omega)
    have places : nano.value.toNat = cutNano digits.value.toNat t.nano := by omega
    simp only [cutTime?, Register.times, ran, ran', ran'', bind, Except.bind, places]
    exact congrArg Except.ok (dif_pos (by omega))

theorem truncateSame (utc : DateTime) {p : MachinePrecision} (digits : p.inRange = true) :
    truncate utc p = .ok (some (utc.truncate p.plain)) := by
  rw [truncate, cutDateSame utc.date utc.time p]
  simp only [cutTimeSame utc.date utc.time digits, bind, Except.bind]
  rfl

theorem checkedOffsetSame {offset : Option (Register .signed32)}
    (positive : ∀ m ∈ offset, m.value ≠ Width.signed32.least) :
    checkedOffset offset =
      if ∀ m ∈ offset.map Register.value, m.natAbs < minutesOfDay then .ok offset else refuse := by
  cases offset with
  | none => rfl
  | some m =>
    obtain ⟨size, ran, value⟩ := Register.absGives (by decide) (positive m rfl)
    simp only [checkedOffset, ran, bind, Except.bind, value, Option.map_some, Option.mem_def, Option.some.injEq,
      forall_eq', Int.ofNat_le]
    by_cases small : m.value.natAbs < minutesOfDay
    · rw [if_neg (Nat.not_le.mpr small), if_pos small]
      rfl
    · rw [if_pos (Nat.not_lt.mp small), if_neg small]

def Overflows (utc : DateTime) (offset : Option (Register .signed32)) (p : MachinePrecision) : Prop :=
  (1 ≤ utc.date.year ∧ utc.date.year ≤ 9999) ∧ p.inRange = true ∧ p.hasTime = true ∧
    offset.map Register.value = some Width.signed32.least

instance (utc : DateTime) (offset : Option (Register .signed32)) (p : MachinePrecision) :
    Decidable (Overflows utc offset p) :=
  inferInstanceAs (Decidable (_ ∧ _ ∧ _ ∧ _))

variable {utc : DateTime} {offset : Option (Register .signed32)} {p : MachinePrecision}

theorem ofOverflows (overflows : Overflows utc offset p) : of utc offset p = .error .overflow := by
  obtain ⟨year, digits, time, given⟩ := overflows
  obtain ⟨m, rfl, least⟩ := Option.map_eq_some_iff.mp given
  have absent : m.abs = .error .overflow := by
    rw [Register.abs, least]
    rfl
  rw [of, if_pos year, if_pos digits, if_pos time]
  simp only [checkedOffset, absent, bind, Except.bind]

theorem ofAgrees (whole : ¬Overflows utc offset p) :
    Agree Spells (of utc offset p) (Checked.of (Timestamp.of utc (offset.map Register.value) p.plain)) := by
  by_cases year : 1 ≤ utc.date.year ∧ utc.date.year ≤ 9999
  · by_cases digits : p.inRange = true
    · rw [of, if_pos year, if_pos digits]
      by_cases time : p.hasTime = true
      · have kept : Timestamp.keptOffset (offset.map Register.value) p.plain = offset.map Register.value :=
          if_pos time
        have positive : ∀ m ∈ offset, m.value ≠ Width.signed32.least := fun m given least =>
          whole ⟨year, digits, time, Option.map_eq_some_iff.mpr ⟨m, given, least⟩⟩
        rw [if_pos time, checkedOffsetSame positive]
        by_cases small : ∀ m ∈ offset.map Register.value, m.natAbs < minutesOfDay
        · obtain ⟨t, built, moment, offset', precision⟩ := Timestamp.ofFits ⟨year, digits, kept ▸ small⟩
          rw [if_pos small, built]
          simp only [truncateSame utc digits, bind, Except.bind]
          exact .ok ⟨moment.symm, (offset'.trans kept).symm, precision.symm⟩
        · rw [if_neg small, Timestamp.ofMisfit fun fits => small (kept ▸ fits.offset)]
          exact .error _
      · have dropped : Timestamp.keptOffset (offset.map Register.value) p.plain = none := if_neg time
        have fits : Timestamp.Fits utc (offset.map Register.value) p.plain :=
          ⟨year, digits, fun m kept => by rw [dropped] at kept; cases kept⟩
        obtain ⟨t, built, moment, offset', precision⟩ := Timestamp.ofFits fits
        rw [if_neg time, built]
        simp only [truncateSame utc digits, bind, Except.bind, pure, Except.pure]
        exact .ok ⟨moment.symm, (offset'.trans dropped).symm, precision.symm⟩
    · rw [of, if_pos year, if_neg digits, Timestamp.ofMisfit fun fits => digits fits.digits]
      exact .error _
  · rw [of, if_neg year, Timestamp.ofMisfit fun fits => year fits.year]
    exact .error _

theorem overflowsMisfit (overflows : Overflows utc offset p) :
    ¬Timestamp.Fits utc (offset.map Register.value) p.plain := by
  obtain ⟨-, -, time, given⟩ := overflows
  intro fits
  have small := fits.offset Width.signed32.least (by rw [given, Timestamp.keptOffset]; exact if_pos time)
  exact absurd small (by decide)

theorem ofFits (fits : Timestamp.Fits utc (offset.map Register.value) p.plain) :
    ∃ m t, of utc offset p = .ok m ∧ Timestamp.of utc (offset.map Register.value) p.plain = .ok t ∧
      Spells m t := by
  obtain ⟨t, built, -⟩ := Timestamp.ofFits fits
  have agree := ofAgrees fun overflows => overflowsMisfit overflows fits
  rw [built] at agree
  generalize of utc offset p = made at agree ⊢
  cases agree with
  | ok spells => exact ⟨_, t, rfl, built, spells⟩

theorem ofMisfit (whole : ¬Overflows utc offset p)
    (misfit : ¬Timestamp.Fits utc (offset.map Register.value) p.plain) :
    of utc offset p = .error (.refused .badTimestamp) := by
  have agree := ofAgrees whole
  rw [Timestamp.ofMisfit misfit] at agree
  generalize of utc offset p = made at agree ⊢
  cases agree
  rfl

theorem dateOnlyPlain (p : MachinePrecision) : p.dateOnly.plain = p.plain.dateOnly := by
  cases p <;> rfl

theorem ofDateAgrees (year : Register .signed32) (month day : Register .unsigned32) (p : MachinePrecision) :
    Agree Spells (ofDate year month day p)
      (Checked.of (Timestamp.ofDate year.value month.value.toNat day.value.toNat p.plain)) := by
  unfold ofDate Timestamp.ofDate
  cases Date.of? year.value month.value.toNat day.value.toNat with
  | none => exact .error _
  | some date =>
    rw [← dateOnlyPlain]
    exact ofAgrees fun ⟨_, _, _, given⟩ => nomatch given

theorem ofInstantAgrees (utc : DateTime) (seconds : Register .signed32) (p : MachinePrecision) :
    Agree Spells (ofInstant utc seconds p) (Checked.of (Timestamp.ofInstant utc seconds.value p.plain)) := by
  have low := seconds.fits
  simp only [Width.Holds, Width.signed32] at low
  have cut : (seconds.value.tdiv 60).natAbs ≤ 2147483648 / 60 := by
    rw [Int.natAbs_tdiv]
    exact Nat.div_le_div_right (by omega)
  have gives : Gives (seconds.quotient ⟨60, by decide⟩) (seconds.value.tdiv 60) :=
    Register.quotientGives (by decide) (by decide)
  obtain ⟨minutes, ran, value⟩ := gives
  have fits : ¬Overflows utc (some minutes) p := fun ⟨_, _, _, given⟩ => by
    have least : minutes.value = Width.signed32.least := Option.some.inj given
    simp only [Width.signed32] at least
    omega
  simp only [ofInstant, ran, bind, Except.bind]
  rw [Timestamp.ofInstant, ← value]
  exact ofAgrees fits

theorem dropZeroSame {digits : Register .unsigned8} {nano : Register .unsigned32} {d n : Nat}
    (left : digits.value = d) (right : nano.value = n) :
    if 1 < d ∧ n % 10 = 0 then ∃ fewer rest, dropZero? digits nano = .ok (some (fewer, rest)) ∧
      fewer.value = (d - 1 : Nat) ∧ rest.value = (n / 10 : Nat)
    else dropZero? digits nano = .ok none := by
  by_cases many : 1 < d
  · have tenth : Gives (nano.quotient ⟨10, by decide⟩) (n / 10 : Nat) :=
      Register.quotientWhole (by decide) right rfl (by decide)
    have last : Gives (nano.remainder ⟨10, by decide⟩) (n % 10 : Nat) :=
      Register.remainderWhole (by decide) right rfl (by decide)
    obtain ⟨last, ran, value⟩ := last
    obtain ⟨rest, ran', value'⟩ := tenth
    obtain ⟨fewer, ran'', value''⟩ := Register.exactlyGives (w := .unsigned8) (n := digits.value - 1)
      (by have := digits.fits.2; simp only [Width.Holds, Width.unsigned8] at this ⊢; omega)
    have more : 1 < digits.value := by omega
    simp only [dropZero?, if_pos more, Register.minus, ran, ran', ran'', bind, Except.bind, value,
      Int.natCast_eq_zero]
    by_cases zero : n % 10 = 0
    · rw [if_pos ⟨many, zero⟩, if_pos zero]
      exact ⟨fewer, rest, rfl, by omega, value'⟩
    · rw [if_neg fun h => zero h.2, if_neg zero]
      rfl
  · have few : ¬1 < digits.value := by omega
    rw [if_neg fun h => many h.1, dropZero?, if_neg few]
    rfl

section Turns

variable {digits fewer : Register .unsigned8} {nano rest : Register .unsigned32}

theorem leastDigitsTurn (turn : dropZero? digits nano = .ok (some (fewer, rest))) :
    leastDigits digits nano = leastDigits fewer rest := by
  rw [leastDigits]
  split
  · rename_i found
    cases turn.symm.trans found
    rfl
  · rename_i found
    cases turn.symm.trans found
  · rename_i found
    cases turn.symm.trans found

theorem leastDigitsEnd (last : dropZero? digits nano = .ok none) : leastDigits digits nano = .ok digits := by
  rw [leastDigits]
  split
  · rename_i found
    cases last.symm.trans found
  · rfl
  · rename_i found
    cases last.symm.trans found

theorem leastDigitsGives {d n : Nat} (left : digits.value = d) (right : nano.value = n) :
    Gives (leastDigits digits nano) (Timestamp.leastDigits d n) := by
  have turn := dropZeroSame left right
  fun_induction Timestamp.leastDigits d n generalizing digits nano with
  | case1 d n zero ih =>
    rw [if_pos ⟨by omega, zero⟩] at turn
    obtain ⟨fewer, rest, ran, value, value'⟩ := turn
    rw [leastDigitsTurn ran]
    exact ih value value' (dropZeroSame value value')
  | case2 d n other =>
    rw [if_neg fun h => other h.2] at turn
    exact ⟨digits, leastDigitsEnd turn, left⟩
  | case3 d n single =>
    have few : ¬1 < d := fun many => single (d - 2) (by omega)
    rw [if_neg fun h => few h.1] at turn
    exact ⟨digits, leastDigitsEnd turn, left⟩

end Turns

theorem exactPrecisionSame (utc : DateTime) :
    ∃ p, exactPrecision utc = .ok p ∧ p.plain = Timestamp.exactPrecision utc := by
  have gives : Gives (leastDigits ⟨9, by decide⟩ utc.time.cappedNanos)
      (Timestamp.leastDigits 9 (min utc.time.nano 999999999)) := leastDigitsGives rfl rfl
  obtain ⟨digits, ran, value⟩ := gives
  unfold Timestamp.exactPrecision
  by_cases zero : min utc.time.nano 999999999 = 0
  · have nanos : utc.time.cappedNanos.value = 0 := congrArg Nat.cast zero
    rw [exactPrecision, if_pos nanos, zero]
    exact ⟨_, rfl, rfl⟩
  · have nonzero : ¬utc.time.cappedNanos.value = 0 := fun nanos => zero (Int.ofNat.inj nanos)
    rw [exactPrecision, if_neg nonzero, ran]
    refine ⟨_, rfl, ?_⟩
    split
    · contradiction
    · simp only [MachinePrecision.plain, value, Int.toNat_natCast]

theorem ofInstantExactAgrees (utc : DateTime) (seconds : Register .signed32) :
    Agree Spells (ofInstantExact utc seconds) (Checked.of (Timestamp.ofInstantExact utc seconds.value)) := by
  obtain ⟨p, ran, plain⟩ := exactPrecisionSame utc
  simp only [ofInstantExact, ran, bind, Except.bind]
  rw [Timestamp.ofInstantExact, ← plain]
  exact ofInstantAgrees utc seconds p

structure Bounded (m : MachineTimestamp) : Prop where
  year : 1 ≤ m.utc.date.year ∧ m.utc.date.year ≤ 9999
  offset : ∀ o ∈ m.offset, -1440 < o.value ∧ o.value < 1440
  digits : ∀ d, m.precision = .fraction d → 1 ≤ d.value ∧ d.value ≤ 9

structure Shows (m : MachineTimestamp) (t : Timestamp) : Prop where
  fraction : ∃ found, m.fraction? = .ok found ∧
    found.map (fun f => (f.1.value.toNat, f.2.value.toNat)) = t.fraction?
  offsetSeconds : m.offsetSeconds = .ok (t.offset.getD 0 * 60)
  localTime : m.localTime = .ok t.localTime
  text : m.text = .ok t.text

namespace Spells

variable {m : MachineTimestamp} {t : Timestamp} (spells : m.Spells t)
include spells

theorem bounded : m.Bounded := by
  refine ⟨spells.utc ▸ t.yearFits, fun o given => ?_, fun d fraction => ?_⟩
  · have stored : t.offset = some o.value := by
      rw [← spells.offset, given]
      rfl
    have small := (t.offsetFits _ stored).2
    unfold minutesOfDay at small
    omega
  · have kept : m.precision.plain.inRange = true := spells.precision ▸ t.digitsFit
    rw [fraction] at kept
    exact fractionFew.mp kept

theorem fraction : ∃ found, m.fraction? = .ok found ∧
    found.map (fun f => (f.1.value.toNat, f.2.value.toNat)) = t.fraction? := by
  have precision := spells.precision
  unfold fraction? Timestamp.fraction?
  cases shown : m.precision with
  | fraction digits =>
    rw [shown] at precision
    have few := (spells.bounded.digits digits shown).2
    obtain ⟨scale, ran, unit⟩ := fractionScaleGives few
    have positive : 0 < fractionUnit digits.value.toNat := Nat.pow_pos (by decide)
    obtain ⟨coefficient, ran', value⟩ :=
      Register.quotientWhole (a := m.utc.time.nanos) (by decide) rfl unit positive
    simp only [ran, ran', bind, Except.bind, ← precision, MachinePrecision.plain]
    refine ⟨_, rfl, ?_⟩
    rw [Option.map_some, value, Int.toNat_natCast, spells.utc]
  | _ =>
    rw [shown] at precision
    simp only [← precision, MachinePrecision.plain]
    exact ⟨none, rfl, rfl⟩

theorem offsetSeconds : m.offsetSeconds = .ok (t.offset.getD 0 * 60) := by
  rw [← spells.offset, MachineTimestamp.offsetSeconds]
  cases given : m.offset with
  | none => rfl
  | some o =>
    have small := spells.bounded.offset o given
    obtain ⟨seconds, ran, value⟩ := Register.exactlyGives (w := .signed32) (n := o.value * 60)
      (by simp only [Width.Holds, Width.signed32]; omega)
    have day : (o.value * 60).natAbs < 86400 := by omega
    simp only [Register.times, ran, bind, Except.bind, value, if_pos day]
    rfl

theorem localTime : m.localTime = .ok t.localTime := by
  have minutes : t.offset.getD 0 * 60 / 60 = t.offset.getD 0 := Int.mul_ediv_cancel _ (by decide)
  simp only [MachineTimestamp.localTime, spells.offsetSeconds, bind, Except.bind, minutes, spells.utc]
  rfl

theorem offsetText : MachineTimestamp.offsetText m.offset = .ok (Timestamp.offsetText t.offset) := by
  rw [← spells.offset]
  cases given : m.offset with
  | none => rfl
  | some o =>
    have small := spells.bounded.offset o given
    obtain ⟨size, ran, value⟩ := Register.absGives (a := o) (by decide) (by simp only [Width.signed32]; omega)
    have hours : Gives (size.quotient ⟨60, by decide⟩) (o.value.natAbs / 60 : Nat) :=
      Register.quotientWhole (by decide) value rfl (by decide)
    have minutes : Gives (size.remainder ⟨60, by decide⟩) (o.value.natAbs % 60 : Nat) :=
      Register.remainderWhole (by decide) value rfl (by decide)
    obtain ⟨hours, ran', value'⟩ := hours
    obtain ⟨minutes, ran'', value''⟩ := minutes
    by_cases zero : o.value = 0
    · rw [MachineTimestamp.offsetText, if_pos zero, Option.map_some, zero]
      rfl
    · rw [MachineTimestamp.offsetText, if_neg zero]
      simp only [ran, ran', ran'', bind, Except.bind, value', value'', Int.toNat_natCast]
      rw [Option.map_some, Timestamp.offsetTextSigned zero]
      rfl

theorem fractionText : m.fractionText = .ok
    (match t.fraction? with
    | some (digits, coefficient) => "." ++ Timestamp.padded digits coefficient
    | none => "") := by
  obtain ⟨found, ran, plain⟩ := spells.fraction
  simp only [MachineTimestamp.fractionText, ran, bind, Except.bind, ← plain]
  cases found <;> rfl

theorem text : m.text = .ok t.text := by
  have time : m.precision.hasTime = t.precision.hasTime := congrArg Precision.hasTime spells.precision
  simp only [MachineTimestamp.text, Timestamp.text, Timestamp.secondText, spells.localTime, spells.offsetText,
    spells.fractionText, bind, Except.bind, time, spells.precision, Timestamp.localSecond]
  split <;> rfl

theorem shows : m.Shows t := ⟨spells.fraction, spells.offsetSeconds, spells.localTime, spells.text⟩

end Spells

end MachineTimestamp

end Ion

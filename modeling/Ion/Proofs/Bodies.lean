import Ion.Proofs.Numbers

/-! Scans over bytes that were written: each takes exactly what the writer put there, and the body
of a scalar says the scalar again. -/
namespace Ion

namespace Cursor

theorem advanceNothing (c : Cursor) : c.advance 0 = c := by simp [advance]

theorem advanceAdvance (c : Cursor) (m n : Nat) : (c.advance m).advance n = c.advance (m + n) := by
  simp [advance, Nat.add_assoc]

theorem advanceRest {c : Cursor} {raw more : Bytes} (ahead : c.rest = raw ++ more) :
    (c.advance raw.length).rest = more := by
  simp [advance, ahead]

theorem Sound.room {c : Cursor} {raw more : Bytes} (sound : c.Sound)
    (ahead : c.rest = raw ++ more) : c.pos + raw.length ≤ c.stop := by
  rw [← sound, ahead, List.length_append]
  omega

theorem Sound.behind {c : Cursor} {raw more : Bytes} (sound : c.Sound)
    (ahead : c.rest = raw ++ more) : (c.advance raw.length).Sound :=
  advanceSound sound (sound.room ahead)

theorem Sound.atEnd {c : Cursor} (sound : c.Sound) : c.atEnd = true ↔ c.rest = [] := by
  have length : c.rest.length = c.stop - c.pos := by
    rw [← sound]
    omega
  rw [← List.length_eq_zero_iff, length, Cursor.atEnd, decide_eq_true_eq]
  omega

theorem Sound.remaining {c : Cursor} (sound : c.Sound) : c.remaining = c.rest.length := by
  rw [Cursor.remaining, ← sound]
  omega

end Cursor

namespace Scan

def Takes (act : Scan α) (raw more : Bytes) (a : α) : Prop :=
  ∀ c : Cursor, c.Sound → c.rest = raw ++ more → act c = .ok a (c.advance raw.length)

theorem takesPure (a : α) (more : Bytes) : Takes (pure a) [] more a := by
  intro c _ _
  rw [List.length_nil, Cursor.advanceNothing]
  rfl

theorem Takes.bind {first : Scan α} {next : α → Scan β} {raw raw' more : Bytes} {a : α} {b : β}
    (one : Takes first raw (raw' ++ more) a) (two : Takes (next a) raw' more b) :
    Takes (first >>= next) (raw ++ raw') more b := by
  intro c sound ahead
  rw [List.append_assoc] at ahead
  have step := one c sound ahead
  have rest := two _ (sound.behind ahead) (Cursor.advanceRest ahead)
  rw [List.length_append, ← Cursor.advanceAdvance, ← rest]
  simp only [Bind.bind, EStateM.bind, step]

theorem Takes.onto {act : Scan α} {next : α → Scan β} {raw more : Bytes} {a : α} {b : β}
    (one : Takes act raw more a) (two : Takes (next a) [] more b) :
    Takes (act >>= next) raw more b := by
  have both := @Takes.bind _ _ act next raw [] more a b one two
  rwa [List.append_nil] at both

theorem Takes.runs {act : Scan α} {raw : Bytes} {a : α} (takes : Takes act raw [] a) :
    runOn raw act = .ok a := by
  have run := takes (.ofBytes raw) (Cursor.ofBytesSound raw) (List.append_nil raw).symm
  simp only [runOn, run]

theorem takesNumber {decode : Bytes → Except ReadError (α × Nat)} {raw more : Bytes} {a : α}
    (decodes : decode (raw ++ more) = .ok (a, raw.length)) :
    Takes (lift (Cursor.number decode)) raw more a := by
  intro c _ ahead
  simp only [lift, EStateM.adaptExcept, Cursor.number, ahead, decodes]

theorem takesVarUInt {n : Nat} (fits : n < 2 ^ 64) (more : Bytes) :
    Takes (lift Cursor.varUInt) (VarUInt.encode n) more n :=
  takesNumber (VarUInt.decodeEncode fits more)

theorem takesVarInt (negative : Bool) {n : Nat} (fits : n < 2 ^ 64) (more : Bytes) :
    Takes (lift Cursor.varInt) (VarInt.encode negative n) more (negative, n) := by
  refine takesNumber ?_
  simp [VarInt.decodeEncode negative fits more, bind, Except.bind, pure, Except.pure]

theorem takesByte (b : UInt8) (more : Bytes) : Takes (lift Cursor.u8) [b] more b := by
  intro c sound ahead
  have room := sound.room ahead
  simp only [List.length_singleton] at room
  simp [lift, EStateM.adaptExcept, Cursor.u8, Cursor.take, room, ahead, Cursor.first]

theorem takesGet {next : Cursor → Scan α} {raw more : Bytes} {a : α}
    (takes : ∀ c : Cursor, c.Sound → c.rest = raw ++ more → next c c = .ok a (c.advance raw.length)) :
    Takes (get >>= next) raw more a := fun c sound ahead => takes c sound ahead

end Scan

namespace Payload

open Scan

theorem takesExponent {e : Int} (fits : e.natAbs < 2 ^ 63) (more : Bytes) :
    Takes exponent (VarInt.encodeInt e) more e := by
  refine (takesVarInt (decide (e < 0)) (n := e.natAbs) (by omega) more).onto ?_
  dsimp only
  rw [if_pos (by omega), signedNatAbs]
  exact takesPure e more

theorem takesCoefficient (n : Int) : Takes coefficient (Wire.signedMagnitude n) [] n := by
  obtain ⟨raw, splits, value⟩ := Wire.signedMagnitudeReads n
  refine takesGet fun c sound ahead => ?_
  rw [List.append_nil] at ahead
  have length : c.remaining = (Wire.signedMagnitude n).length := by rw [sound.remaining, ahead]
  have room : c.pos + (Wire.signedMagnitude n).length ≤ c.stop :=
    Nat.le_of_eq (by rw [← sound, ahead])
  have read : lift (Cursor.int c.remaining) c =
      .ok (decide (n < 0), raw) (c.advance (Wire.signedMagnitude n).length) := by
    simp only [lift, EStateM.adaptExcept, Cursor.int, Cursor.take, length, if_pos room, ahead,
      List.take_length, splits]
  simp only [bind, EStateM.bind, read, value, signedNatAbs]
  rfl

theorem encodeIntNotEmpty (n : Int) : VarInt.encodeInt n ≠ [] := by
  unfold VarInt.encodeInt VarInt.encode
  split <;> simp

theorem decimalReads {d : Decimal} (written : d.scale ≠ Int64.minValue) :
    decimal (VarInt.encodeInt (-d.scale.toInt) ++ Wire.signedMagnitude d.coefficient) = .ok d := by
  have bound : (-d.scale.toInt).natAbs < 2 ^ 63 := by
    have low := d.scale.le_toInt
    have high := d.scale.toInt_lt
    have least : d.scale.toInt ≠ -2 ^ 63 := by
      intro same
      exact written (Int64.toInt_inj.mp (same.trans (by decide)))
    omega
  have something : VarInt.encodeInt (-d.scale.toInt) ++ Wire.signedMagnitude d.coefficient ≠ [] := by
    intro nothing
    exact encodeIntNotEmpty _ (List.append_eq_nil_iff.mp nothing).1
  have back : Int64.ofInt (- -d.scale.toInt) = d.scale := by
    rw [Int.neg_neg]
    exact Int64.ofInt_toInt d.scale
  rw [decimal, if_neg something]
  refine Takes.runs (Takes.bind (takesExponent bound _) ((takesCoefficient d.coefficient).onto ?_))
  rw [back]
  exact takesPure d []

theorem integerOfScalar (n : Int) : Variant.integer? (some (.integer n)) = some n := by
  unfold Scalar.integer int32? int64?
  split
  · rename_i small
    split at small
    · cases small
      simp only [Variant.integer?, Option.some.injEq]
      exact Int32.toInt_ofInt_of_le (by omega) (by omega)
    · contradiction
  · rename_i long
    split at long
    · cases long
      simp only [Variant.integer?, Option.some.injEq]
      exact Int64.toInt_ofInt_of_le (by omega) (by omega)
    · contradiction
  · rfl

theorem intReads (n : Int) : int (n < 0) (Bytes.shortest n.natAbs) = .ok (.integer n) := by
  have value := Bytes.valueShortest n.natAbs
  unfold int
  rw [Bytes.intMagnitudeValue, value, if_neg, signedNatAbs]
  rw [decide_eq_true_eq]
  omega

theorem floatReads (f : Binary64) :
    float (if f = .zero then [] else Bytes.be 8 f.bits.toNat) = .ok f := by
  split
  · rename_i zero
    rw [zero]
    rfl
  · have length := Bytes.beLength 8 f.bits.toNat
    have value : Bytes.value (Bytes.be 8 f.bits.toNat) = f.bits.toNat :=
      Bytes.valueBe 8 f.bits.toNat_lt
    simp only [float, length, value, UInt64.ofNat_toNat]

theorem textReads (s : String) : text (Bytes.ofText s) = .ok s := by
  simp only [text, Bytes.textOfText]

theorem symbolReads {sid : Nat} (fits : sid < 2 ^ 32) : symbol (Bytes.shortest sid) = .ok sid := by
  rw [symbol, if_pos (Bytes.shortestLengthLe 4 (by omega)), Bytes.valueShortest]

theorem takesOffset {o : Option Int} (fits : ∀ m ∈ o, m.natAbs < minutesOfDay) (more : Bytes) :
    Takes offset (Wire.offset o) more o := by
  cases o with
  | none => exact (takesVarInt true (n := 0) (by decide) more).onto (takesPure none more)
  | some m =>
    have small := fits m rfl
    have day : minutesOfDay = 1440 := rfl
    refine (takesVarInt (decide (m < 0)) (n := m.natAbs) (by omega) more).onto ?_
    dsimp only
    rw [if_neg (by rw [decide_eq_true_eq]; omega), if_pos (by omega), signedNatAbs]
    exact takesPure (some m) more

theorem takesNumbers {limit : Nat} {ns : List Nat} {more : Bytes} (count : ns.length ≤ limit)
    (last : ns.length < limit → more = []) (fit : ∀ n ∈ ns, n < 2 ^ 64) :
    Takes (numbers limit) (ns.flatMap VarUInt.encode) more ns := by
  induction limit generalizing ns with
  | zero =>
    have empty : ns = [] := List.length_eq_zero_iff.mp (Nat.le_zero.mp count)
    rw [empty]
    exact takesPure [] more
  | succ limit ih =>
    refine takesGet fun c sound ahead => ?_
    cases ns with
    | nil =>
      have ended : c.rest = [] := by rw [ahead, last (Nat.zero_lt_succ limit)]; rfl
      rw [if_pos (sound.atEnd.mpr ended)]
      exact takesPure [] more c sound ahead
    | cons n rest =>
      have something : c.rest ≠ [] := by
        have digits := VarUInt.encodeNotEmpty n
        rw [ahead]
        intro nothing
        simp only [List.flatMap_cons, List.append_assoc, List.append_eq_nil_iff] at nothing
        simp [nothing.1] at digits
      rw [if_neg (mt sound.atEnd.mp something)]
      simp only [List.length_cons] at count last
      have later : Takes (numbers limit) (rest.flatMap VarUInt.encode) more rest :=
        ih (by omega) (fun fewer => last (by omega)) fun m mem => fit m (List.mem_cons_of_mem n mem)
      exact ((takesVarUInt (fit n List.mem_cons_self) _).bind
        (later.onto (takesPure (n :: rest) more))) c sound ahead

theorem fractionUnitScale {digits : Nat} (most : digits ≤ 9) :
    fractionUnit digits * 10 ^ digits = 1000000000 := by
  change 10 ^ (9 - digits) * 10 ^ digits = 1000000000
  rw [← Nat.pow_add, Nat.sub_add_cancel most]

theorem fractionReads {digits nano : Nat} (positive : 1 ≤ digits) (most : digits ≤ 9)
    (below : nano ≤ 999999999) (cut : cutNano digits nano = nano) :
    fractionOf (-digits) (nano / fractionUnit digits : Nat) = .ok (.fraction digits, nano) := by
  have unit : 0 < fractionUnit digits := Nat.pow_pos (by decide)
  have split := fractionUnitScale most
  have whole : nano / fractionUnit digits * fractionUnit digits = nano := by
    rw [cutNano, Nat.min_eq_left below] at cut
    exact cut
  have least : 0 < 10 ^ digits := Nat.pow_pos (by decide)
  have less : nano / fractionUnit digits < 10 ^ digits := by
    rw [Nat.div_lt_iff_lt_mul unit, Nat.mul_comm, split]
    omega
  have back : nano / fractionUnit digits * 1000000000 / 10 ^ digits = nano := by
    rw [← split, ← Nat.mul_assoc, whole, Nat.mul_div_cancel _ least]
  have limit : fractionLimit = 1000 := rfl
  generalize nano / fractionUnit digits = q at less back ⊢
  unfold fractionOf
  rw [if_neg (by omega), if_neg (by omega)]
  simp only [Int.natAbs_neg, Int.natAbs_natCast]
  rw [if_neg (by omega), if_neg (show ¬Nat.pow 10 digits ≤ q from Nat.not_le.mpr less),
    Nat.min_eq_left most]
  exact congrArg (fun n => Except.ok (Precision.fraction digits, n)) back

theorem takesFraction (t : Timestamp) {p : Precision}
    (plain : t.fraction? = none → p = t.precision ∧ t.utc.time.nano = 0) :
    Takes (fraction p) (Wire.fraction t.fraction?) [] (t.precision, t.utc.time.nano) := by
  refine takesGet fun c sound ahead => ?_
  cases fraction : t.fraction? with
  | none =>
    obtain ⟨same, whole⟩ := plain fraction
    rw [fraction] at ahead
    rw [if_pos (sound.atEnd.mpr ahead), same, whole]
    exact takesPure (t.precision, 0) [] c sound ahead
  | some found =>
    cases precision : t.precision with
    | fraction digits =>
      simp only [Timestamp.fraction?, precision, Option.some.injEq] at fraction
      subst fraction
      have range := t.digitsFit
      have cut := congrArg (fun u => u.time.nano) t.truncated
      simp only [precision, DateTime.truncate, Precision.inRange, Bool.and_eq_true,
        decide_eq_true_eq] at range cut
      have below : t.utc.time.nano ≤ 999999999 := by
        rw [← cut]
        exact cutNanoBound digits t.utc.time.nano
      have sign : VarInt.encode true digits = VarInt.encodeInt (-digits) := by
        have negative : decide (-(digits : Int) < 0) = true := by
          rw [decide_eq_true_eq]
          omega
        rw [VarInt.encodeInt, negative, Int.natAbs_neg, Int.natAbs_natCast]
      have something : c.rest ≠ [] := by
        rw [ahead, Timestamp.fraction?, precision]
        simp only [Wire.fraction, sign, List.append_nil]
        intro nothing
        exact encodeIntNotEmpty _ (List.append_eq_nil_iff.mp nothing).1
      rw [if_neg (mt sound.atEnd.mp something)]
      rw [Timestamp.fraction?, precision, Wire.fraction, sign] at ahead
      rw [← precision, Wire.fraction, sign]
      have number := takesExponent (e := -(digits : Int)) (by omega)
        (Wire.signedMagnitude (t.utc.time.nano / fractionUnit digits : Nat) ++ [])
      refine number.bind ((takesCoefficient _).onto ?_) c sound ahead
      rw [fractionReads range.1 range.2 below cut, precision]
      exact takesPure _ []
    | year | month | day | minute | second =>
      simp [Timestamp.fraction?, precision] at fraction

theorem momentReads {u : DateTime} {p : Precision} (cut : u.truncate p = u) {year : Nat}
    (same : (year : Int) = u.date.year) :
    moment? year
      ([u.date.month, u.date.day, u.time.hour, u.time.minute, u.time.second].take p.fields)
      u.time.nano = some u := by
  obtain ⟨⟨_, month, day, date⟩, ⟨hour, minute, second, nano, time⟩⟩ := u
  dsimp only at same
  subst same
  have ofDate : Date.of? year month day = some ⟨year, month, day, date⟩ := dif_pos date
  have ofTime : Time.of? hour minute second nano = some ⟨hour, minute, second, nano, time⟩ :=
    dif_pos time
  have both : moment? year [month, day, hour, minute, second] nano =
      some ⟨⟨year, month, day, date⟩, ⟨hour, minute, second, nano, time⟩⟩ := by
    simp [moment?, ofDate, ofTime]
  rw [← both]
  cases p with
  | year =>
    simp only [DateTime.truncate, Date.firstOfYear, Time.midnight, DateTime.mk.injEq,
      Date.mk.injEq, Time.mk.injEq, true_and] at cut
    obtain ⟨⟨rfl, rfl⟩, rfl, rfl, rfl, rfl⟩ := cut
    rfl
  | month =>
    simp only [DateTime.truncate, Date.firstOfMonth, Time.midnight, DateTime.mk.injEq,
      Date.mk.injEq, Time.mk.injEq, true_and] at cut
    obtain ⟨rfl, rfl, rfl, rfl, rfl⟩ := cut
    rfl
  | day =>
    simp only [DateTime.truncate, Time.midnight, DateTime.mk.injEq, Time.mk.injEq, true_and] at cut
    obtain ⟨rfl, rfl, rfl, rfl⟩ := cut
    rfl
  | minute =>
    simp only [DateTime.truncate, DateTime.mk.injEq, Time.mk.injEq, true_and] at cut
    obtain ⟨rfl, rfl⟩ := cut
    rfl
  | second => rfl
  | fraction digits => rfl

theorem precisionReads (t : Timestamp) :
    ∃ p, precisionOf? (Wire.timestampFields t).length = some p ∧
      (t.fraction? = none → p = t.precision ∧ t.utc.time.nano = 0) := by
  have cut := congrArg (fun u => u.time.nano) t.truncated
  unfold Wire.timestampFields Timestamp.fraction?
  cases precision : t.precision with
  | fraction digits => exact ⟨.second, rfl, fun plain => by simp at plain⟩
  | year | month | day | minute | second =>
    rw [precision] at cut
    exact ⟨_, rfl, fun _ => ⟨rfl, cut.symm⟩⟩

theorem ofKept (t : Timestamp) : Timestamp.of t.utc t.offset t.precision = .ok t := by
  have kept : Timestamp.keptOffset t.offset t.precision = t.offset := by
    unfold Timestamp.keptOffset
    split
    · rfl
    · rename_i date
      cases offset : t.offset with
      | none => rfl
      | some m => exact absurd (t.offsetFits m offset).1 date
  have fits := And.intro t.yearFits (And.intro t.digitsFit fun m mem =>
    (t.offsetFits m (kept ▸ mem)).2)
  rw [Timestamp.of, dif_pos fits]
  exact congrArg Except.ok (Timestamp.ext t.truncated kept rfl)

theorem daysInMonthAtMost (year : Int) (month : Nat) : daysInMonth year month ≤ 31 := by
  unfold daysInMonth
  repeat' split
  all_goals omega

theorem takesFields (t : Timestamp) :
    Takes (numbers 5) ((Wire.timestampFields t).flatMap VarUInt.encode) (Wire.fraction t.fraction? ++ [])
      (Wire.timestampFields t) := by
  refine takesNumbers ?_ ?_ ?_
  · rw [Wire.timestampFields, List.length_take]
    exact Nat.min_le_right _ _
  · intro fewer
    unfold Timestamp.fraction?
    unfold Wire.timestampFields at fewer
    cases precision : t.precision with
    | fraction digits => simp [precision, Precision.fields] at fewer
    | year | month | day | minute | second => rfl
  · intro n mem
    have month := monthOfDay t.utc.date.valid
    have days := daysInMonthAtMost t.utc.date.year t.utc.date.month
    have date := t.utc.date.valid
    have time := t.utc.time.valid
    have among := List.mem_of_mem_take mem
    simp only [List.mem_cons, List.not_mem_nil, or_false] at among
    omega

theorem timestampReads (t : Timestamp) : timestamp (Wire.timestampBody t) = .ok t := by
  obtain ⟨p, count, plain⟩ := precisionReads t
  have fits := t.yearFits
  have year : (t.utc.date.year.toNat : Int) = t.utc.date.year := by omega
  have moment : moment? t.utc.date.year.toNat (Wire.timestampFields t) t.utc.time.nano = some t.utc :=
    momentReads t.truncated year
  refine Takes.runs ?_
  unfold Wire.timestampBody
  simp only [List.append_assoc]
  refine (takesOffset (fun m mem => (t.offsetFits m mem).2) _).bind
    ((takesVarUInt (by omega) _).bind ((takesFields t).bind ?_))
  rw [count]
  refine (takesFraction t plain).onto ?_
  dsimp only
  rw [moment]
  dsimp only
  rw [ofKept]
  exact takesPure t []

end Payload

end Ion

import Ion.Proofs.Bounds
import Ion.Proofs.Instants

/-! The bodies of timestamps. A grammar says which bytes are one and a list of conditions which of them
tell a moment; decoding follows both exactly. Numbers with leading zeros, fractions finer than a nanosecond
and exponents without a fraction are bodies too. -/
namespace Ion

/-- What stands in the body of a timestamp: an offset, a year and the fields behind it, and an exponent with
its coefficient. -/
structure TimestampParts where
  negative : Bool
  minutes : Nat
  year : Nat
  fields : List Nat
  fraction : Option (Int × Int)
  deriving DecidableEq, Repr

namespace Grammar

inductive SignedDigits : Bytes → Bool → Nat → Prop
  | last {b} (marked : 128 ≤ b.toNat) : SignedDigits [b] (64 ≤ b.toNat % 128) (b.toNat % 64)
  | digit {b raw n} (unmarked : b.toNat < 128) (more : Digits (b.toNat % 64) raw n) :
      SignedDigits (b :: raw) (64 ≤ b.toNat % 128) n

def SignedNumber (raw : Bytes) (negative : Bool) (n : Nat) : Prop :=
  SignedDigits raw negative n ∧ n < 2 ^ 64

inductive SignedInteger (raw : Bytes) : Int → Prop
  | positive (low : 2 * Bytes.value raw < 256 ^ raw.length) : SignedInteger raw (Bytes.value raw)
  | negative {n : Nat} (high : 2 * Bytes.value raw = 256 ^ raw.length + 2 * n) : SignedInteger raw (-n)

inductive Numbers : Bytes → List Nat → Prop
  | nil : Numbers [] []
  | cons {raw n more ns} (first : Number raw n) (rest : Numbers more ns) :
      Numbers (raw ++ more) (n :: ns)

inductive Fraction : Bytes → Option (Int × Int) → Prop
  | none : Fraction [] none
  | some {raw negative n more c} (exponent : SignedNumber raw negative n)
      (coefficient : SignedInteger more c) :
      Fraction (raw ++ more) (some (Payload.signed negative n, c))

inductive TimestampBody : Bytes → TimestampParts → Prop
  | of {shifted negative minutes dated year listed fields rest fraction}
      (offset : SignedNumber shifted negative minutes) (number : Number dated year)
      (numbers : Numbers listed fields) (few : fields.length ≤ 5) (paired : fields.length ≠ 3)
      (tail : Fraction rest fraction) (complete : fraction.isSome = true → fields.length = 5) :
      TimestampBody (shifted ++ (dated ++ (listed ++ rest)))
        ⟨negative, minutes, year, fields, fraction⟩

end Grammar

namespace TimestampParts

def month (p : TimestampParts) : Nat := p.fields[0]?.getD 1

def day (p : TimestampParts) : Nat := p.fields[1]?.getD 1

def hour (p : TimestampParts) : Nat := p.fields[2]?.getD 0

def minute (p : TimestampParts) : Nat := p.fields[3]?.getD 0

def second (p : TimestampParts) : Nat := p.fields[4]?.getD 0

def HasTime (p : TimestampParts) : Prop := 4 ≤ p.fields.length

def Subsecond (e c : Int) : Prop :=
  e.natAbs < 2 ^ 63 ∧ 0 ≤ c ∧ (0 ≤ e → c = 0) ∧ (e < 0 → -e ≤ 1000 ∧ c < (10 ^ e.natAbs : Nat))

structure Meaningful (p : TimestampParts) : Prop where
  offset : p.minutes < 2 ^ 31 ∧ (p.HasTime → p.minutes < 1440)
  year : 1 ≤ p.year ∧ p.year ≤ 9999
  date : (1 ≤ p.month ∧ p.month ≤ 12) ∧ 1 ≤ p.day ∧ p.day ≤ daysInMonth p.year p.month
  time : p.hour < 24 ∧ p.minute < 60 ∧ p.second < 60
  fraction : ∀ e c, p.fraction = some (e, c) → Subsecond e c

def precision (p : TimestampParts) : Precision :=
  match p.fraction with
  | some (e, _) => if e < 0 then .fraction (min e.natAbs 9) else .second
  | none =>
    match p.fields.length with
    | 0 => .year
    | 1 => .month
    | 2 => .day
    | 4 => .minute
    | _ => .second

def nano (p : TimestampParts) : Int :=
  match p.fraction with
  | some (e, c) => if e < 0 then c * (10 ^ 9 : Nat) / (10 ^ e.natAbs : Nat) else 0
  | none => 0

structure Tells (p : TimestampParts) (t : Timestamp) : Prop where
  date : t.utc.date.year = p.year ∧ t.utc.date.month = p.month ∧ t.utc.date.day = p.day
  time : t.utc.time.hour = p.hour ∧ t.utc.time.minute = p.minute ∧ t.utc.time.second = p.second
  nano : t.utc.time.nano = p.nano
  precision : t.precision = p.precision
  unknown : ¬p.HasTime ∨ (p.negative = true ∧ p.minutes = 0) → t.offset = none
  known : p.HasTime → ¬(p.negative = true ∧ p.minutes = 0) →
    t.offset = some (Payload.signed p.negative p.minutes)

end TimestampParts

namespace Scan

def Fills (act : Scan α) (form : Bytes → α → Prop) : Prop :=
  ∀ c a, c.Sound → ((∃ c', act c = .ok a c') ↔ form c.rest a)

def Settles (act : Scan α) (post : α → Prop) : Prop := ∀ c a, (∃ c', act c = .ok a c') ↔ post a

theorem Fills.of {act : Scan α} {form form' : Bytes → α → Prop} (fills : Fills act form)
    (same : ∀ raw a, form raw a ↔ form' raw a) : Fills act form' :=
  fun c a sound => (fills c a sound).trans (same _ _)

theorem settlesPure (a : α) : Settles (pure a) fun b => b = a := by
  intro c b
  refine ⟨?_, ?_⟩
  · rintro ⟨c', ⟨⟩⟩
    rfl
  · rintro rfl
    exact ⟨c, rfl⟩

theorem settlesThrow (e : IonError) : Settles (throw e : Scan α) fun _ => False :=
  fun _ _ => ⟨fun ⟨_, ok⟩ => (nomatch ok), False.elim⟩

theorem Exact.fills {first : Scan α} {next : α → Scan β} {form : Bytes → α → Prop}
    {form' : α → Bytes → β → Prop} (exact : Exact first form)
    (fills : ∀ a, Fills (next a) (form' a)) :
    Fills (first >>= next) fun raw b =>
      ∃ left right a, raw = left ++ right ∧ form left a ∧ form' a right b := by
  intro c b sound
  refine ⟨?_, ?_⟩
  · rintro ⟨c', ok⟩
    obtain ⟨a, middle, begun, ended⟩ := bindOk ok
    obtain ⟨left, right, ahead, rfl, formed⟩ := exact.takes sound begun
    have filled := (fills a _ b (sound.behind ahead)).mp ⟨c', ended⟩
    rw [Cursor.advanceRest ahead] at filled
    exact ⟨left, right, a, ahead, formed, filled⟩
  · rintro ⟨left, right, a, ahead, formed, filled⟩
    have begun := exact.finds formed right c sound ahead
    rw [← Cursor.advanceRest ahead] at filled
    obtain ⟨c', ended⟩ := (fills a _ b (sound.behind ahead)).mpr filled
    exact ⟨c', (bindRuns begun).trans ended⟩

theorem Fills.settles {first : Scan α} {next : α → Scan β} {form : Bytes → α → Prop}
    {post : α → β → Prop} (fills : Fills first form) (settles : ∀ a, Settles (next a) (post a)) :
    Fills (first >>= next) fun raw b => ∃ a, form raw a ∧ post a b := by
  intro c b sound
  refine ⟨?_, ?_⟩
  · rintro ⟨c', ok⟩
    obtain ⟨a, middle, begun, ended⟩ := bindOk ok
    exact ⟨a, (fills c a sound).mp ⟨middle, begun⟩, (settles a middle b).mp ⟨c', ended⟩⟩
  · rintro ⟨a, formed, settled⟩
    obtain ⟨middle, begun⟩ := (fills c a sound).mpr formed
    obtain ⟨c', ended⟩ := (settles a middle b).mpr settled
    exact ⟨c', (bindRuns begun).trans ended⟩

theorem settlesResult (result : Except IonError α) {act : Scan α}
    (ok : ∀ a, result = .ok a → act = pure a) (error : ∀ e, result = .error e → act = throw e) :
    Settles act fun a => result = .ok a := by
  intro c b
  cases found : result with
  | ok a =>
    rw [ok a found, settlesPure]
    exact ⟨fun same => congrArg _ same.symm, fun same => (Except.ok.inj same).symm⟩
  | error e =>
    rw [error e found, settlesThrow]
    exact ⟨False.elim, nofun⟩

theorem Fills.runs {act : Scan α} {form : Bytes → α → Prop} (fills : Fills act form) {raw : Bytes}
    {a : α} : runOn raw act = .ok a ↔ form raw a := by
  have filled : (∃ c', act (.ofBytes raw) = .ok a c') ↔ form raw a := fills _ a (Cursor.ofBytesSound raw)
  rw [← filled, runOn]
  cases act (.ofBytes raw) <;> simp

end Scan

open Scan Grammar

namespace Grammar

theorem signBit (b : UInt8) : (b.toNat / 64 % 2 == 1) = decide (64 ≤ b.toNat % 128) := by
  rw [Bool.eq_iff_iff, beq_iff_eq, decide_eq_true_eq]
  omega

theorem signedRead {raw : Bytes} {negative : Bool} {n : Nat} (number : SignedNumber raw negative n)
    (more : Bytes) : VarInt.decode (raw ++ more) = .ok (negative, n, raw.length) := by
  obtain ⟨digits, fits⟩ := number
  cases digits with
  | last marked =>
    rw [List.singleton_append, VarInt.decode, signBit, if_pos marked]
    rfl
  | digit unmarked digits =>
    rw [List.cons_append, VarInt.decode, signBit, if_neg (Nat.not_le.mpr unmarked), digitsRead digits fits]
    rfl

theorem signedTaken {raw : Bytes} {negative : Bool} {n used : Nat}
    (read : VarInt.decode raw = .ok (negative, n, used)) : SignedNumber (raw.take used) negative n := by
  cases raw with
  | nil => simp [VarInt.decode] at read
  | cons b rest =>
    rw [VarInt.decode, signBit] at read
    split at read
    · rename_i marked
      cases read
      exact ⟨.last marked, by omega⟩
    · rename_i unmarked
      obtain ⟨⟨m, k⟩, later, read⟩ := exceptOk read
      cases read
      obtain ⟨digits, fits⟩ := digitsTaken later
      exact ⟨.digit (Nat.not_le.mp unmarked) digits, fits⟩

end Grammar

theorem Scan.varIntExact :
    Exact (lift Cursor.varInt) fun raw (negative, n) => SignedNumber raw negative n := by
  refine numberExact (fun {raw read} number more => ?_) fun {raw read used} ok => ?_
  · simp only [signedRead number, bind, Except.bind, pure, Except.pure]
  · obtain ⟨⟨negative, n, k⟩, decoded, ok⟩ := exceptOk ok
    cases ok
    exact ⟨(VarInt.decodeUsed decoded).2, signedTaken decoded⟩

theorem Grammar.Numbers.noBytes {ns : List Nat} (listed : Numbers [] ns) : ns = [] := by
  generalize nothing : [] = raw at listed
  cases listed with
  | nil => rfl
  | cons first rest =>
    have positive := first.nonempty
    rw [(List.append_eq_nil_iff.mp nothing.symm).1] at positive
    contradiction

theorem Grammar.Fraction.noBytes {fraction : Option (Int × Int)} (behind : Fraction [] fraction) :
    fraction = .none := by
  generalize nothing : [] = raw at behind
  cases behind with
  | none => rfl
  | some exponent _ =>
    obtain ⟨⟨⟩, -⟩ := exponent <;> contradiction

namespace Payload

theorem checkedExact {next : Bool × Nat → Scan α} {form : Bool → Nat → α → Prop}
    (checks : ∀ negative n, Exact (next (negative, n)) fun raw a => raw = [] ∧ form negative n a) :
    Exact (lift Cursor.varInt >>= next) fun raw a =>
      ∃ negative n, SignedNumber raw negative n ∧ form negative n a := by
  refine (varIntExact.bind fun read => checks read.1 read.2).of fun raw a => ⟨?_, ?_⟩
  · rintro ⟨left, right, ⟨negative, n⟩, rfl, number, rfl, checked⟩
    rw [List.append_nil]
    exact ⟨negative, n, number, checked⟩
  · rintro ⟨negative, n, number, checked⟩
    exact ⟨raw, [], (negative, n), (List.append_nil raw).symm, number, rfl, checked⟩

theorem offsetExact : Exact offset fun raw o =>
    ∃ negative n, SignedNumber raw negative n ∧ n < 2 ^ 31 ∧
      o = if negative = true ∧ n = 0 then none else some (signed negative n) := by
  refine checkedExact fun negative n => ?_
  dsimp only
  split
  · rename_i unknown
    exact (exactPure none).of fun raw o => by simp [unknown]
  · split
    · rename_i fits
      exact (exactPure _).of fun raw o => by simp [fits]
    · rename_i large
      exact (exactThrow _).of fun raw o => by simp [large]

theorem exponentExact : Exact exponent fun raw e =>
    ∃ negative n, SignedNumber raw negative n ∧ n < 2 ^ 63 ∧ e = signed negative n := by
  refine checkedExact fun negative n => ?_
  dsimp only
  split
  · rename_i fits
    exact (exactPure _).of fun raw e => by simp [fits]
  · rename_i large
    exact (exactThrow _).of fun raw e => by simp [large]

theorem signMagnitudeIs (raw : Bytes) (a : Int) :
    a = signed (Cursor.signMagnitude raw).1 (Bytes.value (Cursor.signMagnitude raw).2) ↔
      SignedInteger raw a := by
  cases raw with
  | nil =>
    refine ⟨?_, ?_⟩
    · rintro rfl
      exact @SignedInteger.positive [] (by decide)
    · rintro (_ | @⟨n, high⟩)
      · rfl
      · simp only [Bytes.value, List.foldl_nil, List.length_nil] at high
        omega
  | cons b rest =>
    have first : (UInt8.ofNat (b.toNat % 128)).toNat = b.toNat % 128 := VarUInt.openDigit b.toNat
    have byte := b.toNat_lt
    have below := Bytes.valueBound rest
    have whole := Bytes.valueCons b rest
    have power : 256 ^ (b :: rest).length = 256 * 256 ^ rest.length := Nat.pow_succ'
    rw [Cursor.signMagnitude, Bytes.valueCons, first]
    by_cases high : 128 ≤ b.toNat
    · have split : b.toNat * 256 ^ rest.length =
          128 * 256 ^ rest.length + b.toNat % 128 * 256 ^ rest.length := by
        rw [← Nat.add_mul]
        congr 1
        omega
      simp only [ge_iff_le, high, decide_true, signed, if_true]
      refine ⟨?_, ?_⟩
      · rintro rfl
        exact .negative (by omega)
      · rintro (low | high) <;> omega
    · have low : b.toNat * 256 ^ rest.length ≤ 127 * 256 ^ rest.length := Nat.mul_le_mul_right _ (by omega)
      rw [Nat.mod_eq_of_lt (by omega)]
      simp only [ge_iff_le, high, decide_false, signed, Bool.false_eq_true, if_false, ← whole]
      refine ⟨?_, ?_⟩
      · rintro rfl
        exact .positive (by omega)
      · rintro (low | high)
        · rfl
        · omega

theorem coefficientFills : Fills coefficient SignedInteger := by
  intro c a sound
  have room : c.pos + c.remaining ≤ c.stop := by
    rw [sound.remaining]
    exact Nat.le_of_eq sound
  have read : lift (Cursor.int c.remaining) c =
      .ok (Cursor.signMagnitude c.rest) (c.advance c.remaining) := by
    simp only [lift, EStateM.adaptExcept, Cursor.int, Cursor.take, if_pos room]
    rw [sound.remaining, List.take_length]
  rw [← signMagnitudeIs, coefficient, bindGot, bindRuns read]
  exact settlesPure _ _ a

theorem numbersStep (limit : Nat) (next : List Nat → Scan α) (c : Cursor) :
    (numbers (limit + 1) >>= next) c =
      if c.atEnd then next [] c
      else (lift Cursor.varUInt >>= fun n => numbers limit >>= fun rest => next (n :: rest)) c := by
  rw [numbers, bind_assoc, bindGot]
  split
  · rw [pure_bind]
  · simp only [bind_assoc, pure_bind]

theorem numbersFill {next : List Nat → Scan α} {form : List Nat → Bytes → α → Prop}
    (fills : ∀ ns, Fills (next ns) (form ns)) (limit : Nat) :
    Fills (numbers limit >>= next) fun raw a =>
      ∃ left right ns, raw = left ++ right ∧ Numbers left ns ∧ ns.length ≤ limit ∧
        (ns.length < limit → right = []) ∧ form ns right a := by
  induction limit generalizing next form with
  | zero =>
    refine (fills []).of fun raw a => ⟨fun formed => ?_, ?_⟩
    · exact ⟨[], raw, [], rfl, .nil, Nat.le_refl 0, nofun, formed⟩
    · rintro ⟨left, right, ns, rfl, listed, none, -, formed⟩
      cases listed with
      | nil => exact formed
      | cons => contradiction
  | succ limit ih =>
    intro c a sound
    rw [numbersStep]
    split
    · rename_i ended
      have ended := sound.atEnd.mp ended
      rw [fills [] c a sound, ended]
      refine ⟨fun formed => ⟨[], [], [], rfl, .nil, Nat.zero_le _, fun _ => rfl, formed⟩, ?_⟩
      rintro ⟨left, right, ns, nothing, listed, -, -, formed⟩
      obtain ⟨rfl, rfl⟩ := List.append_eq_nil_iff.mp nothing.symm
      rwa [listed.noBytes] at formed
    · rename_i inside
      have more := varUIntExact.fills fun n => ih fun rest => fills (n :: rest)
      rw [more c a sound]
      refine ⟨?_, ?_⟩
      · rintro ⟨first, _, n, ahead, number, left, right, ns, rfl, listed, few, last, formed⟩
        exact ⟨first ++ left, right, n :: ns, by rw [ahead, List.append_assoc], .cons number listed,
          Nat.succ_le_succ few, fun fewer => last (Nat.lt_of_succ_lt_succ fewer), formed⟩
      · rintro ⟨_, right, _, ahead, listed, few, last, formed⟩
        cases listed with
        | nil => exact absurd (sound.atEnd.mpr (ahead.trans (last (Nat.succ_pos _)))) inside
        | @cons first n left ns number listed =>
          rw [List.append_assoc] at ahead
          exact ⟨first, left ++ right, n, ahead, number, left, right, ns, rfl, listed,
            Nat.le_of_succ_le_succ few, fun fewer => last (Nat.succ_lt_succ fewer), formed⟩

def Scaled (coarse : Precision) : Option (Int × Int) → Precision × Nat → Prop
  | none, found => found = (coarse, 0)
  | some (e, c), found => e.natAbs < 2 ^ 63 ∧ fractionOf e c = .ok found

theorem signedMagnitude (negative : Bool) (n : Nat) : (signed negative n).natAbs = n := by
  unfold signed
  split <;> omega

theorem fractionFills (coarse : Precision) : Fills (fraction coarse) fun raw found =>
    ∃ parts, Fraction raw parts ∧ Scaled coarse parts found := by
  intro c found sound
  rw [fraction, bindGot]
  split
  · rename_i ended
    rw [settlesPure, sound.atEnd.mp ended]
    refine ⟨fun same => ⟨none, .none, same⟩, ?_⟩
    rintro ⟨parts, nothing, scaled⟩
    rwa [nothing.noBytes] at scaled
  · rename_i inside
    refine Iff.trans (exponentExact.fills (fun e => coefficientFills.settles fun c =>
      settlesResult (fractionOf e c) (fun _ ok => by rw [ok]) fun _ failed => by rw [failed])
      c found sound) ⟨?_, ?_⟩
    · rintro ⟨left, right, _, ahead, ⟨negative, n, number, fits, rfl⟩, c, integer, scaled⟩
      rw [ahead]
      exact ⟨_, .some number integer, by rwa [signedMagnitude], scaled⟩
    · rintro ⟨parts, behind, scaled⟩
      generalize ahead : c.rest = raw at behind
      cases behind with
      | none => exact absurd (sound.atEnd.mpr ahead) inside
      | @some left negative n right c exponent coefficient =>
        obtain ⟨fits, scaled⟩ := scaled
        rw [signedMagnitude] at fits
        exact ⟨left, right, _, rfl, ⟨negative, n, exponent, fits, rfl⟩, c, coefficient, scaled⟩

def timestampEnd (o : Option Int) (year : Nat) (fields : List Nat) (found : Precision × Nat) :
    Scan Timestamp := do
  let some utc := moment? year fields found.2 | throw .badTimestamp
  match Timestamp.of utc o found.1 with
  | .ok t => return t
  | .error e => throw e

def timestampTail (o : Option Int) (year : Nat) (fields : List Nat) : Scan Timestamp := do
  let some precision := precisionOf? fields.length | throw .badTimestamp
  let found ← fraction precision
  timestampEnd o year fields found

theorem timestampParted : timestampScan = (do
    let o ← offset
    let year ← lift Cursor.varUInt
    let fields ← numbers 5
    timestampTail o year fields) := rfl

theorem endSettles (o : Option Int) (year : Nat) (fields : List Nat) (found : Precision × Nat) :
    Settles (timestampEnd o year fields found) fun t =>
      ∃ utc, moment? year fields found.2 = some utc ∧ Timestamp.of utc o found.1 = .ok t := by
  intro c t
  unfold timestampEnd
  cases moment? year fields found.2 with
  | none => exact (settlesThrow _ c t).trans ⟨False.elim, fun ⟨_, found, _⟩ => (nomatch found)⟩
  | some utc =>
    dsimp only
    refine Iff.trans (settlesResult (Timestamp.of utc o found.1) (fun _ ok => by rw [ok])
      (fun _ failed => by rw [failed]) c t) ⟨fun ok => ⟨utc, rfl, ok⟩, ?_⟩
    rintro ⟨_, ⟨⟩, ok⟩
    exact ok

theorem tailFills (o : Option Int) (year : Nat) (fields : List Nat) :
    Fills (timestampTail o year fields) fun raw t => ∃ parts coarse found utc,
      Fraction raw parts ∧ precisionOf? fields.length = some coarse ∧ Scaled coarse parts found ∧
        moment? year fields found.2 = some utc ∧ Timestamp.of utc o found.1 = .ok t := by
  intro c t sound
  unfold timestampTail
  cases precisionOf? fields.length with
  | none => exact (settlesThrow _ c t).trans ⟨False.elim, fun ⟨_, _, _, _, _, count, _⟩ => (nomatch count)⟩
  | some coarse =>
    refine ((fractionFills coarse).settles (endSettles o year fields) c t sound).trans ⟨?_, ?_⟩
    · rintro ⟨found, ⟨parts, behind, scaled⟩, utc, moment, built⟩
      exact ⟨parts, coarse, found, utc, behind, rfl, scaled, moment, built⟩
    · rintro ⟨parts, _, found, utc, behind, ⟨⟩, scaled, moment, built⟩
      exact ⟨found, ⟨parts, behind, scaled⟩, utc, moment, built⟩

end Payload

namespace TimestampParts

def offset (p : TimestampParts) : Option Int :=
  if p.negative = true ∧ p.minutes = 0 then none else some (Payload.signed p.negative p.minutes)

structure Steps (p : TimestampParts) (coarse : Precision) (found : Precision × Nat) (utc : DateTime)
    (t : Timestamp) : Prop where
  minutes : p.minutes < 2 ^ 31
  counted : Payload.precisionOf? p.fields.length = some coarse
  scaled : Payload.Scaled coarse p.fraction found
  moment : Payload.moment? p.year p.fields found.2 = some utc
  built : Timestamp.of utc p.offset found.1 = .ok t

end TimestampParts

theorem Payload.timestampSteps (raw : Bytes) (t : Timestamp) : timestamp raw = .ok t ↔
    ∃ p coarse found utc, TimestampBody raw p ∧ p.Steps coarse found utc t := by
  have fills := offsetExact.fills fun o => varUIntExact.fills fun year => numbersFill (tailFills o year) 5
  rw [timestampScanned, timestampParted]
  refine fills.runs.trans ⟨?_, ?_⟩
  · rintro ⟨shifted, _, _, rfl, ⟨negative, minutes, offset, fits, rfl⟩, dated, _, year, rfl, number,
      listed, rest, fields, rfl, numbers, few, last, fraction, coarse, found, utc, tail, count, scaled,
      moment, built⟩
    have paired : fields.length ≠ 3 := fun three => by
      rw [three] at count
      contradiction
    have complete (given : fraction.isSome = true) : fields.length = 5 := by
      refine Nat.le_antisymm few (Nat.le_of_not_lt fun fewer => ?_)
      rw [last fewer] at tail
      rw [tail.noBytes] at given
      contradiction
    exact ⟨⟨negative, minutes, year, fields, fraction⟩, coarse, found, utc,
      .of offset number numbers few paired tail complete, fits, count, scaled, moment, built⟩
  · rintro ⟨_, coarse, found, utc, body, fits, count, scaled, moment, built⟩
    cases body with
    | @of shifted negative minutes dated year listed fields rest fraction offset number numbers few paired
        tail complete =>
      have last (fewer : fields.length < 5) : rest = [] := by
        cases tail with
        | none => rfl
        | some => exact absurd (complete rfl) (Nat.ne_of_lt fewer)
      exact ⟨shifted, _, _, rfl, ⟨negative, minutes, offset, fits, rfl⟩, dated, _, year, rfl, number,
        listed, rest, fields, rfl, numbers, few, last, fraction, coarse, found, utc, tail, count, scaled,
        moment, built⟩

namespace Payload

variable {e c : Int} {found : Precision × Nat}

theorem fractionOfWhole (whole : 0 ≤ e) :
    fractionOf e c = .ok found ↔ c = 0 ∧ found = (.second, 0) := by
  unfold fractionOf
  by_cases zero : c = 0
  · simp [whole, zero, eq_comm]
  · by_cases negative : c < 0 <;> simp [whole, zero, negative]

theorem fractionOfParts {k n : Nat} (positive : 0 < k) : fractionOf (-k) n = .ok found ↔
    k ≤ 1000 ∧ n < 10 ^ k ∧ found = (.fraction (min k 9), n * 10 ^ 9 / 10 ^ k) := by
  have natural : ¬(n : Int) < 0 := by omega
  have below : ¬0 ≤ -(k : Int) := by omega
  rw [fractionOf, if_neg natural, if_neg below]
  by_cases long : 1000 < k
  · simp [fractionLimit, long, Nat.not_le.mpr long]
  · by_cases high : 10 ^ k ≤ n
    · simp [fractionLimit, long, high, Nat.not_lt.mpr high]
    · simp [fractionLimit, long, high, Nat.not_lt.mp long, Nat.not_le.mp high, eq_comm]

theorem fractionOfPositive (read : fractionOf e c = .ok found) : 0 ≤ c := by
  refine Int.not_lt.mp fun negative => ?_
  simp [fractionOf, negative] at read

theorem fractionOfIff : fractionOf e c = .ok found ↔
    (0 ≤ c ∧ (0 ≤ e → c = 0) ∧ (e < 0 → -e ≤ 1000 ∧ c < (10 ^ e.natAbs : Nat))) ∧
      found.1 = (if e < 0 then .fraction (min e.natAbs 9) else .second) ∧
      (found.2 : Int) = if e < 0 then c * (10 ^ 9 : Nat) / (10 ^ e.natAbs : Nat) else 0 := by
  by_cases least : 0 ≤ c
  · obtain ⟨precision, nano⟩ := found
    obtain ⟨n, rfl⟩ := Int.eq_ofNat_of_zero_le least
    by_cases whole : 0 ≤ e
    · have above : ¬e < 0 := Int.not_lt.mpr whole
      simp only [fractionOfWhole whole, whole, above, Prod.mk.injEq, if_false, false_imp_iff]
      refine ⟨fun ⟨zero, second, nothing⟩ => ⟨⟨least, fun _ => zero, trivial⟩, second, ?_⟩,
        fun ⟨⟨_, zero, _⟩, second, nothing⟩ => ⟨zero trivial, second, ?_⟩⟩
      · exact Int.natCast_eq_zero.mpr nothing
      · exact Int.natCast_eq_zero.mp nothing
    · obtain ⟨k, rfl⟩ : ∃ k : Nat, e = -k := ⟨e.natAbs, by omega⟩
      have part : -(k : Int) < 0 := by omega
      have scaled : (nano : Int) = n * (10 ^ 9 : Nat) / (10 ^ k : Nat) ↔ nano = n * 10 ^ 9 / 10 ^ k := by
        rw [← Int.natCast_inj, Int.natCast_ediv, Int.natCast_mul]
      rw [fractionOfParts (by omega), if_pos part, if_pos part, Int.natAbs_neg, Int.natAbs_natCast, scaled]
      simp only [Prod.mk.injEq]
      refine ⟨fun ⟨few, below, found⟩ => ⟨⟨least, fun high => absurd high whole, fun _ => ?_⟩, found⟩,
        fun ⟨⟨_, _, less⟩, found⟩ => ?_⟩
      · omega
      · have := less part
        exact ⟨by omega, by omega, found⟩
  · exact ⟨fun read => absurd (fractionOfPositive read) least,
      fun ⟨⟨positive, _⟩, _⟩ => absurd positive least⟩

theorem fractionOfCut (read : fractionOf e c = .ok found) :
    found.2 < 10 ^ 9 ∧ 10 ^ (9 - found.1.places) ∣ found.2 := by
  obtain ⟨n, rfl⟩ := Int.eq_ofNat_of_zero_le (fractionOfPositive read)
  by_cases whole : 0 ≤ e
  · obtain ⟨-, rfl⟩ := (fractionOfWhole whole).mp read
    decide
  · obtain ⟨k, rfl⟩ : ∃ k : Nat, e = -k := ⟨e.natAbs, by omega⟩
    obtain ⟨-, less, rfl⟩ := (fractionOfParts (by omega)).mp read
    refine ⟨Nat.div_lt_of_lt_mul (Nat.mul_lt_mul_of_pos_right less (by decide)), ?_⟩
    rcases Nat.le_total k 9 with few | many
    · have split : n * 10 ^ 9 = n * 10 ^ (9 - k) * 10 ^ k := by
        rw [Nat.mul_assoc, ← Nat.pow_add, Nat.sub_add_cancel few]
      rw [split, Nat.mul_div_cancel _ (Nat.pow_pos (by decide)), Nat.min_eq_left few]
      exact Nat.dvd_mul_left _ _
    · rw [Nat.min_eq_right many]
      exact Nat.one_dvd _

theorem scaledCut {coarse : Precision} {parts : Option (Int × Int)} (scaled : Scaled coarse parts found) :
    found.2 < 10 ^ 9 ∧ 10 ^ (9 - found.1.places) ∣ found.2 := by
  cases parts with
  | none =>
    cases scaled
    exact ⟨Nat.pow_pos (by decide), Nat.dvd_zero _⟩
  | some => exact fractionOfCut scaled.2

end Payload

theorem Date.ofIff {year : Int} {month day : Nat} {date : Date} : of? year month day = some date ↔
    date.year = year ∧ date.month = month ∧ date.day = day := by
  refine ⟨fun found => ?_, ?_⟩
  · unfold of? at found
    split at found <;> cases found
    exact ⟨rfl, rfl, rfl⟩
  · rintro ⟨rfl, rfl, rfl⟩
    exact dif_pos date.valid

theorem Time.ofIff {hour minute second nano : Nat} {time : Time} :
    of? hour minute second nano = some time ↔
      time.hour = hour ∧ time.minute = minute ∧ time.second = second ∧ time.nano = nano := by
  refine ⟨fun found => ?_, ?_⟩
  · unfold of? at found
    split at found <;> cases found
    exact ⟨rfl, rfl, rfl, rfl⟩
  · rintro ⟨rfl, rfl, rfl, rfl⟩
    exact dif_pos time.valid

namespace TimestampParts

structure At (p : TimestampParts) (utc : DateTime) : Prop where
  date : utc.date.year = p.year ∧ utc.date.month = p.month ∧ utc.date.day = p.day
  time : utc.time.hour = p.hour ∧ utc.time.minute = p.minute ∧ utc.time.second = p.second
  nano : utc.time.nano = p.nano

theorem momentIff {p : TimestampParts} {nano : Nat} {utc : DateTime} (same : (nano : Int) = p.nano) :
    Payload.moment? p.year p.fields nano = some utc ↔ p.At utc := by
  simp only [Payload.moment?, Option.bind_eq_bind, Option.bind_eq_some_iff, Date.ofIff, Time.ofIff]
  constructor
  · rintro ⟨date, ofDate, time, ⟨hour, minute, second, found⟩, ⟨⟩⟩
    exact ⟨ofDate, ⟨hour, minute, second⟩, found ▸ same⟩
  · rintro ⟨date, ⟨hour, minute, second⟩, found⟩
    exact ⟨utc.date, date, utc.time, ⟨hour, minute, second, by omega⟩, rfl⟩

structure Counted (p : TimestampParts) : Prop where
  few : p.fields.length ≤ 5
  paired : p.fields.length ≠ 3
  complete : p.fraction.isSome = true → p.fields.length = 5

theorem counted {raw : Bytes} {p : TimestampParts} (body : TimestampBody raw p) : p.Counted := by
  cases body with
  | of _ _ _ few paired _ complete => exact ⟨few, paired, complete⟩

variable {p : TimestampParts} {utc : DateTime} {t : Timestamp}

theorem At.ranges (moment : p.At utc) :
    ((1 ≤ p.month ∧ p.month ≤ 12) ∧ 1 ≤ p.day ∧ p.day ≤ daysInMonth p.year p.month) ∧
      p.hour < 24 ∧ p.minute < 60 ∧ p.second < 60 := by
  obtain ⟨⟨year, month, day⟩, ⟨hour, minute, second⟩, -⟩ := moment
  rw [← year, ← month, ← day, ← hour, ← minute, ← second]
  have time := utc.time.valid
  exact ⟨⟨monthOfDay utc.date.valid, utc.date.valid⟩, time.1, time.2.1, time.2.2.1⟩

theorem nanoPositive (less : ∀ e c, p.fraction = some (e, c) → Subsecond e c) : 0 ≤ p.nano := by
  unfold nano
  split
  · rename_i e c found
    have positive := (less e c found).2.1
    split
    · exact Int.ediv_nonneg (Int.mul_nonneg positive (Int.natCast_nonneg _)) (Int.natCast_nonneg _)
    · exact Int.le_refl 0
  · exact Int.le_refl 0

theorem precisionInRange : p.precision.inRange = true := by
  unfold precision
  split
  · split
    · rename_i e _ _ negative
      simp only [Precision.inRange, Bool.and_eq_true, decide_eq_true_eq]
      omega
    · rfl
  · split <;> rfl

namespace Counted

theorem coarse (counted : p.Counted) : ∃ coarse, Payload.precisionOf? p.fields.length = some coarse ∧
    coarse.fields = p.fields.length ∧ (p.fraction = none → coarse = p.precision) := by
  have counts : p.fields.length = 0 ∨ p.fields.length = 1 ∨ p.fields.length = 2 ∨
      p.fields.length = 4 ∨ p.fields.length = 5 := by
    have few := counted.few
    have paired := counted.paired
    omega
  unfold precision
  rcases counts with n | n | n | n | n <;> rw [n] <;>
    exact ⟨_, rfl, rfl, fun absent => by rw [absent]; rfl⟩

theorem precisionFields (counted : p.Counted) : p.precision.fields = p.fields.length := by
  obtain ⟨coarse, -, fields, plain⟩ := counted.coarse
  cases found : p.fraction with
  | none => rw [← plain found, fields]
  | some fraction =>
    rw [counted.complete (by rw [found]; rfl), precision, found]
    dsimp only
    split <;> rfl

theorem hasTime (counted : p.Counted) : p.precision.hasTime = true ↔ p.HasTime := by
  rw [Precision.hasTime, counted.precisionFields, decide_eq_true_eq, HasTime]

theorem scaledIff (counted : p.Counted) {coarse : Precision}
    (count : Payload.precisionOf? p.fields.length = some coarse) {found : Precision × Nat} :
    Payload.Scaled coarse p.fraction found ↔
      (∀ e c, p.fraction = some (e, c) → Subsecond e c) ∧ found.1 = p.precision ∧
        (found.2 : Int) = p.nano := by
  obtain ⟨coarse', same, -, plain⟩ := counted.coarse
  obtain rfl : coarse = coarse' := Option.some.inj (count.symm.trans same)
  obtain ⟨precision, nano⟩ := found
  cases fraction : p.fraction with
  | none =>
    rw [plain fraction]
    simp [Payload.Scaled, fraction, TimestampParts.nano]
  | some parts =>
    obtain ⟨e, c⟩ := parts
    have only : (∀ e' c', some (e, c) = some (e', c') → Subsecond e' c') ↔ Subsecond e c :=
      ⟨fun all => all e c rfl, fun one _ _ same => by cases same; exact one⟩
    simp only [Payload.Scaled, Payload.fractionOfIff, fraction, TimestampParts.precision, TimestampParts.nano]
    rw [only]
    simp only [Subsecond, and_assoc]

theorem cut (counted : p.Counted) {coarse : Precision} {found : Precision × Nat}
    (scaled : Payload.Scaled coarse p.fraction found) (precision : found.1 = p.precision)
    (same : (found.2 : Int) = p.nano) (moment : p.At utc) : utc.Cut p.precision := by
  have missing {i : Nat} (few : p.precision.fields < i + 1) (least : Nat) :
      p.fields[i]?.getD least = least := by
    rw [counted.precisionFields] at few
    rw [List.getElem?_eq_none (Nat.le_of_lt_succ few), Option.getD_none]
  obtain ⟨⟨year, month, day⟩, ⟨hour, minute, second⟩, nano⟩ := moment
  refine ⟨fun few => ?_, fun few => ?_, fun few => ⟨?_, ?_⟩, fun few => ?_, ?_⟩
  · rw [month]
    exact missing few 1
  · rw [day]
    exact missing few 1
  · rw [hour]
    exact missing (by have := counted.precisionFields; have := counted.paired; omega) 0
  · rw [minute]
    exact missing few 0
  · rw [second]
    exact missing few 0
  · rw [← precision, show utc.time.nano = found.2 by omega]
    exact Payload.scaledCut scaled

theorem keptTimed (counted : p.Counted) (timed : p.HasTime) :
    Timestamp.keptOffset p.offset p.precision = p.offset := if_pos (counted.hasTime.mpr timed)

theorem keptDate (counted : p.Counted) (dated : ¬p.HasTime) :
    Timestamp.keptOffset p.offset p.precision = none := if_neg (mt counted.hasTime.mp dated)

theorem minutesIff (counted : p.Counted) :
    (∀ m ∈ Timestamp.keptOffset p.offset p.precision, m.natAbs < minutesOfDay) ↔
      (p.HasTime → p.minutes < 1440) := by
  by_cases timed : p.HasTime
  · rw [counted.keptTimed timed]
    unfold offset
    split
    · rename_i unknown
      simp [unknown]
    · simp [timed, Payload.signedMagnitude, minutesOfDay]
  · rw [counted.keptDate timed]
    simp [timed]

theorem offsetUnknown (counted : p.Counted)
    (unknown : ¬p.HasTime ∨ (p.negative = true ∧ p.minutes = 0)) :
    Timestamp.keptOffset p.offset p.precision = none := by
  by_cases timed : p.HasTime
  · rw [counted.keptTimed timed]
    exact if_pos (unknown.resolve_left (not_not_intro timed))
  · exact counted.keptDate timed

theorem offsetKnown (counted : p.Counted) (timed : p.HasTime)
    (known : ¬(p.negative = true ∧ p.minutes = 0)) :
    Timestamp.keptOffset p.offset p.precision = some (Payload.signed p.negative p.minutes) := by
  rw [counted.keptTimed timed]
  exact if_neg known

theorem stepsIff (counted : p.Counted) :
    (∃ coarse found utc, p.Steps coarse found utc t) ↔ p.Meaningful ∧ p.Tells t := by
  refine ⟨?_, fun ⟨meaning, tells⟩ => ?_⟩
  · rintro ⟨coarse, ⟨fine, nano⟩, utc, fits, count, scaled, found, built⟩
    obtain ⟨less, rfl, same⟩ := (counted.scaledIff count).mp scaled
    have moment := (momentIff same).mp found
    obtain ⟨⟨year, -, minutes⟩, cut, offset, precision⟩ := Timestamp.ofOk built
    rw [(DateTime.truncateKeeps _ _).mpr (counted.cut scaled rfl same moment)] at cut
    rw [moment.date.1] at year
    have offsets := counted.minutesIff.mp minutes
    refine ⟨⟨⟨fits, offsets⟩, by omega, moment.ranges.1, moment.ranges.2, less⟩, ?_⟩
    rw [← cut] at moment
    exact ⟨moment.date, moment.time, moment.nano, precision,
      fun unknown => offset.trans (counted.offsetUnknown unknown),
      fun timed known => offset.trans (counted.offsetKnown timed known)⟩
  · obtain ⟨coarse, count, -⟩ := counted.coarse
    have moment : p.At t.utc := ⟨tells.date, tells.time, tells.nano⟩
    have kept : t.offset = Timestamp.keptOffset p.offset p.precision := by
      by_cases unknown : ¬p.HasTime ∨ (p.negative = true ∧ p.minutes = 0)
      · rw [tells.unknown unknown, counted.offsetUnknown unknown]
      · obtain ⟨timed, known⟩ := not_or.mp unknown
        have timed := Classical.not_not.mp timed
        rw [tells.known timed known, counted.offsetKnown timed known]
    have scaled : Payload.Scaled coarse p.fraction (p.precision, t.utc.time.nano) :=
      (counted.scaledIff count).mpr ⟨meaning.fraction, rfl, tells.nano⟩
    refine ⟨coarse, _, t.utc, meaning.offset.1, count, scaled, (momentIff tells.nano).mpr moment, ?_⟩
    have digits := t.digitsFit
    have cut := t.truncated
    rw [tells.precision] at digits cut
    exact Timestamp.ofIff.mpr
      ⟨⟨t.yearFits, digits, counted.minutesIff.mpr meaning.offset.2⟩, cut.symm, kept, tells.precision⟩

theorem told (counted : p.Counted) (meaning : p.Meaningful) : ∃ t, p.Tells t := by
  obtain ⟨coarse, count, -⟩ := counted.coarse
  have same : (p.nano.toNat : Int) = p.nano := Int.toNat_of_nonneg (nanoPositive meaning.fraction)
  have scaled : Payload.Scaled coarse p.fraction (p.precision, p.nano.toNat) :=
    (counted.scaledIff count).mpr ⟨meaning.fraction, rfl, same⟩
  have below := (Payload.scaledCut scaled).1
  obtain ⟨utc, moment⟩ : ∃ utc, p.At utc := by
    obtain ⟨hour, minute, second⟩ := meaning.time
    have nano : p.nano.toNat < 2000000000 := Nat.lt_trans below (by decide)
    exact ⟨⟨⟨p.year, p.month, p.day, meaning.date.2⟩,
      ⟨p.hour, p.minute, p.second, p.nano.toNat, hour, minute, second, nano⟩⟩,
      ⟨rfl, rfl, rfl⟩, ⟨rfl, rfl, rfl⟩, same⟩
  have fits : Timestamp.Fits utc p.offset p.precision := by
    have year := meaning.year
    refine ⟨?_, precisionInRange, counted.minutesIff.mpr meaning.offset.2⟩
    rw [moment.date.1]
    omega
  obtain ⟨t, built, -⟩ := Timestamp.ofFits fits
  exact ⟨t, (counted.stepsIff.mp ⟨coarse, _, utc, meaning.offset.1, count, scaled,
    (momentIff same).mpr moment, built⟩).2⟩

end Counted

end TimestampParts

/-- A timestamp is decoded from exactly the bodies whose parts mean something, and it is what they tell. -/
theorem Payload.timestampsExact (raw : Bytes) :
    ((∃ t, timestamp raw = .ok t) ↔ ∃ p, TimestampBody raw p ∧ p.Meaningful) ∧
      ∀ t, timestamp raw = .ok t ↔ ∃ p, TimestampBody raw p ∧ p.Meaningful ∧ p.Tells t := by
  have exact (t : Timestamp) :
      timestamp raw = .ok t ↔ ∃ p, TimestampBody raw p ∧ p.Meaningful ∧ p.Tells t := by
    rw [timestampSteps]
    refine ⟨?_, ?_⟩
    · rintro ⟨p, coarse, found, utc, body, steps⟩
      exact ⟨p, body, (TimestampParts.counted body).stepsIff.mp ⟨coarse, found, utc, steps⟩⟩
    · rintro ⟨p, body, told⟩
      obtain ⟨coarse, found, utc, steps⟩ := (TimestampParts.counted body).stepsIff.mpr told
      exact ⟨p, coarse, found, utc, body, steps⟩
  refine ⟨⟨?_, ?_⟩, exact⟩
  · rintro ⟨t, read⟩
    obtain ⟨p, body, meaning, -⟩ := (exact t).mp read
    exact ⟨p, body, meaning⟩
  · rintro ⟨p, body, meaning⟩
    obtain ⟨t, tells⟩ := (TimestampParts.counted body).told meaning
    exact ⟨t, (exact t).mpr ⟨p, body, meaning, tells⟩⟩

end Ion

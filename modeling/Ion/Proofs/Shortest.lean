import Ion.Proofs.Lengths
import Ion.Proofs.Integers
import Ion.Proofs.Transcoding

/-! Integers, decimals and symbols are written as short as they can be read. What a reader shows as one value
has a header and a body, and neither can be shorter than the written one, whatever zeros, long lengths,
padding or symbol tables stand with it. -/
namespace Ion

namespace Bytes

theorem beShortest (n : Nat) : be (shortestLength n) n = shortest n := by
  rw [← lengthShortest]
  induction n using shortest.induct with
  | case1 => rw [shortest, if_pos rfl]; rfl
  | case2 n positive ih =>
    rw [shortest, if_neg positive, List.length_append, List.length_singleton, be, ih]

end Bytes

theorem VarUInt.lengthMono {m n : Nat} (le : m ≤ n) : length m ≤ length n := by
  obtain ⟨positive, bound⟩ := lengthIff.mp (Nat.le_refl (length n))
  exact lengthIff.mpr ⟨positive, Nat.lt_of_le_of_lt le bound⟩

theorem Grammar.Number.length {raw : Bytes} {n : Nat} (number : Number raw n) :
    VarUInt.length n ≤ raw.length := by
  have read := digitsRead number.1 number.2 []
  rw [List.append_nil] at read
  exact VarUInt.decodeLength read

namespace Wire

theorem headerShort {code length : Nat} (short : length ≤ shortLength) : (header code length).length = 1 := by
  rw [header, if_pos short]
  rfl

theorem headerLong {code length : Nat} (long : ¬length ≤ shortLength) :
    (header code length).length = 1 + VarUInt.length length := by
  rw [header, if_neg long, List.length_cons, VarUInt.encodeLength, Nat.add_comm]

theorem headerMono (code code' : Nat) {m n : Nat} (le : m ≤ n) :
    (header code m).length ≤ (header code' n).length := by
  by_cases short : m ≤ shortLength
  · rw [headerShort short]
    exact List.length_pos_iff.mpr (by unfold header; split <;> exact List.cons_ne_nil _ _)
  · rw [headerLong short, headerLong (by omega)]
    exact Nat.add_le_add_left (VarUInt.lengthMono le) 1

end Wire

theorem Grammar.Bare.header {s : Shape} {type : ValueType} (bare : Bare s type) (something : s.isNull = false)
    (bool : type ≠ .bool) (struct : type ≠ .struct) (code : Nat) :
    (Wire.header code s.body.length).length ≤ 1 + s.head.length := by
  have present : lowNibble s.descriptor ≠ nullNibble := by simpa [Shape.isNull] using something
  have nibble : lowNibble s.descriptor < 16 := Nat.mod_lt _ (by decide)
  have limits : nullNibble = 15 ∧ longLength = 14 ∧ Wire.shortLength = 13 := ⟨rfl, rfl, rfl⟩
  have length := bare.length
  generalize s.body.length = n at length ⊢
  generalize s.head = head at length ⊢
  cases length with
  | null null => exact absurd null present
  | bool is => exact absurd is bool
  | sorted is => exact absurd is struct
  | ordinary _ _ _ _ length =>
    cases length with
    | short short =>
      rw [Wire.headerShort (by omega)]
      exact Nat.le_add_right 1 _
    | long long number =>
      by_cases short : n ≤ Wire.shortLength
      · rw [Wire.headerShort short]
        exact Nat.le_add_right 1 _
      · rw [Wire.headerLong short]
        exact Nat.add_le_add_left number.length 1

theorem Wire.signedMagnitudeIff {n : Int} {k : Nat} :
    (signedMagnitude n).length ≤ k ↔ 2 * n.natAbs < 256 ^ k := by
  have digits : (Bytes.shortest n.natAbs).length ≤ k ↔ n.natAbs < 256 ^ k := Bytes.shortestIff
  have value := Bytes.valueShortest n.natAbs
  unfold signedMagnitude
  cases shape : Bytes.shortest n.natAbs with
  | nil =>
    rw [shape] at value
    have zero : 2 * n.natAbs = 0 := congrArg (2 * ·) value.symm
    rw [zero]
    exact iff_of_true (Nat.zero_le k) (Nat.pow_pos (by decide))
  | cons b rest =>
    rw [shape, Bytes.valueCons] at value
    rw [shape, List.length_cons] at digits
    have below := Bytes.valueBound rest
    have byte : b.toNat < 256 := b.toNat_lt
    have step : 256 ^ (rest.length + 1) = 256 * 256 ^ rest.length := Nat.pow_succ'
    -- a first digit with its high bit set leaves no bit for the sign
    by_cases high : 128 ≤ b.toNat
    · have least : 256 ^ (rest.length + 1) ≤ 2 * n.natAbs := by
        have first := Nat.mul_le_mul_right (256 ^ rest.length) high
        omega
      have most : 2 * n.natAbs < 256 ^ (rest.length + 2) := by
        have first := Nat.mul_le_mul_right (256 ^ rest.length) (Nat.le_of_lt_succ byte)
        have next : 256 ^ (rest.length + 2) = 256 * 256 ^ (rest.length + 1) := Nat.pow_succ'
        omega
      simp only [if_pos high, List.length_cons]
      refine ⟨fun long => Nat.lt_of_lt_of_le most (Nat.pow_le_pow_right (by decide) long), fun fits => ?_⟩
      exact (Nat.pow_lt_pow_iff_right (by decide)).mp (Nat.lt_of_le_of_lt least fits)
    · have most : 2 * n.natAbs < 256 ^ (rest.length + 1) := by
        have first := Nat.mul_le_mul_right (256 ^ rest.length) (Nat.le_of_lt_succ (Nat.not_le.mp high))
        omega
      simp only [if_neg high, List.length_cons]
      refine ⟨fun long => Nat.lt_of_lt_of_le most (Nat.pow_le_pow_right (by decide) long), fun fits => ?_⟩
      exact digits.mpr (by omega)

theorem Cursor.signMagnitudeBound (raw : Bytes) :
    2 * Bytes.value (signMagnitude raw).2 < 256 ^ raw.length := by
  cases raw with
  | nil => decide
  | cons b rest =>
    have below := Bytes.valueBound rest
    have first : (UInt8.ofNat (b.toNat % 128)).toNat = b.toNat % 128 := VarUInt.openDigit b.toNat
    have low : b.toNat % 128 ≤ 127 := by omega
    have share := Nat.mul_le_mul_right (256 ^ rest.length) low
    rw [signMagnitude, Bytes.valueCons, first, List.length_cons, Nat.pow_succ']
    omega

theorem Payload.signedAbs (negative : Bool) (magnitude : Nat) : (signed negative magnitude).natAbs = magnitude := by
  cases negative
  · rfl
  · exact Int.natAbs_neg _

namespace Payload

open Scan

variable {raw : Bytes}

theorem intShortest {negative : Bool} {s : Scalar} {n : Int} (decoded : int negative raw = .ok s)
    (asked : Variant.integer? (some s) = some n) : (Bytes.shortest n.natAbs).length ≤ raw.length := by
  rw [intValue] at decoded
  split at decoded
  · contradiction
  · cases decoded
    rw [integerOfScalar] at asked
    cases asked
    rw [signedAbs]
    exact Bytes.shortestIff.mpr (Bytes.valueBound raw)

theorem symbolShortest {sid : Nat} (decoded : symbol raw = .ok sid) :
    (Bytes.shortest sid).length ≤ raw.length := by
  unfold symbol at decoded
  split at decoded
  · cases decoded
    exact Bytes.shortestIff.mpr (Bytes.valueBound raw)
  · contradiction

theorem exponentShortest {c c' : Cursor} {e : Int} (read : exponent c = .ok e c') :
    ∃ used, c' = c.advance used ∧ used ≤ c.rest.length ∧ (VarInt.encodeInt e).length ≤ used := by
  obtain ⟨⟨negative, magnitude⟩, c1, number, checked⟩ := bindOk read
  obtain ⟨used, decoded, rfl⟩ := Cursor.varIntDecodes (liftOk number)
  dsimp only at checked
  split at checked
  · cases checked
    refine ⟨used, rfl, (VarInt.decodeUsed decoded).2, ?_⟩
    rw [VarInt.encodeInt, VarInt.encodeLength, signedAbs]
    exact VarInt.decodeLength decoded
  · contradiction

theorem coefficientShortest {c c' : Cursor} {n : Int} (sound : c.Sound) (read : coefficient c = .ok n c') :
    (Wire.signedMagnitude n).length ≤ c.rest.length := by
  obtain ⟨c1, c2, got, read⟩ := bindOk read
  cases got
  obtain ⟨⟨negative, magnitude⟩, c2, number, said⟩ := bindOk read
  cases said
  have taken := liftOk number
  unfold Cursor.int Cursor.take at taken
  split at taken
  · simp only [EStateM.Result.ok.injEq] at taken
    have bound := Cursor.signMagnitudeBound (c.rest.take c.remaining)
    rw [taken.1, sound.remaining, List.take_length] at bound
    rw [Wire.signedMagnitudeIff, signedAbs]
    exact bound
  · contradiction

def writtenDecimal (d : Decimal) : Bytes :=
  if d.scale = 0 ∧ d.coefficient = 0 then []
  else VarInt.encodeInt (-d.scale.toInt) ++ Wire.signedMagnitude d.coefficient

theorem decimalShortest {d : Decimal} (decoded : decimal raw = .ok d) :
    (writtenDecimal d).length ≤ raw.length := by
  unfold decimal at decoded
  split at decoded
  · cases decoded
    exact Nat.zero_le _
  · obtain ⟨c, run⟩ := runOnOk decoded
    obtain ⟨e, c1, exponent, run⟩ := bindOk run
    obtain ⟨n, c2, coefficient, run⟩ := bindOk run
    cases run
    obtain ⟨used, rfl, within, scale⟩ := exponentShortest exponent
    have fits := exponentFits exponent
    have sound : ((Cursor.ofBytes raw).advance used).Sound := by
      refine Cursor.advanceSound (Cursor.ofBytesSound raw) ?_
      simpa [Cursor.ofBytes] using within
    have rest := coefficientShortest sound coefficient
    have back : -(Int64.ofInt (-e)).toInt = e := by
      rw [Int64.toInt_ofInt_of_le (by omega) (by omega), Int.neg_neg]
    rw [writtenDecimal, back]
    split
    · exact Nat.zero_le _
    · simp only [Cursor.ofBytes, Cursor.advance, List.length_drop] at rest within
      rw [List.length_append]
      change (VarInt.encodeInt e).length + (Wire.signedMagnitude n).length ≤ raw.length
      omega

end Payload

theorem Wire.decimalWritten {d : Decimal} (scale : d.scale ≠ Int64.minValue) :
    decimal? d = .ok (typed ValueType.decimal.code (Payload.writtenDecimal d)) := by
  rw [decimal?, if_neg scale, Payload.writtenDecimal]
  split <;> rfl

theorem Scan.Meets.bare {c : Cursor} {h : Header} (meets : Meets none c (.value h)) (sound : c.Sound)
    (unannotated : h.annotations = []) :
    ∃ s, Grammar.Bare s h.type ∧ s.isNull = h.isNull ∧ s.body = h.payload ∧ s.bytes.length ≤ c.rest.length := by
  cases meets with
  | @value c' _ _ passes inside scan plain =>
    have spelled := anyItemTakes (passes.sound sound) scan
    have room := passes.neverGrows
    cases spelled with
    | value name value ahead found =>
      rw [found.annotations] at unannotated
      cases value with
      | bare bare =>
        have whole := congrArg List.length ahead
        simp only [List.length_append] at whole
        exact ⟨_, found.type ▸ bare, found.null.symm, found.payload.symm, by omega⟩
      | wrapped wrapper => exact absurd unannotated wrapper.annotated

theorem Scan.Meets.longer {c : Cursor} {h : Header} (meets : Meets none c (.value h)) (sound : c.Sound)
    (unannotated : h.annotations = []) (something : h.isNull = false) (bool : h.type ≠ .bool)
    (struct : h.type ≠ .struct) (code : Nat) {body : Bytes} (short : body.length ≤ h.payload.length) :
    (Wire.typed code body).length ≤ c.rest.length := by
  obtain ⟨s, bare, null, payload, room⟩ := meets.bare sound unannotated
  rw [← payload] at short
  calc (Wire.typed code body).length
      = (Wire.header code body.length).length + body.length := List.length_append
    _ ≤ (Wire.header code s.body.length).length + s.body.length :=
        Nat.add_le_add (Wire.headerMono code code short) short
    _ ≤ 1 + s.head.length + s.body.length :=
        Nat.add_le_add_right (bare.header (null.trans something) bool struct code) _
    _ = s.bytes.length := by simp only [Shape.bytes, List.length_cons, List.length_append]; omega
    _ ≤ c.rest.length := room

inductive Atom.Measured : Atom → Prop
  | int (n : Int) : Measured (.int n)
  | decimal {d : Decimal} (scale : d.scale ≠ Int64.minValue) : Measured (.decimal d)
  | symbol {sid : Nat} (fits : sid ≤ Sid.last) : Measured (.symbol sid)

theorem Atom.Measured.type {a : Atom} (measured : a.Measured) : a.type ≠ .bool ∧ a.type ≠ .struct := by
  cases measured <;> simp [Atom.type]

namespace Reader

variable {r r' : Reader} {symbols : SymbolTable} {c : Cursor}

theorem plainType {type : ValueType} {a : Atom} (read : plain type r = .ok a r') : a.type = type := by
  cases type with
  | null | symbol | list | sexp | struct => contradiction
  | bool | int | float | decimal | timestamp | string | clob | blob =>
    obtain ⟨_, _, _, read⟩ := bindOk read
    cases read
    rfl

theorem Reads.longer {a : Atom} (measured : a.Measured) (ahead : r.Ahead c) (top : r.scope = none)
    (reads : r.Reads [(symbols, .atom none [] a)] r') :
    ∃ bytes, a.encode? = .ok bytes ∧ bytes.length ≤ c.rest.length := by
  cases reads with
  | null found nothing bears more => cases measured
  | plain found something bears read more =>
    obtain ⟨h, rfl, -, unannotated, meets, stands, -⟩ := ahead.shows found bears
    rw [top] at meets
    rw [nullOn stands] at something
    have type := plainType read
    obtain ⟨bool, struct⟩ := measured.type
    rw [type] at bool struct
    rw [← type] at read
    cases measured with
    | int n =>
      obtain ⟨m, r1, asked, read⟩ := bindOk read
      cases read
      obtain ⟨s, -, decoded, got, -⟩ := gettingStands stands asked
      rw [Header.scalar, ← type] at decoded
      exact ⟨_, rfl, meets.longer ahead.sound unannotated something bool struct _
        (Payload.intShortest decoded got)⟩
    | @decimal d scale =>
      obtain ⟨m, r1, asked, read⟩ := bindOk read
      cases read
      obtain ⟨s, -, decoded, got, -⟩ := gettingStands stands asked
      rw [Header.scalar, ← type] at decoded
      cases said : Payload.decimal h.payload with
      | error e => simp [Atom.type, said, Except.map] at decoded
      | ok d' =>
        simp only [Atom.type, said, Except.map, Except.ok.injEq] at decoded
        subst decoded
        cases got
        exact ⟨_, Wire.decimalWritten scale, meets.longer ahead.sound unannotated something bool struct _
          (Payload.decimalShortest said)⟩
    | symbol => contradiction
  | symbol found something bears read more =>
    obtain ⟨h, -, -, unannotated, meets, stands, -⟩ := ahead.shows found bears
    rw [top] at meets
    rw [nullOn stands] at something
    obtain ⟨h', asked, said⟩ := symbolDecodes read
    obtain ⟨rfl, admitted, -⟩ := headerStands stands asked
    have type : ValueType.symbol = h'.type := by simpa [Expectation.admits] using admitted
    obtain ⟨bool, struct⟩ := measured.type
    rw [Atom.type, type] at bool struct
    exact ⟨_, rfl, meets.longer ahead.sound unannotated something bool struct _
      (Payload.symbolShortest said)⟩

end Reader

namespace Atom

def alone (a : Atom) : Tree := .atom none [] a

theorem Measured.wellFormed {a : Atom} (measured : a.Measured) : a.WellFormed := by
  cases measured with
  | int => trivial
  | decimal scale => exact scale
  | symbol fits => exact fits

theorem WellFormed.alone {a : Atom} (formed : a.WellFormed) : Tree.WellFormedAll false [a.alone] :=
  ⟨⟨⟨rfl, Nat.zero_le _, nofun, nofun⟩, formed⟩, trivial⟩

theorem encodeAlone {a : Atom} {bytes : Bytes} (encoded : a.encode? = .ok bytes) :
    Tree.encodeAll? [a.alone] = .ok bytes := by
  have tree : a.alone.encode? = .ok bytes := by
    rw [alone, Tree.encode?, encoded]
    rfl
  have all := Bytes.eachFirst tree (show Bytes.each Tree.encode? [] = .ok [] from rfl)
  rwa [List.append_nil, ← Tree.encodeAllEach] at all

end Atom

def Wire.word (n : Int64) : Bytes :=
  let magnitude := n.toInt.natAbs
  let length := Bytes.shortestLength magnitude
  if n = 0 then [descriptor ValueType.int.code 0]
  else descriptor (intCode n.toInt) length :: Bytes.be length magnitude

theorem Wire.wordTyped (n : Int64) :
    word n = typed (intCode n.toInt) (Bytes.shortest n.toInt.natAbs) := by
  have low := n.le_toInt
  have high := n.toInt_lt
  have short : Bytes.shortestLength n.toInt.natAbs ≤ 8 := Bytes.shortestLengthIff.mpr (by omega)
  have limit : shortLength = 13 := rfl
  rw [typed, header, Bytes.lengthShortest, if_pos (by omega), word]
  split
  · rename_i zero
    subst zero
    rw [show (0 : Int64).toInt = 0 from rfl, Int.natAbs_zero, Bytes.shortest, if_pos rfl]
    rfl
  · rw [Bytes.beShortest]
    rfl

/-- The writer's form of an integer, a decimal or a symbol, which for integers of 64 bits is the one that is
computed from the word, reads as the value, and no string that a reader shows as just this value is
shorter. -/
theorem shortestWritten {a : Atom} (measured : a.Measured) (blockSize : Nat) :
    let w := Calls.after SidWriter.perform (.empty blockSize) [.write a]
    ∃ bytes, Calls.replies SidWriter.perform (.empty blockSize) [.write a] = [.done] ∧
      (w.perform (.flush (.empty none false))).1 = .flushed bytes.length ⟨none, false, bytes⟩ ∧
      (∀ n : Int64, a = .int n.toInt → Wire.word n = bytes) ∧
      (∀ catalog, (versionMarker ++ bytes).length < 2 ^ 64 → ∃ r r',
        Reader.of catalog (versionMarker ++ bytes) = .ok r ∧ r.Reads [(.system, .atom none [] a)] r') ∧
      ∀ catalog raw symbols r r', Reader.of catalog (versionMarker ++ raw) = .ok r →
        r.Reads [(symbols, .atom none [] a)] r' → bytes.length ≤ raw.length := by
  intro w
  obtain ⟨bytes, encoded⟩ := measured.wellFormed.encodes
  have formed := measured.wellFormed.alone
  have all := Atom.encodeAlone encoded
  have written : Tree.Written false [a.alone] ([] ++ [.write a]) := .atom rfl .nothing
  obtain ⟨done, flushed⟩ := Tree.sends formed all blockSize [.write a] written
  refine ⟨bytes, ?_, flushed, ?_, fun catalog fits => ?_, ?_⟩
  · exact congrArg (fun reply => [reply]) (done _ List.mem_cons_self)
  · rintro n rfl
    rw [Wire.wordTyped]
    exact Except.ok.inj encoded
  · exact Tree.readBack catalog formed (by simp [Atom.alone, Tree.isTable]) all fits
  · intro catalog raw symbols r r' opened reads
    let data := versionMarker ++ raw
    have opens : Reader.of catalog data = .ok ⟨catalog, .system, [], .before (.ofBytes data)⟩ := if_pos rfl
    cases opens.symm.trans opened
    -- behind the version marker only `raw` is ahead
    have begins := Cursor.ofBytesSound data
    have skip := Reader.advanceSame (r := ⟨catalog, .system, [], .before (.ofBytes data)⟩) rfl
      (markerNext begins rfl catalog .system)
    have sound : (Cursor.advance versionMarker.length (.ofBytes data)).Sound := begins.behind rfl
    obtain ⟨bytes', encoded', longer⟩ :=
      (reads.from skip.symm).longer measured (Reader.aheadBefore rfl sound) rfl
    cases encoded.symm.trans encoded'
    exact longer

theorem shortestSignedDecimal :
    let d : Decimal := ⟨-0x800000000000000000000000, 1⟩
    let bytes : Bytes := [0x5E, 0x8E, 0xC1, 0x80, 0x80] ++ List.replicate 11 0
    d.scale ≠ Int64.minValue ∧
      ((Calls.after SidWriter.perform (.empty 16) [.write (.decimal d)]).perform
        (.flush (.empty none false))).1 = .flushed 16 ⟨none, false, bytes⟩ ∧
      (∃ r r', Reader.of .empty (versionMarker ++ bytes) = .ok r ∧
        r.Reads [(.system, .atom none [] (.decimal d))] r') ∧
      ∀ catalog raw symbols r r', Reader.of catalog (versionMarker ++ raw) = .ok r →
        r.Reads [(symbols, .atom none [] (.decimal d))] r' → 16 ≤ raw.length := by
  intro d bytes
  have scale : d.scale ≠ Int64.minValue := by decide
  obtain ⟨written, -, flushed, -, reads, shortest⟩ := shortestWritten (.decimal scale) 16
  have sent : ((Calls.after SidWriter.perform (.empty 16) [.write (.decimal d)]).perform
      (.flush (.empty none false))).1 = .flushed 16 ⟨none, false, bytes⟩ := by decide +kernel
  simp only [sent, Reply.flushed.injEq, Sink.mk.injEq, true_and] at flushed
  obtain ⟨length, rfl⟩ := flushed
  refine ⟨scale, sent, reads .empty (by decide), fun catalog raw symbols r r' opened alone => ?_⟩
  rw [length]
  exact shortest catalog raw symbols r r' opened alone

-- The least number of 64 bits has a magnitude of eight bytes.
example : Wire.word Int64.minValue = 0x38 :: 0x80 :: List.replicate 7 0 := by decide +kernel

end Ion

import Ion.Proofs.Queries

/-! Integers as a reader decodes them. Short bodies go through a machine word and long ones do not, yet the
value alone decides which form is kept, and every getter answers by the size that is reported. -/
namespace Ion

def IntegerSize.of (n : Int) : IntegerSize :=
  if -0x80000000 ≤ n ∧ n < 0x80000000 then .int
  else if -0x8000000000000000 ≤ n ∧ n < 0x8000000000000000 then .long
  else .big

inductive IntegerCall
  | size
  | int
  | long
  | integer
  deriving DecidableEq, Repr

namespace IntegerCall

def query : IntegerCall → Reader.Query
  | size => .call .integerSize
  | int => .call .int
  | long => .call .long
  | integer => .call .integer

def answer (negative : Bool) (magnitude : Nat) (call : IntegerCall) : Reader.Answer :=
  let n := Payload.signed negative magnitude
  if negative ∧ magnitude = 0 then .failed .negativeZero
  else
    match call with
    | size => .size (.of n)
    | int => if IntegerSize.of n = .int then .scalar (.int (Int32.ofInt n)) else .failed .numericOverflow
    | long => if IntegerSize.of n = .big then .failed .numericOverflow else .scalar (.long (Int64.ofInt n))
    | integer => .scalar (.big n)

end IntegerCall

namespace IntegerSize

variable {n : Int}

theorem ofInt : of n = .int ↔ -0x80000000 ≤ n ∧ n < 0x80000000 := by
  unfold of
  split
  · simp_all
  · split <;> simp_all

theorem ofBig : of n = .big ↔ ¬(-0x8000000000000000 ≤ n ∧ n < 0x8000000000000000) := by
  unfold of
  split
  · simp
    omega
  · split <;> simp_all

theorem ofLong (wide : of n ≠ .int) (fits : of n ≠ .big) : of n = .long := by
  unfold of at *
  split at * <;> simp_all

theorem intExact (small : of n = .int) : (Int32.ofInt n).toInt = n := by
  have range := ofInt.mp small
  exact Int32.toInt_ofInt_of_le (by omega) (by omega)

theorem longExact (fits : of n ≠ .big) : (Int64.ofInt n).toInt = n := by
  have range := mt ofBig.mpr fits
  exact Int64.toInt_ofInt_of_le (by omega) (by omega)

end IntegerSize

theorem int32Fits (n : Int) : int32? n = if IntegerSize.of n = .int then some (Int32.ofInt n) else none := by
  simp only [int32?, IntegerSize.ofInt]

theorem int64Fits (n : Int) : int64? n = if IntegerSize.of n = .big then none else some (Int64.ofInt n) := by
  simp only [int64?, IntegerSize.ofBig, ite_not]

theorem sizeOfScalar (n : Int) : Variant.integerSize (some (.integer n)) = .of n := by
  rw [Scalar.integer, int32Fits, int64Fits]
  by_cases small : IntegerSize.of n = .int
  · rw [if_pos small, small]
    rfl
  · rw [if_neg small]
    by_cases large : IntegerSize.of n = .big
    · rw [if_pos large, large]
      rfl
    · rw [if_neg large, IntegerSize.ofLong small large]
      rfl

theorem Payload.intValue (negative : Bool) (raw : Bytes) :
    int negative raw =
      if negative ∧ Bytes.value raw = 0 then .error .negativeZero
      else .ok (.integer (signed negative (Bytes.value raw))) := by
  rw [int, Bytes.intMagnitudeValue]

namespace IntegerCall

open Reader

variable {r : Reader} {data : Bytes} {h : Header}

theorem still (call : IntegerCall) : call.query.Still := by
  cases call <;> exact ⟨nofun, nofun, nofun⟩

section

variable {negative : Bool} {magnitude : Nat}
  (decoded : r.decoded .int =
    if negative ∧ magnitude = 0 then .error .negativeZero
    else .ok (some (.integer (Payload.signed negative magnitude))))
include decoded

theorem getting (answer : α → Answer) (get : Variant → Option α) :
    answered answer (Reader.getting .int get .numericOverflow) r =
      if negative ∧ magnitude = 0 then .failed .negativeZero
      else
        match get (some (.integer (Payload.signed negative magnitude))) with
        | some a => answer a
        | none => .failed .numericOverflow := by
  rw [answered, gettingRuns, decoded]
  by_cases zero : negative ∧ magnitude = 0
  · rw [if_pos zero, if_pos zero]
  · rw [if_neg zero, if_neg zero]
    dsimp only
    cases get (some (.integer (Payload.signed negative magnitude))) <;> rfl

theorem replies (asks : r.currentType? = some .int ∧ r.currentIsNull = false) (call : IntegerCall) :
    r.reply call.query = call.answer negative magnitude := by
  have whole := Payload.integerOfScalar (Payload.signed negative magnitude)
  cases call with
  | size =>
    rw [query, Reader.reply, answered, integerSizeRuns, if_pos asks, decoded, answer]
    by_cases zero : negative ∧ magnitude = 0
    · rw [if_pos zero, if_pos zero]
    · rw [if_neg zero, if_neg zero]
      exact congrArg Answer.size (sizeOfScalar _)
  | int =>
    refine (getting decoded _ Variant.int?).trans ?_
    rw [Variant.int?, whole, Option.bind_some, int32Fits]
    by_cases small : IntegerSize.of (Payload.signed negative magnitude) = .int
    · simp only [answer, if_pos small]
    · simp only [answer, if_neg small]
  | long =>
    refine (getting decoded _ Variant.long?).trans ?_
    rw [Variant.long?, whole, Option.bind_some, int64Fits]
    by_cases large : IntegerSize.of (Payload.signed negative magnitude) = .big
    · simp only [answer, if_pos large]
    · simp only [answer, if_neg large]
  | integer =>
    refine (getting decoded _ Variant.integer?).trans ?_
    rw [whole]
    rfl

end

theorem reply (call : IntegerCall) (sited : r.Sited data) (current : r.current? = some h)
    (type : h.type = .int) (something : h.isNull = false) :
    r.reply call.query = call.answer (highNibble h.descriptor == negativeCode) (Bytes.value h.payload) := by
  have scalar : h.scalar = Payload.int (highNibble h.descriptor == negativeCode) h.payload := by
    rw [Header.scalar, type]
  have decoded := decodedNow sited current something
  rw [type, scalar, Payload.intValue, apply_ite (Except.map some)] at decoded
  refine replies decoded ?_ call
  simp [currentType?, currentIsNull, current, type, something]

theorem answers (calls : List IntegerCall) (sited : r.Sited data) (current : r.current? = some h)
    (type : h.type = .int) (something : h.isNull = false) :
    Dialogue.answers Reader.ask r (calls.map query) =
      calls.map (answer (highNibble h.descriptor == negativeCode) (Bytes.value h.payload)) := by
  induction calls generalizing r with
  | nil => rfl
  | cons call rest ih =>
    -- a call keeps at most what it decoded, and that is what it would decode again
    have first := (askAnswer r call.query).trans (reply call sited current type something)
    have later := ih (askSited sited call.query) (stillCurrent call.still current)
    exact congr (congrArg List.cons first) later

end IntegerCall

theorem Shape.Stands.nextTop {s : Shape} {type : ValueType} (stands : s.Stands type) {c : Cursor}
    {more : Bytes} (sound : c.Sound) (ahead : c.rest = s.bytes ++ more) (catalog : Catalog)
    (symbols : SymbolTable) :
    ∃ h, Ion.nextTop catalog symbols c = (symbols, .value h) ∧
      h.Found s type none [] (c.advance 1) (s.head.length + s.body.length) more := by
  obtain ⟨value, rest⟩ := Cursor.behindByte sound ahead
  obtain ⟨h, found, shown⟩ := stands.value value (rest.trans (List.append_assoc ..)) none c.pos none []
  refine ⟨h, ?_, shown⟩
  have unnamed : Scan.fieldName none c = .ok none c := rfl
  have item : Scan.item none c = .ok (some h) h.start := by
    unfold Scan.item
    rw [bindGot, bindRuns unnamed, bindRuns (Scan.byteReads sound ahead),
      if_neg (by rw [stands.content]; decide), if_neg stands.noWrapper, bindRuns found]
    rfl
  have top : Scan.topItem c = .ok (.value h) h.start := by
    unfold Scan.topItem
    rw [bindRuns (Scan.peekReads sound ahead), if_neg stands.noMarker, bindRuns item]
    rfl
  have plain : h.isTable = false := by
    rw [Header.isTable, shown.annotations]
    exact Bool.and_false _
  rw [nextTopScanned top]
  dsimp only
  rw [plain]
  rfl

theorem Reader.meetsInteger (catalog : Catalog) (negative : Bool) {raw : Bytes}
    (formed : ¬(negative = true ∧ raw = [])) (fits : raw.length < 2 ^ 64) :
    let code := if negative then negativeCode else ValueType.int.code
    let r : Reader := ⟨catalog, .system, [], .before (.ofBytes (versionMarker ++ Wire.typed code raw))⟩
    ∃ h, r.ask (.call .next) = (.type (some .int), { r with position := .on h none }) ∧
      h.type = .int ∧ h.isNull = false ∧ (highNibble h.descriptor == negativeCode) = negative ∧
        h.payload = raw := by
  intro code r
  have stands : (Shape.typed code raw).Stands .int := by
    refine Shape.typedStands ?_ (by decide) ?_ (fun minus nothing => ?_) (absurd · (by decide)) fits
    · cases negative <;> rfl
    · cases negative <;> decide
    · cases negative with
      | false => exact absurd minus (by decide)
      | true => exact formed ⟨rfl, nothing⟩
  have begins := Cursor.ofBytesSound (versionMarker ++ Wire.typed code raw)
  have marked : (Cursor.ofBytes (versionMarker ++ Wire.typed code raw)).rest =
      versionMarker ++ (Shape.typed code raw).bytes := by rw [Shape.typedBytes]; rfl
  have ahead := Cursor.advanceRest marked
  rw [← List.append_nil (Shape.typed code raw).bytes] at ahead
  obtain ⟨h, walk, found⟩ := stands.nextTop (begins.behind marked) ahead catalog .system
  rw [← markerNext begins marked catalog .system] at walk
  have nibble := Shape.typedNibble raw
  have small : code < 16 := by cases negative <;> decide
  refine ⟨h, ?_, found.type, ?_, ?_, ?_⟩
  · rw [askNextTop rfl rfl, walk]
    exact congrArg (fun type => (Answer.type (some type), _)) found.type
  · rw [Header.isNull, found.descriptor, Shape.typedDescriptor, lowNibbleDescriptor code (by omega)]
    have mark : nullNibble = 15 := rfl
    simp
    omega
  · rw [found.descriptor, Shape.typedDescriptor, highNibbleDescriptor small (by omega)]
    cases negative <;> rfl
  · rw [found.payload, Shape.typedBody]

theorem Reader.refusesNothingNegative (catalog : Catalog) :
    Reader.reply ⟨catalog, .system, [], .before (.ofBytes (versionMarker ++ Wire.typed negativeCode []))⟩
      (.call .next) = .failed .negativeZero := by
  have begins := Cursor.ofBytesSound (versionMarker ++ Wire.typed negativeCode [])
  have scan : Scan.topItem ⟨4, 5, [0x30]⟩ = .error .negativeZero ⟨5, 5, []⟩ := rfl
  have walk := (markerNext begins rfl catalog .system).trans (nextTopFails (by decide) scan catalog .system)
  rw [← askAnswer, askNextTop rfl rfl, walk]
  rfl

/-- On every integer that a reader comes to, whatever it was asked before and wherever the value stands, all
calls answer by the sign and the value of the body alone: negative zero is refused, and else the size that
is reported says which getters answer, each with the integer itself. The integers have all bodies that
there are. -/
theorem integersAnswerBySize (catalog : Catalog) {data : Bytes} {opened : Reader}
    (opens : Reader.of catalog data = .ok opened) (earlier : List Reader.Query) {h : Header}
    (current : (Dialogue.after Reader.ask opened earlier).current? = some h) (type : h.type = .int)
    (something : h.isNull = false) (calls : List IntegerCall) :
    let negative := highNibble h.descriptor == negativeCode
    let magnitude := Bytes.value h.payload
    Dialogue.answers Reader.ask (Dialogue.after Reader.ask opened earlier) (calls.map (·.query)) =
        calls.map (·.answer negative magnitude) ∧
      (∀ n, (IntegerSize.of n = .int → (Int32.ofInt n).toInt = n) ∧
        (IntegerSize.of n ≠ .big → (Int64.ofInt n).toInt = n)) ∧
      (∀ raw, Bytes.value raw = magnitude → Payload.int negative raw = h.scalar) ∧
      ∀ (negative : Bool) (raw : Bytes), raw.length < 2 ^ 64 →
        let code := if negative then negativeCode else ValueType.int.code
        ∃ r, Reader.of catalog (versionMarker ++ Wire.typed code raw) = .ok r ∧
          if negative ∧ raw = [] then r.reply (.call .next) = .failed .negativeZero
          else
            Dialogue.answers Reader.ask r (.call .next :: calls.map (·.query)) =
              .type (some .int) :: calls.map (·.answer negative (Bytes.value raw)) := by
  intro negative magnitude
  have sited := Reader.reachedSited opens earlier
  refine ⟨IntegerCall.answers calls sited current type something, fun n => ?_, fun raw same => ?_, ?_⟩
  · exact ⟨IntegerSize.intExact, IntegerSize.longExact⟩
  · rw [Header.scalar, type, Payload.intValue, Payload.intValue, same]
  · intro negative raw fits code
    let r : Reader := ⟨catalog, .system, [], .before (.ofBytes (versionMarker ++ Wire.typed code raw))⟩
    refine ⟨r, if_pos rfl, ?_⟩
    by_cases nothing : negative = true ∧ raw = []
    · rw [if_pos nothing]
      obtain ⟨rfl, rfl⟩ := nothing
      exact Reader.refusesNothingNegative catalog
    · rw [if_neg nothing]
      obtain ⟨h, met, type, something, sign, body⟩ := Reader.meetsInteger catalog negative nothing fits
      have sited : r.Sited (versionMarker ++ Wire.typed code raw) := .before .start .top
      have on := Reader.askSited sited (.call .next)
      rw [met] at on
      have answers := IntegerCall.answers calls on rfl type something
      rw [sign, body] at answers
      rw [Dialogue.answers, met, answers]

theorem paddedLeastLongAnswers :
    let data : Bytes := versionMarker ++ [0xBA, 0x39, 0, 0x80, 0, 0, 0, 0, 0, 0, 0]
    let earlier : List Reader.Query := [.call .next, .call .int, .call .stepIn, .call .next, .call .int]
    ∃ opened h, Reader.of .empty data = .ok opened ∧
      (Dialogue.after Reader.ask opened earlier).current? = some h ∧ h.type = .int ∧ h.isNull = false ∧
        h.payload = [0, 0x80, 0, 0, 0, 0, 0, 0, 0] ∧
        Dialogue.answers Reader.ask (Dialogue.after Reader.ask opened earlier)
            [.call .integer, .call .int, .call .integerSize, .call .long] =
          [.scalar (.big (-0x8000000000000000)), .failed .numericOverflow, .size .long,
            .scalar (.long Int64.minValue)] := by
  intro data earlier
  let opened : Reader := ⟨.empty, .system, [], .before (.ofBytes data)⟩
  let h : Header := ⟨0x39, .int, none, [], ⟨6, 15, [0, 0x80, 0, 0, 0, 0, 0, 0, 0]⟩, 9⟩
  have current : (Dialogue.after Reader.ask opened earlier).current? = some h := by decide +kernel
  have opens : Reader.of .empty data = .ok opened := if_pos rfl
  obtain ⟨answers, -⟩ := integersAnswerBySize .empty opens earlier current rfl (by decide)
    [.integer, .int, .size, .long]
  exact ⟨opened, h, opens, current, rfl, by decide, by decide, answers.trans (by decide +kernel)⟩

end Ion

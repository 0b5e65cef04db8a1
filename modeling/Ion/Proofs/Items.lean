import Ion.Proofs.Bodies
import Ion.Proofs.Encoding

/-! Written values as a reader meets them: the header of each is found again, with its name and its
annotations, and the cursor behind it stands on what was written next. -/
namespace Ion

theorem highNibbleDescriptor {code nibble : Nat} (first : code < 16) (second : nibble < 16) :
    highNibble (descriptor code nibble) = code := by
  rw [highNibble, descriptor, UInt8.toNat_ofNat']
  omega

theorem lowNibbleDescriptor (code : Nat) {nibble : Nat} (second : nibble < 16) :
    lowNibble (descriptor code nibble) = nibble := by
  rw [lowNibble, descriptor, UInt8.toNat_ofNat']
  omega

theorem ValueType.ofCodeSmall {code : Nat} {type : ValueType} (known : ofCode? code = some type) :
    code < 14 := by
  by_cases small : code < 14
  · exact small
  · obtain ⟨k, rfl⟩ : ∃ k, code = 14 + k := ⟨code - 14, by omega⟩
    rw [Nat.add_comm] at known
    simp [ofCode?] at known

namespace Shape

structure Stands (s : Shape) (type : ValueType) : Prop where
  known : ValueType.ofCode? (highNibble s.descriptor) = some type
  content : isPadding s.descriptor = false
  length : ∀ more, Scan.Takes (Scan.valueLength type s.descriptor) s.head (s.body ++ more)
    s.body.length

theorem takesBodyLength (code : Nat) {body : Bytes} (fits : body.length < 2 ^ 64) (more : Bytes) :
    Scan.Takes (Scan.bodyLength (if body.length ≤ Wire.shortLength then body.length else longLength))
      (typed code body).head more body.length := by
  unfold typed
  split
  · rename_i short
    have short : body.length ≤ 13 := short
    rw [Scan.bodyLength, if_neg (by rw [longLength]; omega)]
    exact Scan.takesPure body.length more
  · exact Scan.takesVarUInt fits more

theorem typedDescriptor (code : Nat) (body : Bytes) :
    (typed code body).descriptor =
      Ion.descriptor code (if body.length ≤ Wire.shortLength then body.length else longLength) := by
  unfold typed
  split <;> rfl

theorem typedNibble (body : Bytes) :
    (if body.length ≤ Wire.shortLength then body.length else longLength) < 15 := by
  have limit : Wire.shortLength = 13 := rfl
  have mark : longLength = 14 := rfl
  split <;> omega

theorem typedStands {code : Nat} {type : ValueType} {body : Bytes}
    (known : ValueType.ofCode? code = some type) (bool : type ≠ .bool) (null : code ≠ 0)
    (negative : code = negativeCode → body ≠ []) (struct : type = .struct → body.length ≠ 1)
    (fits : body.length < 2 ^ 64) : (typed code body).Stands type := by
  have small := ValueType.ofCodeSmall known
  have nibble := typedNibble body
  have high : highNibble (typed code body).descriptor = code := by
    rw [typedDescriptor, highNibbleDescriptor (by omega) (by omega)]
  have low : lowNibble (typed code body).descriptor =
      if body.length ≤ Wire.shortLength then body.length else longLength := by
    rw [typedDescriptor, lowNibbleDescriptor code (by omega)]
  refine ⟨by rw [high]; exact known, ?_, ?_⟩
  · simp [isPadding, high, null]
  · intro more
    have ordinary := takesBodyLength code fits ((typed code body).body ++ more)
    rw [typedBody] at ordinary ⊢
    unfold Scan.valueLength
    rw [low, high]
    dsimp only
    rw [if_neg (by rw [nullNibble]; omega)]
    cases type with
    | bool => exact absurd rfl bool
    | int =>
      dsimp only
      rw [if_neg]
      · exact ordinary
      · rintro ⟨minus, nothing⟩
        have longer := List.length_pos_iff.mpr (negative minus)
        split at nothing
        · omega
        · exact absurd nothing (by decide)
    | struct =>
      dsimp only
      rw [if_neg]
      · exact ordinary
      · intro one
        split at one
        · exact struct rfl one
        · exact absurd one (by decide)
    | null | float | decimal | timestamp | symbol | string | clob | blob | list | sexp =>
      exact ordinary

theorem plainStands {type : ValueType} {body : Bytes}
    (plain : type ≠ .null ∧ type ≠ .bool ∧ type ≠ .struct) (fits : body.length < 2 ^ 64) :
    (typed type.code body).Stands type := by
  refine typedStands (ValueType.ofCodeCode type) plain.2.1 ?_ ?_ (absurd · plain.2.2) fits
  · intro zero
    cases type <;> simp [ValueType.code] at zero plain
  · intro minus
    cases type <;> simp [ValueType.code, negativeCode] at minus

theorem nullStands (type : ValueType) : (single type.nullByte).Stands type := by
  have small := ValueType.ofCodeSmall (ValueType.ofCodeCode type)
  have low : lowNibble type.nullByte = nullNibble :=
    lowNibbleDescriptor type.code (by decide)
  refine ⟨?_, ?_, ?_⟩
  · change ValueType.ofCode? (highNibble (Ion.descriptor type.code nullNibble)) = some type
    rw [highNibbleDescriptor (by omega) (by decide), ValueType.ofCodeCode]
  · simp [isPadding, single, low]
  · intro more
    unfold Scan.valueLength
    dsimp only
    rw [single, if_pos low]
    exact Scan.takesPure 0 more

theorem boolStands (b : Bool) :
    (single (Ion.descriptor ValueType.bool.code b.toNat)).Stands .bool := by
  cases b <;> exact ⟨rfl, rfl, fun more => Scan.takesPure 0 more⟩

end Shape

theorem Atom.shapeStands {a : Atom} {s : Shape} (shape : a.shape? = .ok s)
    (fits : s.body.length < 2 ^ 64) : s.Stands a.type := by
  cases a with
  | null type =>
    cases shape
    exact Shape.nullStands type
  | bool b =>
    cases shape
    exact Shape.boolStands b
  | int n =>
    cases shape
    rw [Shape.typedBody] at fits
    by_cases negative : n < 0
    · have code : Wire.intCode n = negativeCode := if_pos negative
      have int : (int n).type = .int := rfl
      rw [code, int]
      refine Shape.typedStands rfl (by decide) (by decide) (fun _ nothing => ?_) (absurd · (by decide))
        fits
      have value := Bytes.valueShortest n.natAbs
      rw [nothing] at value
      have zero : n.natAbs = 0 := value.symm
      omega
    · have code : Wire.intCode n = ValueType.int.code := if_neg negative
      rw [code]
      exact Shape.plainStands (by decide) fits
  | decimal d =>
    simp only [shape?] at shape
    split at shape
    · contradiction
    · split at shape <;> cases shape <;> rw [Shape.typedBody] at fits <;>
        exact Shape.plainStands (by decide) fits
  | float | timestamp | symbol | string | clob | blob =>
    cases shape
    rw [Shape.typedBody] at fits
    exact Shape.plainStands (by decide) fits

theorem Cursor.behindByte {c : Cursor} {b : UInt8} {more : Bytes} (sound : c.Sound)
    (ahead : c.rest = b :: more) : (c.advance 1).Sound ∧ (c.advance 1).rest = more := by
  have split : c.rest = [b] ++ more := ahead
  exact ⟨sound.behind split, advanceRest split⟩

theorem Cursor.advancePos (c : Cursor) (n : Nat) : (c.advance n).pos = c.pos + n := rfl

namespace Scan

theorem requireMet {condition : Prop} [Decidable condition] (met : condition) (e : IonError)
    (c : Cursor) : require condition e c = .ok () c := by
  rw [require, if_pos met]
  rfl

theorem withinMet {c : Cursor} {raw more : Bytes} (sound : c.Sound) (ahead : c.rest = raw ++ more)
    (scope : Option Container) (offset : Nat) : within scope offset raw.length c = .ok () c :=
  if_pos (sound.room ahead)

theorem byteReads {c : Cursor} {b : UInt8} {more : Bytes} (sound : c.Sound)
    (ahead : c.rest = b :: more) : lift Cursor.u8 c = .ok b (c.advance 1) :=
  takesByte b more c sound ahead

theorem takesSid {n : Nat} (fits : n ≤ Sid.last) (more : Bytes) :
    Takes sid (VarUInt.encode n) more n := by
  refine (takesVarUInt (Nat.lt_of_le_of_lt fits (by decide)) more).onto ?_
  rw [if_pos fits]
  exact takesPure n more

theorem sidsUntilReads {sids : List Nat} {c : Cursor} {more : Bytes}
    (fit : ∀ sid ∈ sids, sid ≤ Sid.last) (sound : c.Sound)
    (ahead : c.rest = sids.flatMap VarUInt.encode ++ more) :
    sidsUntil (c.pos + (sids.flatMap VarUInt.encode).length) c =
      .ok sids (c.advance (sids.flatMap VarUInt.encode).length) := by
  induction sids generalizing c with
  | nil =>
    rw [sidsUntil, if_neg (by simp), List.flatMap_nil, List.length_nil, Cursor.advanceNothing]
  | cons sid rest ih =>
    rw [List.flatMap_cons, List.append_assoc] at ahead
    have used := VarUInt.encodeNotEmpty sid
    have first := takesSid (fit sid List.mem_cons_self) _ c sound ahead
    have later := ih (fun n mem => fit n (List.mem_cons_of_mem sid mem)) (sound.behind ahead)
      (Cursor.advanceRest ahead)
    have stop : c.pos + (VarUInt.encode sid ++ rest.flatMap VarUInt.encode).length =
        (c.advance (VarUInt.encode sid).length).pos + (rest.flatMap VarUInt.encode).length := by
      simp only [Cursor.advance, List.length_append, Nat.add_assoc]
    rw [List.flatMap_cons, sidsUntil, if_pos (by simp only [List.length_append]; omega)]
    split
    · rename_i failed
      rw [first] at failed
      contradiction
    · rename_i ok
      rw [first] at ok
      cases ok
      rw [stop, later, List.length_append, Cursor.advanceAdvance]

theorem annotationsReads {sids : List Nat} {c : Cursor} {more : Bytes} {stop : Nat}
    (nonempty : sids ≠ []) (fit : ∀ sid ∈ sids, sid ≤ Sid.last) (sound : c.Sound)
    (ahead : c.rest = Tree.annotationBytes sids ++ more)
    (room : c.pos + (Tree.annotationBytes sids).length ≤ stop)
    (fits : (Tree.annotationBytes sids).length < 2 ^ 64)
    (scope : Option Container) (offset : Nat) :
    annotations scope offset stop c = .ok sids (c.advance (Tree.annotationBytes sids).length) := by
  unfold Tree.annotationBytes at ahead room fits ⊢
  generalize known : sids.flatMap VarUInt.encode = raw at ahead room fits ⊢
  rw [List.append_assoc] at ahead
  rw [List.length_append] at room fits
  have positive : 0 < raw.length := by
    obtain ⟨sid, rest, rfl⟩ := List.exists_cons_of_ne_nil nonempty
    have first := VarUInt.encodeNotEmpty sid
    rw [← known, List.flatMap_cons, List.length_append]
    omega
  have counted := takesVarUInt (n := raw.length) (by omega) (raw ++ more) c sound ahead
  have inner := sound.behind ahead
  have rest := Cursor.advanceRest ahead
  have listed : (c.advance (VarUInt.encode raw.length).length).rest =
      sids.flatMap VarUInt.encode ++ more := by
    rw [known]
    exact rest
  have read := sidsUntilReads fit inner listed
  rw [known] at read
  have stops : 0 < raw.length ∧ (c.advance (VarUInt.encode raw.length).length).pos + raw.length ≤
      stop := ⟨positive, by simp only [Cursor.advance]; omega⟩
  unfold annotations
  rw [bindRuns counted, bindRuns (withinMet inner rest scope offset), bindGot, bindRuns (requireMet stops _ _),
    bindRuns read, bindGot, bindRuns (requireMet (Cursor.advancePos _ _) _ _), List.length_append,
    Cursor.advanceAdvance]
  rfl

end Scan

structure Header.Found (h : Header) (s : Shape) (type : ValueType) (field : Option Nat)
    (sids : List Nat) (c : Cursor) (size : Nat) (more : Bytes) : Prop where
  descriptor : h.descriptor = s.descriptor
  type : h.type = type
  field : h.field = field
  annotations : h.annotations = sids
  length : h.length = s.body.length
  sound : h.start.Sound
  ahead : h.start.rest = s.body ++ more
  after : h.after = c.advance size

namespace Shape.Stands

variable {s : Shape} {type : ValueType}

theorem noWrapper (stands : s.Stands type) : highNibble s.descriptor ≠ wrapperCode := by
  intro wrapper
  have known := stands.known
  rw [wrapper] at known
  exact absurd known (by simp [ValueType.ofCode?, wrapperCode])

theorem noMarker (stands : s.Stands type) : s.descriptor ≠ 0xE0 := by
  intro marker
  have wrapper := stands.noWrapper
  rw [marker] at wrapper
  exact wrapper (by decide)

theorem value (stands : s.Stands type) {c : Cursor} {more : Bytes} (sound : c.Sound)
    (ahead : c.rest = s.head ++ (s.body ++ more)) (scope : Option Container) (offset : Nat)
    (field : Option Nat) (sids : List Nat) :
    ∃ h, Scan.value scope offset field sids s.descriptor c = .ok h h.start ∧
      h.Found s type field sids c (s.head.length + s.body.length) more := by
  have inner := sound.behind ahead
  have rest := Cursor.advanceRest ahead
  refine ⟨⟨s.descriptor, type, field, sids, c.advance s.head.length, s.body.length⟩, ?_,
    rfl, rfl, rfl, rfl, rfl, inner, rest, Cursor.advanceAdvance _ _ _⟩
  unfold Scan.value
  rw [stands.known]
  dsimp only
  rw [bindRuns (stands.length more c sound ahead), bindRuns (Scan.withinMet inner rest scope offset),
    bindGot]
  rfl

theorem wrapped (stands : s.Stands type) {sids : List Nat} (nonempty : sids ≠ [])
    (fit : ∀ sid ∈ sids, sid ≤ Sid.last) {wrapper : Shape}
    (whole : wrapper = .typed wrapperCode (Tree.annotationBytes sids ++ s.bytes))
    (fits : wrapper.body.length < 2 ^ 64) {c : Cursor} {more : Bytes} (sound : c.Sound)
    (ahead : c.rest = wrapper.head ++ (wrapper.body ++ more)) (scope : Option Container)
    (offset : Nat) (field : Option Nat) :
    ∃ h, Scan.wrapped scope offset field wrapper.descriptor c = .ok h h.start ∧
      h.Found s type field sids c (wrapper.head.length + wrapper.body.length) more := by
  have body : wrapper.body = Tree.annotationBytes sids ++ s.bytes := by
    rw [whole, Shape.typedBody]
  have nibble : lowNibble wrapper.descriptor =
      if wrapper.body.length ≤ Wire.shortLength then wrapper.body.length else longLength := by
    have small := typedNibble wrapper.body
    rw [whole, Shape.typedDescriptor, Shape.typedBody, ← body,
      lowNibbleDescriptor wrapperCode (by omega)]
  have bytes : (Tree.annotationBytes sids).length + 1 + (s.head.length + s.body.length) =
      wrapper.body.length := by
    rw [body]
    simp only [List.length_append, Shape.bytes, List.length_cons]
    omega
  have least : 2 ≤ (Tree.annotationBytes sids).length := by
    obtain ⟨sid, rest, rfl⟩ := List.exists_cons_of_ne_nil nonempty
    have first := VarUInt.encodeNotEmpty sid
    have count := VarUInt.encodeNotEmpty ((sid :: rest).flatMap VarUInt.encode).length
    simp only [Tree.annotationBytes, List.length_append, List.flatMap_cons] at count ⊢
    omega
  have nibbles : 3 ≤ lowNibble wrapper.descriptor ∧ lowNibble wrapper.descriptor ≠ nullNibble := by
    have limit : Wire.shortLength = 13 := rfl
    rw [nibble, nullNibble]
    split
    · omega
    · exact ⟨by decide, by decide⟩
  have measured := takesBodyLength wrapperCode fits (wrapper.body ++ more) c sound
    (by rw [body, ← whole, ← body]; exact ahead)
  rw [← nibble, body, ← whole, ← body] at measured
  have inner := sound.behind ahead
  have rest := Cursor.advanceRest ahead
  have within := Scan.withinMet inner rest scope offset
  rw [body, List.append_assoc] at rest
  have room : (c.advance wrapper.head.length).pos + (Tree.annotationBytes sids).length ≤
      (c.advance wrapper.head.length).pos + wrapper.body.length := by omega
  have named := Scan.annotationsReads nonempty fit inner rest room (by omega) scope offset
  have behind := Cursor.advanceRest rest
  have first := Scan.byteReads (inner.behind rest) behind
  obtain ⟨value, valueRest⟩ := Cursor.behindByte (inner.behind rest) behind
  have content : highNibble s.descriptor ≠ wrapperCode ∧ ¬isPadding s.descriptor := by
    refine ⟨stands.noWrapper, ?_⟩
    rw [stands.content]
    decide
  obtain ⟨h, found, shown⟩ :=
    stands.value value (valueRest.trans (List.append_assoc ..)) scope offset field sids
  have ends : h.after.pos = (c.advance wrapper.head.length).pos + wrapper.body.length := by
    rw [shown.after]
    simp only [Cursor.advancePos]
    omega
  refine ⟨h, ?_, { shown with after := ?_ }⟩
  · unfold Scan.wrapped
    dsimp only
    rw [bindRuns (Scan.requireMet nibbles _ _), bindRuns measured, bindRuns within, bindGot,
      bindRuns named, bindRuns first, bindRuns (Scan.requireMet content _ _), bindRuns found,
      bindRuns (Scan.requireMet ends _ _)]
    rfl
  · rw [shown.after]
    simp only [Cursor.advanceAdvance]
    congr 1
    omega

end Shape.Stands

namespace Tree

theorem WellFormed.names {member : Bool} {t : Tree} (formed : t.WellFormed member) :
    Named member t.field t.annotations := by
  cases t <;> exact formed.1

theorem wrapNotEmpty (sids : List Nat) (s : Shape) : 0 < (wrap sids s.bytes).length := by
  by_cases bare : sids = []
  · simp [wrap, bare, Shape.bytes]
  · rw [wrapAnnotated s.bytes bare, ← Shape.typedBytes]
    simp [Shape.bytes]

theorem encodedShape {t : Tree} {bytes : Bytes} (written : t.encode? = .ok bytes) :
    ∃ s, t.shape? = .ok s ∧ bytes = fieldBytes t.field ++ wrap t.annotations s.bytes := by
  rw [t.encodeShape] at written
  cases shape : t.shape? with
  | error e => simp [shape, Except.map] at written
  | ok s =>
    simp only [shape, Except.map, Except.ok.injEq] at written
    exact ⟨s, rfl, written.symm⟩

theorem bodyShorter {t : Tree} {s : Shape} {bytes : Bytes} (written : t.encode? = .ok bytes)
    (shape : t.shape? = .ok s) : s.body.length < bytes.length := by
  obtain ⟨s', shape', rfl⟩ := encodedShape written
  rw [shape] at shape'
  cases shape'
  have value : s.body.length < (wrap t.annotations s.bytes).length := by
    by_cases bare : t.annotations = []
    · simp only [wrap, bare, if_true, Shape.bytes, List.length_cons, List.length_append]
      omega
    · rw [wrapAnnotated s.bytes bare, ← Shape.typedBytes]
      simp only [Shape.bytes, Shape.typedBody, List.length_cons, List.length_append]
      omega
  rw [List.length_append]
  omega

theorem structLength {trees : List Tree} {body : Bytes} (formed : WellFormedAll true trees)
    (written : encodeAll? trees = .ok body) : body.length ≠ 1 := by
  cases trees with
  | nil =>
    cases written
    decide
  | cons t rest =>
    rw [encodeAllEach, Bytes.each] at written
    cases first : t.encode? with
    | error e => simp [first, bind, Except.bind] at written
    | ok bytes =>
      cases more : Bytes.each encode? rest with
      | error e => simp [first, more, bind, Except.bind] at written
      | ok raw =>
        simp only [first, more, bind, Except.bind, pure, Except.pure, Except.ok.injEq] at written
        obtain ⟨s, _, split⟩ := encodedShape first
        have value := wrapNotEmpty t.annotations s
        obtain ⟨sid, field⟩ := Option.isSome_iff_exists.mp formed.1.names.named
        have name := VarUInt.encodeNotEmpty sid
        rw [← written, split, field]
        simp only [fieldBytes, List.length_append]
        omega

theorem shapeStands {member : Bool} {t : Tree} {s : Shape} (formed : t.WellFormed member)
    (shape : t.shape? = .ok s) (fits : s.body.length < 2 ^ 64) : s.Stands t.type := by
  cases t with
  | atom field sids a => exact Atom.shapeStands shape fits
  | container field sids kind children =>
    cases written : encodeAll? children with
    | error e => simp [shape?, written, Except.map] at shape
    | ok body =>
      simp only [shape?, written, Except.map, Except.ok.injEq] at shape
      subst shape
      rw [Shape.typedBody] at fits
      have known := ValueType.ofCodeCode kind.type
      cases kind with
      | list | sexp => exact Shape.plainStands (by decide) fits
      | struct =>
        have type : (container field sids .struct children).type = .struct := rfl
        rw [type]
        exact Shape.typedStands known (by decide) (by decide) (absurd · (by decide))
          (fun _ => structLength formed.2 written) fits

end Tree

theorem Scan.takesFieldName {scope : Option Container} {field : Option Nat} {sids : List Nat}
    (named : Tree.Named (scope == some .struct) field sids) (more : Bytes) :
    Takes (fieldName scope) (Tree.fieldBytes field) more field := by
  have presence := named.named
  unfold fieldName
  cases field with
  | none =>
    rw [if_neg (by simpa using presence.symm)]
    exact takesPure none more
  | some sid =>
    rw [if_pos (by simpa using presence.symm)]
    exact (takesSid (named.fieldFits sid rfl) more).onto (takesPure (some sid) more)

theorem Tree.itemFound {scope : Option Container} {t : Tree} {bytes : Bytes}
    (formed : t.WellFormed (scope == some .struct)) (written : t.encode? = .ok bytes)
    (fits : bytes.length < 2 ^ 64) {c : Cursor} {more : Bytes} (sound : c.Sound)
    (ahead : c.rest = bytes ++ more) :
    ∃ s h, t.shape? = .ok s ∧ Scan.item scope c = .ok (some h) h.start ∧
      h.Found s t.type t.field t.annotations c bytes.length more := by
  obtain ⟨s, shape, rfl⟩ := encodedShape written
  rw [List.length_append] at fits ⊢
  rw [List.append_assoc] at ahead
  have named := Scan.takesFieldName formed.names _ c sound ahead
  have inner := sound.behind ahead
  have rest := Cursor.advanceRest ahead
  refine ⟨s, ?_⟩
  by_cases bare : t.annotations = []
  · have whole : wrap t.annotations s.bytes = s.descriptor :: (s.head ++ s.body) := if_pos bare
    rw [whole] at rest fits ⊢
    simp only [List.length_cons, List.length_append] at fits ⊢
    have stands := shapeStands formed shape (by omega)
    have first := Scan.byteReads inner rest
    obtain ⟨value, valueRest⟩ := Cursor.behindByte inner rest
    obtain ⟨h, found, shown⟩ :=
      stands.value value (valueRest.trans (List.append_assoc ..)) scope c.pos t.field []
    refine ⟨h, shape, ?_, { shown with annotations := shown.annotations.trans bare.symm, after := ?_ }⟩
    · unfold Scan.item
      rw [bindGot, bindRuns named, bindRuns first, if_neg (by rw [stands.content]; decide),
        if_neg stands.noWrapper, bindRuns found]
      rfl
    · rw [shown.after]
      simp only [Cursor.advanceAdvance]
      congr 1
      omega
  · obtain ⟨wrapper, made⟩ : ∃ wrapper,
        wrapper = Shape.typed wrapperCode (annotationBytes t.annotations ++ s.bytes) := ⟨_, rfl⟩
    have whole : wrap t.annotations s.bytes = wrapper.descriptor :: (wrapper.head ++ wrapper.body) := by
      rw [wrapAnnotated s.bytes bare, ← Shape.typedBytes, ← made]
      rfl
    rw [whole] at rest fits ⊢
    simp only [List.length_cons, List.length_append] at fits ⊢
    have body : wrapper.body = annotationBytes t.annotations ++ s.bytes := by
      rw [made, Shape.typedBody]
    have less : s.body.length < wrapper.body.length := by
      rw [body]
      simp only [List.length_append, Shape.bytes, List.length_cons]
      omega
    have stands := shapeStands formed shape (by omega)
    have high : highNibble wrapper.descriptor = wrapperCode := by
      have small := Shape.typedNibble (annotationBytes t.annotations ++ s.bytes)
      rw [made, Shape.typedDescriptor, highNibbleDescriptor (by decide) (by omega)]
    have content : isPadding wrapper.descriptor = false := by
      rw [isPadding, high]
      rfl
    have first := Scan.byteReads inner rest
    obtain ⟨value, valueRest⟩ := Cursor.behindByte inner rest
    obtain ⟨h, found, shown⟩ := stands.wrapped bare formed.names.annotationsFit made (by omega)
      value (valueRest.trans (List.append_assoc ..)) scope c.pos t.field
    refine ⟨h, shape, ?_, { shown with after := ?_ }⟩
    · unfold Scan.item
      rw [bindGot, bindRuns named, bindRuns first, if_neg (by rw [content]; decide), if_pos high,
        bindRuns found]
      rfl
    · rw [shown.after]
      simp only [Cursor.advanceAdvance]
      congr 1
      omega

theorem Tree.firstByte {t : Tree} {bytes : Bytes} (formed : t.WellFormed false)
    (written : t.encode? = .ok bytes) (fits : bytes.length < 2 ^ 64) :
    ∃ b rest, bytes = b :: rest ∧ b ≠ 0xE0 := by
  obtain ⟨s, shape, rfl⟩ := encodedShape written
  have unnamed : t.field = none := by simpa using formed.names.named
  rw [unnamed] at fits ⊢
  by_cases bare : t.annotations = []
  · have whole : fieldBytes none ++ wrap t.annotations s.bytes = s.bytes := if_pos bare
    rw [whole] at fits ⊢
    simp only [Shape.bytes, List.length_cons, List.length_append] at fits
    exact ⟨s.descriptor, _, rfl, (shapeStands formed shape (by omega)).noMarker⟩
  · have whole : fieldBytes none ++ wrap t.annotations s.bytes =
        (Shape.typed wrapperCode (annotationBytes t.annotations ++ s.bytes)).bytes := by
      rw [wrapAnnotated s.bytes bare, ← Shape.typedBytes]
      rfl
    refine ⟨_, _, whole, ?_⟩
    intro marker
    have nibble := Shape.typedNibble (annotationBytes t.annotations ++ s.bytes)
    have low := congrArg lowNibble marker
    rw [Shape.typedDescriptor, lowNibbleDescriptor wrapperCode (by omega)] at low
    have zero : lowNibble 0xE0 = 0 := by decide
    rw [zero] at low
    split at low
    · simp [Shape.bytes] at low
    · exact absurd low (by decide)

theorem Shape.typedValue {code : Nat} (body : Bytes) :
    (lowNibble (typed code body).descriptor == nullNibble) = false := by
  have small := typedNibble body
  rw [typedDescriptor, lowNibbleDescriptor code (by omega), beq_eq_false_iff_ne, nullNibble]
  omega

def Atom.isNull : Atom → Bool
  | null _ => true
  | _ => false

def Atom.scalar? : Atom → Option Scalar
  | bool b => some (.bool b)
  | int n => some (.integer n)
  | float f => some (.double f)
  | decimal d => some (.decimal d)
  | timestamp t => some (.timestamp t)
  | string text => some (.string text)
  | null _ | symbol _ | clob _ | blob _ => none

theorem Atom.shapeNull {a : Atom} {s : Shape} (shape : a.shape? = .ok s) :
    (lowNibble s.descriptor == nullNibble) = a.isNull := by
  cases a with
  | null type =>
    cases shape
    rw [Shape.single, ValueType.nullByte, lowNibbleDescriptor type.code (by decide)]
    rfl
  | bool b =>
    cases shape
    cases b <;> rfl
  | decimal d =>
    simp only [shape?] at shape
    split at shape
    · contradiction
    · split at shape <;> cases shape <;> exact Shape.typedValue _
  | int | float | timestamp | symbol | string | clob | blob =>
    cases shape
    exact Shape.typedValue _

namespace Header.Found

variable {h : Header} {s : Shape} {type : ValueType} {field : Option Nat} {sids : List Nat}
  {c : Cursor} {size : Nat} {more : Bytes}

theorem payload (found : h.Found s type field sids c size more) : h.payload = s.body := by
  simp [Header.payload, Header.body, Cursor.part, found.ahead, found.length]

theorem inner (found : h.Found s type field sids c size more) : h.body.Sound := by
  have room := found.sound.room found.ahead
  rw [← found.length] at room
  exact Cursor.partSound found.sound room

theorem behind (found : h.Found s type field sids c size more) :
    h.after.Sound ∧ h.after.rest = more := by
  have sound := found.sound.behind found.ahead
  have rest := Cursor.advanceRest found.ahead
  rw [← found.length] at sound rest
  exact ⟨sound, rest⟩

theorem highInt {n : Int} (found : h.Found (.typed (Wire.intCode n) (Bytes.shortest n.natAbs)) type
    field sids c size more) : (highNibble h.descriptor == negativeCode) = decide (n < 0) := by
  have small := Shape.typedNibble (Bytes.shortest n.natAbs)
  rw [found.descriptor, Shape.typedDescriptor]
  by_cases negative : n < 0
  · rw [Wire.intCode, if_pos negative, highNibbleDescriptor (by decide) (by omega),
      decide_eq_true negative]
    rfl
  · rw [Wire.intCode, if_neg negative, highNibbleDescriptor (by decide) (by omega),
      decide_eq_false negative]
    rfl

theorem scalar {a : Atom} {value : Scalar} (found : h.Found s a.type field sids c size more)
    (shape : a.shape? = .ok s) (holds : a.scalar? = some value) : h.scalar = .ok value := by
  have type := found.type
  have payload := found.payload
  unfold Header.scalar
  rw [type]
  cases a with
  | bool b =>
    have descriptor := found.descriptor
    cases shape
    cases holds
    dsimp only [Atom.type]
    rw [descriptor]
    cases b <;> rfl
  | int n =>
    cases shape
    cases holds
    rw [Shape.typedBody] at payload
    dsimp only [Atom.type]
    rw [found.highInt, payload]
    exact Payload.intReads n
  | float f =>
    cases shape
    cases holds
    rw [Shape.typedBody] at payload
    dsimp only [Atom.type]
    rw [payload, Payload.floatReads]
    rfl
  | decimal d =>
    cases holds
    have written : Payload.decimal h.payload = .ok d := by
      rw [payload]
      simp only [Atom.shape?] at shape
      split at shape
      · contradiction
      · rename_i least
        split at shape
        · rename_i zero
          cases shape
          rw [Shape.typedBody]
          obtain ⟨coefficient, scale⟩ := d
          obtain ⟨rfl, rfl⟩ := zero
          rfl
        · cases shape
          rw [Shape.typedBody]
          exact Payload.decimalReads least
    dsimp only [Atom.type]
    rw [written]
    rfl
  | timestamp t =>
    cases shape
    cases holds
    rw [Shape.typedBody] at payload
    dsimp only [Atom.type]
    rw [payload, Payload.timestampReads]
    rfl
  | string text =>
    cases shape
    cases holds
    rw [Shape.typedBody] at payload
    dsimp only [Atom.type]
    rw [payload, Payload.textReads]
    rfl
  | null | symbol | clob | blob => contradiction

theorem children {o : Option Nat} {kind : Container} {trees : List Tree}
    (found : h.Found s type field sids c size more)
    (shape : (Tree.container o sids kind trees).shape? = .ok s) :
    Tree.encodeAll? trees = .ok h.payload ∧ h.isNull = false := by
  simp only [Tree.shape?] at shape
  cases written : Tree.encodeAll? trees with
  | error e => simp [written, Except.map] at shape
  | ok body =>
    simp only [written, Except.map, Except.ok.injEq] at shape
    subst shape
    refine ⟨?_, ?_⟩
    · rw [found.payload, Shape.typedBody]
    · rw [Header.isNull, found.descriptor]
      exact Shape.typedValue body

end Header.Found

end Ion

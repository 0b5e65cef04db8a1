import Ion.Proofs.Reading

/-! The wire grammar of datagrams, and that scans follow it: each ends well exactly where bytes of
its part of the grammar stand ahead, and takes just these. Forms a writer never uses belong to it:
numbers with leading zeros, short lengths that stand apart, sorted structs, padding anywhere. -/
namespace Ion

inductive Outline
  | leaf (field : Option Nat) (annotations : List Nat) (type : ValueType) (null : Bool)
  | container (field : Option Nat) (annotations : List Nat) (kind : Container)
      (children : List Outline)

def Shape.isNull (s : Shape) : Bool := lowNibble s.descriptor == nullNibble

namespace Grammar

inductive Digits : Nat → Bytes → Nat → Prop
  | last {acc b} (marked : 128 ≤ b.toNat) : Digits acc [b] (acc * 128 + b.toNat % 128)
  | digit {acc b raw n} (unmarked : b.toNat < 128) (more : Digits (acc * 128 + b.toNat) raw n) :
      Digits acc (b :: raw) n

def Number (raw : Bytes) (n : Nat) : Prop := Digits 0 raw n ∧ n < 2 ^ 64

def Symbol (raw : Bytes) (sid : Nat) : Prop := Number raw sid ∧ sid ≤ Sid.last

inductive Symbols : Bytes → List Nat → Prop
  | nil : Symbols [] []
  | cons {raw sid more sids} (first : Symbol raw sid) (rest : Symbols more sids) :
      Symbols (raw ++ more) (sid :: sids)

inductive Name (scope : Option Container) : Bytes → Option Nat → Prop
  | none (outside : scope ≠ some .struct) : Name scope [] none
  | some {raw sid} (member : scope = some .struct) (symbol : Symbol raw sid) :
      Name scope raw (some sid)

inductive Length (nibble : Nat) : Bytes → Nat → Prop
  | short (short : nibble ≠ longLength) : Length nibble [] nibble
  | long {raw n} (long : nibble = longLength) (number : Number raw n) : Length nibble raw n

inductive BodyLength (type : ValueType) (descriptor : UInt8) : Bytes → Nat → Prop
  | null (null : lowNibble descriptor = nullNibble) : BodyLength type descriptor [] 0
  | bool (bool : type = .bool) (truth : lowNibble descriptor ≤ 1) : BodyLength type descriptor [] 0
  | sorted {raw n} (struct : type = .struct) (sorted : lowNibble descriptor = 1)
      (number : Number raw n) : BodyLength type descriptor raw n
  | ordinary {raw n} (something : lowNibble descriptor ≠ nullNibble) (other : type ≠ .bool)
      (unsorted : ¬(type = .struct ∧ lowNibble descriptor = 1)) (zero : descriptor ≠ 0x30)
      (length : Length (lowNibble descriptor) raw n) : BodyLength type descriptor raw n

structure Bare (s : Shape) (type : ValueType) : Prop where
  known : ValueType.ofCode? (highNibble s.descriptor) = some type
  content : isPadding s.descriptor = false
  length : BodyLength type s.descriptor s.head s.body.length

structure Wrapper (outer : Shape) (counted names : Bytes) (sids : List Nat) (s : Shape)
    (type : ValueType) : Prop where
  wraps : highNibble outer.descriptor = wrapperCode
  nibble : 3 ≤ lowNibble outer.descriptor ∧ lowNibble outer.descriptor ≠ nullNibble
  length : Length (lowNibble outer.descriptor) outer.head outer.body.length
  filled : outer.body = counted ++ (names ++ s.bytes)
  counts : Number counted names.length
  names : Symbols names sids
  annotated : sids ≠ []
  value : Bare s type

inductive Value : Bytes → List Nat → Shape → ValueType → Prop
  | bare {s type} (value : Bare s type) : Value s.bytes [] s type
  | wrapped {outer counted names sids s type}
      (wrapper : Wrapper outer counted names sids s type) : Value outer.bytes sids s type

structure Padding (s : Shape) : Prop where
  padding : isPadding s.descriptor = true
  length : Length (lowNibble s.descriptor) s.head s.body.length

inductive Items : Option Container → Bytes → List Outline → Prop
  | done {scope} : Items scope [] []
  | marker {raw shown} (more : Items none raw shown) : Items none (versionMarker ++ raw) shown
  | padding {scope named field s raw shown} (name : Name scope named field) (padding : Padding s)
      (more : Items scope raw shown) : Items scope (named ++ (s.bytes ++ raw)) shown
  | leaf {scope named field whole sids s type raw shown} (name : Name scope named field)
      (value : Value whole sids s type) (leaf : s.isNull = true ∨ type.container? = none)
      (more : Items scope raw shown) :
      Items scope (named ++ (whole ++ raw)) (.leaf field sids type s.isNull :: shown)
  | container {scope named field whole sids s type kind children raw shown}
      (name : Name scope named field) (value : Value whole sids s type)
      (something : s.isNull = false) (holds : type.container? = some kind)
      (body : Items (some kind) s.body children) (more : Items scope raw shown) :
      Items scope (named ++ (whole ++ raw)) (.container field sids kind children :: shown)

def Datagram (data : Bytes) (shown : List Outline) : Prop :=
  ∃ raw, data = versionMarker ++ raw ∧ Items none raw shown

end Grammar

namespace Scan

open Grammar

/-- The scan ends well exactly where a form of this part of the grammar stands ahead, and takes
that form. -/
structure Exact (act : Scan α) (form : Bytes → α → Prop) : Prop where
  finds {raw : Bytes} {a : α} (formed : form raw a) (more : Bytes) : Takes act raw more a
  takes {c c' : Cursor} {a : α} (sound : c.Sound) (ok : act c = .ok a c') :
    ∃ raw more, c.rest = raw ++ more ∧ c' = c.advance raw.length ∧ form raw a

theorem Exact.of {act : Scan α} {form form' : Bytes → α → Prop} (exact : Exact act form)
    (same : ∀ raw a, form raw a ↔ form' raw a) : Exact act form' := by
  refine ⟨fun formed => exact.finds ((same _ _).mpr formed), fun sound ok => ?_⟩
  obtain ⟨raw, more, ahead, moved, formed⟩ := exact.takes sound ok
  exact ⟨raw, more, ahead, moved, (same _ _).mp formed⟩

theorem exactPure (a : α) : Exact (pure a) fun raw b => raw = [] ∧ b = a := by
  refine ⟨?_, ?_⟩
  · rintro raw b ⟨rfl, rfl⟩ more
    exact takesPure b more
  · intro c c' b _ ok
    cases ok
    exact ⟨[], c.rest, rfl, (Cursor.advanceNothing c).symm, rfl, rfl⟩

theorem exactThrow (e : IonError) : Exact (throw e : Scan α) fun _ _ => False :=
  ⟨False.elim, fun _ ok => nomatch ok⟩

theorem Exact.bind {first : Scan α} {next : α → Scan β} {form : Bytes → α → Prop}
    {form' : α → Bytes → β → Prop} (one : Exact first form) (two : ∀ a, Exact (next a) (form' a)) :
    Exact (first >>= next) fun raw b =>
      ∃ left right a, raw = left ++ right ∧ form left a ∧ form' a right b := by
  refine ⟨?_, ?_⟩
  · rintro raw b ⟨left, right, a, rfl, head, tail⟩ more
    exact (one.finds head _).bind ((two a).finds tail more)
  · intro c c' b sound ok
    obtain ⟨a, middle, begun, ok⟩ := bindOk ok
    obtain ⟨left, more, ahead, rfl, head⟩ := one.takes sound begun
    obtain ⟨right, rest, behind, rfl, tail⟩ := (two a).takes (sound.behind ahead) ok
    rw [Cursor.advanceRest ahead] at behind
    refine ⟨left ++ right, rest, ?_, ?_, left, right, a, rfl, head, tail⟩
    · rw [ahead, behind, List.append_assoc]
    · rw [List.length_append, Cursor.advanceAdvance]

end Scan

namespace Grammar

theorem Digits.grows {acc n : Nat} {raw : Bytes} (digits : Digits acc raw n) :
    acc * 128 ≤ n ∧ 0 < raw.length := by
  induction digits with
  | last => simp
  | digit unmarked more ih =>
    simp only [List.length_cons]
    omega

theorem digitsRead {acc n : Nat} {raw : Bytes} (digits : Digits acc raw n) (fits : n < 2 ^ 64)
    (more : Bytes) : VarUInt.digits acc (raw ++ more) = .ok (n, raw.length) := by
  induction digits with
  | @last acc b marked =>
    have room : ¬VarUInt.roomLimit ≤ acc := by
      unfold VarUInt.roomLimit
      omega
    rw [List.singleton_append, VarUInt.digits, if_neg room, if_pos marked]
    rfl
  | @digit acc b raw n unmarked rest ih =>
    have room : ¬VarUInt.roomLimit ≤ acc := by
      have grows := rest.grows
      unfold VarUInt.roomLimit
      omega
    rw [List.cons_append, VarUInt.digits, if_neg room, if_neg (by omega), Nat.mod_eq_of_lt unmarked,
      ih fits]
    rfl

theorem digitsTaken {acc n used : Nat} {raw : Bytes} (read : VarUInt.digits acc raw = .ok (n, used)) :
    Digits acc (raw.take used) n ∧ n < 2 ^ 64 := by
  induction raw generalizing acc n used with
  | nil => simp [VarUInt.digits] at read
  | cons b rest ih =>
    rw [VarUInt.digits] at read
    split at read
    · contradiction
    · rename_i room
      unfold VarUInt.roomLimit at room
      split at read
      · rename_i marked
        cases read
        exact ⟨.last marked, by omega⟩
      · rename_i unmarked
        cases later : VarUInt.digits (acc * 128 + b.toNat % 128) rest with
        | error e => simp [later, bind, Except.bind] at read
        | ok found =>
          obtain ⟨m, k⟩ := found
          simp only [later, bind, Except.bind, pure, Except.pure, Except.ok.injEq,
            Prod.mk.injEq] at read
          obtain ⟨rfl, rfl⟩ := read
          obtain ⟨digits, fits⟩ := ih later
          rw [Nat.mod_eq_of_lt (by omega)] at digits
          exact ⟨.digit (by omega) digits, fits⟩

theorem Number.nonempty {raw : Bytes} {n : Nat} (number : Number raw n) : 0 < raw.length :=
  number.1.grows.2

end Grammar

namespace Scan

open Grammar

theorem numberExact {decode : Bytes → Except ReadError (α × Nat)} {form : Bytes → α → Prop}
    (finds : ∀ {raw a}, form raw a → ∀ more, decode (raw ++ more) = .ok (a, raw.length))
    (takes : ∀ {raw a used}, decode raw = .ok (a, used) → used ≤ raw.length ∧ form (raw.take used) a) :
    Exact (lift (Cursor.number decode)) form := by
  refine ⟨fun formed more => takesNumber (finds formed more), ?_⟩
  intro c c' a sound ok
  cases read : decode c.rest with
  | error e => simp [lift, EStateM.adaptExcept, Cursor.number, read] at ok
  | ok found =>
    obtain ⟨b, used⟩ := found
    simp only [lift, EStateM.adaptExcept, Cursor.number, read, EStateM.Result.ok.injEq] at ok
    obtain ⟨rfl, rfl⟩ := ok
    obtain ⟨within, formed⟩ := takes read
    exact ⟨c.rest.take used, c.rest.drop used, (List.take_append_drop used c.rest).symm,
      by rw [List.length_take_of_le within], formed⟩

theorem varUIntExact : Exact (lift Cursor.varUInt) Number :=
  numberExact (fun number => digitsRead number.1 number.2)
    fun read => ⟨(VarUInt.digitsUsed read).2, digitsTaken read⟩

theorem byteExact : Exact (lift Cursor.u8) fun raw b => raw = [b] := by
  refine ⟨?_, ?_⟩
  · rintro raw b rfl more
    exact takesByte b more
  · intro c c' b sound ok
    cases rest : c.rest with
    | nil => simp [lift, EStateM.adaptExcept, Cursor.u8, Cursor.take, rest, Cursor.first] at ok
    | cons head more =>
      rw [byteReads sound rest] at ok
      cases ok
      exact ⟨[b], more, rfl, rfl, rfl⟩

theorem sidExact : Exact sid Symbol := by
  have checked (n : Nat) : Exact (if n ≤ Sid.last then return n else throw .numericOverflow : Scan Nat)
      fun raw m => n ≤ Sid.last ∧ raw = [] ∧ m = n := by
    split
    · rename_i fits
      exact (exactPure n).of fun raw m => by simp [fits]
    · rename_i large
      exact (exactThrow _).of fun raw m => by simp [large]
  refine (varUIntExact.bind checked).of fun raw n => ⟨?_, ?_⟩
  · rintro ⟨left, right, m, rfl, number, fits, rfl, rfl⟩
    rw [List.append_nil]
    exact ⟨number, fits⟩
  · rintro ⟨number, fits⟩
    exact ⟨raw, [], n, (List.append_nil raw).symm, number, fits, rfl, rfl⟩

theorem fieldNameExact (scope : Option Container) : Exact (fieldName scope) (Name scope) := by
  unfold fieldName
  split
  · rename_i member
    refine (sidExact.bind fun n => exactPure (some n)).of fun raw field => ⟨?_, ?_⟩
    · rintro ⟨left, right, n, rfl, symbol, rfl, rfl⟩
      rw [List.append_nil]
      exact .some member symbol
    · rintro (outside | ⟨_, symbol⟩)
      · exact absurd member outside
      · exact ⟨raw, [], _, (List.append_nil raw).symm, symbol, rfl, rfl⟩
  · rename_i outside
    refine (exactPure none).of fun raw field => ⟨?_, ?_⟩
    · rintro ⟨rfl, rfl⟩
      exact .none outside
    · rintro (_ | ⟨member, _⟩)
      · exact ⟨rfl, rfl⟩
      · exact absurd member outside

theorem bodyLengthExact (nibble : Nat) : Exact (bodyLength nibble) (Length nibble) := by
  unfold bodyLength
  split
  · rename_i long
    refine varUIntExact.of fun raw n => ⟨.long long, ?_⟩
    rintro (short | ⟨_, number⟩)
    · exact absurd long short
    · exact number
  · rename_i short
    refine (exactPure nibble).of fun raw n => ⟨?_, ?_⟩
    · rintro ⟨rfl, rfl⟩
      exact .short short
    · rintro (_ | ⟨long, _⟩)
      · exact ⟨rfl, rfl⟩
      · exact absurd long short

theorem negativeZeroDescriptor (descriptor : UInt8) :
    highNibble descriptor = negativeCode ∧ lowNibble descriptor = 0 ↔ descriptor = 0x30 := by
  rw [← UInt8.toNat_inj, highNibble, lowNibble, negativeCode]
  change _ ↔ descriptor.toNat = 48
  omega

theorem negativeType {descriptor : UInt8} {type : ValueType}
    (known : ValueType.ofCode? (highNibble descriptor) = some type) (zero : descriptor = 0x30) :
    type = .int := by
  subst zero
  exact (Option.some.inj known).symm

theorem valueLengthExact {type : ValueType} {descriptor : UInt8}
    (known : ValueType.ofCode? (highNibble descriptor) = some type) :
    Exact (valueLength type descriptor) (BodyLength type descriptor) := by
  have marks : nullNibble = 15 := rfl
  unfold valueLength
  dsimp only
  split
  · rename_i null
    refine (exactPure 0).of fun raw n => ⟨?_, fun length => ?_⟩
    · rintro ⟨rfl, rfl⟩
      exact .null null
    · cases length with
      | null | bool => exact ⟨rfl, rfl⟩
      | sorted _ mark => omega
      | ordinary something => exact absurd null something
  · rename_i something
    have ordinary (other : type ≠ .bool) (unsorted : ¬(type = .struct ∧ lowNibble descriptor = 1))
        (zero : descriptor ≠ 0x30) :
        Exact (bodyLength (lowNibble descriptor)) (BodyLength type descriptor) := by
      refine (bodyLengthExact _).of fun raw n => ⟨.ordinary something other unsorted zero, fun length => ?_⟩
      cases length with
      | null null => exact absurd null something
      | bool bool => exact absurd bool other
      | sorted struct mark => exact absurd ⟨struct, mark⟩ unsorted
      | ordinary _ _ _ _ length => exact length
    cases type with
    | bool =>
      dsimp only
      split
      · rename_i truth
        refine (exactPure 0).of fun raw n => ⟨?_, fun length => ?_⟩
        · rintro ⟨rfl, rfl⟩
          exact .bool rfl truth
        · cases length with
          | null | bool => exact ⟨rfl, rfl⟩
          | sorted struct => contradiction
          | ordinary _ other => exact absurd rfl other
      · rename_i badBool
        refine (exactThrow _).of fun raw n => ⟨False.elim, fun length => ?_⟩
        cases length with
        | null null => exact something null
        | bool _ truth => exact badBool truth
        | sorted struct => contradiction
        | ordinary _ other => exact other rfl
    | int =>
      dsimp only
      split
      · rename_i zero
        refine (exactThrow _).of fun raw n => ⟨False.elim, fun length => ?_⟩
        cases length with
        | null null => exact something null
        | bool bool | sorted bool => contradiction
        | ordinary _ _ _ notZero => exact notZero ((negativeZeroDescriptor descriptor).mp zero)
      · rename_i notZero
        exact ordinary nofun (fun sorted => nomatch sorted.1)
          fun zero => notZero ((negativeZeroDescriptor descriptor).mpr zero)
    | struct =>
      dsimp only
      split
      · rename_i mark
        refine varUIntExact.of fun raw n => ⟨.sorted rfl mark, fun length => ?_⟩
        cases length with
        | null null => exact absurd null something
        | bool bool => contradiction
        | sorted _ _ number => exact number
        | ordinary _ _ unsorted => exact absurd ⟨rfl, mark⟩ unsorted
      · rename_i unsorted
        exact ordinary nofun (fun sorted => unsorted sorted.2)
          fun zero => nomatch negativeType known zero
    | null | float | decimal | timestamp | symbol | string | clob | blob | list | sexp =>
      exact ordinary nofun (fun sorted => nomatch sorted.1)
        fun zero => nomatch negativeType known zero

end Scan

end Ion

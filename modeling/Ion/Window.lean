import Ion.Wire.Item
import Ion.Wire.Payload

/-!
Reading by index. A window is a byte string and two places in it; nothing but the checks of the
reads keeps these places, and the places that they compute, inside the bytes. An index or a slice
that the bytes do not have stops the read, whatever it was to give.
-/
namespace Ion

inductive Fault (ε : Type)
  | outOfBounds
  | outOfRounds
  | failed (cause : ε)
  deriving DecidableEq, Repr

def Fault.map (f : ε → ε') : Fault ε → Fault ε'
  | outOfBounds => .outOfBounds
  | outOfRounds => .outOfRounds
  | failed cause => .failed (f cause)

structure Window where
  data : Bytes
  pos : Nat
  stop : Nat
  deriving DecidableEq, Repr

namespace Window

abbrev Read (α : Type) := EStateM (Fault ReadError) Window α

def ofBytes (data : Bytes) : Window := ⟨data, 0, data.length⟩

def size (w : Window) : Nat := w.stop - w.pos

def check (n : Nat) : Read Unit := fun w =>
  if w.pos + n ≤ w.stop then .ok () w else .error (.failed .endOfInput) w

def byte (place : Nat) : Read UInt8 := fun w =>
  match w.data[place]? with
  | some b => .ok b w
  | none => .error .outOfBounds w

def slice (first stop : Nat) : EStateM (Fault ε) Window Bytes := fun w =>
  match w.data.slice? first stop with
  | some raw => .ok raw w
  | none => .error .outOfBounds w

def move (pos : Nat) : EStateM (Fault ε) Window Unit := fun w => .ok () { w with pos }

def peek : Read UInt8 := do
  check 1
  byte (← get).pos

def u8 : Read UInt8 := do
  check 1
  let pos := (← get).pos
  let b ← byte pos
  move (pos + 1)
  return b

def bytes (n : Nat) : Read Bytes := do
  check n
  let pos := (← get).pos
  let raw ← slice pos (pos + n)
  move (pos + n)
  return raw

def int (n : Nat) : Read (Bool × Bytes) := do
  return Cursor.signMagnitude (← bytes n)

def digits (w : Window) (pos acc : Nat) : Except (Fault ReadError) (Nat × Nat) :=
  if pos < w.stop then
    match w.data[pos]? with
    | none => .error .outOfBounds
    | some b =>
      if VarUInt.roomLimit ≤ acc then .error (.failed .overflow)
      else if 128 ≤ b.toNat then .ok (acc * 128 + b.toNat % 128, pos + 1)
      else digits w (pos + 1) (acc * 128 + b.toNat % 128)
  else .error (.failed .endOfInput)
termination_by w.stop - pos

def number (pos acc : Nat) : Read Nat := fun w =>
  match w.digits pos acc with
  | .ok (n, pos) => .ok n { w with pos }
  | .error e => .error e w

def varUInt : Read Nat := do number (← get).pos 0

def varInt : Read (Bool × Nat) := do
  let first ← peek
  let negative := first.toNat / 64 % 2 == 1
  let pos := (← get).pos
  if 128 ≤ first.toNat then
    move (pos + 1)
    return (negative, first.toNat % 64)
  else
    let n ← number (pos + 1) (first.toNat % 64)
    return (negative, n)

abbrev Scan (α : Type) := EStateM (Fault IonError) Window α

def lift (act : Read α) : Scan α := act.adaptExcept (Fault.map IonError.input)

def require (condition : Prop) [Decidable condition] (e : IonError) : Scan Unit :=
  if condition then return () else throw (.failed e)

def runOn (raw : Bytes) (act : Scan α) : Except (Fault IonError) α :=
  match act (.ofBytes raw) with
  | .ok a _ => .ok a
  | .error e _ => .error e

end Window

structure ValueHeader where
  type : ValueType
  typeCode : Nat
  lengthCode : Nat
  isNull : Bool
  field : Option Nat
  annotations : List Nat
  start : Nat
  stop : Nat
  deriving DecidableEq, Repr

namespace Window

variable (scope : Option ValueType) (offset : Nat)

def endOf (length : Nat) : Scan Nat := fun w =>
  if w.pos + length ≤ w.stop then .ok (w.pos + length) w
  else .error (.failed (if scope.isSome then .lengthMismatch offset else .input .endOfInput)) w

def sid : Scan Nat := do
  let n ← lift varUInt
  if n ≤ Sid.last then return n else throw (.failed .numericOverflow)

theorem digitsOnward {w : Window} {pos acc n behind : Nat} (ok : w.digits pos acc = .ok (n, behind)) :
    pos < behind ∧ behind ≤ w.stop := by
  fun_induction digits w pos acc with
  | case1 | case2 | case5 => contradiction
  | case3 pos acc inside b byte room last =>
    cases ok
    omega
  | case4 pos acc inside b byte room more ih =>
    have later := ih ok
    omega

theorem sidOnward {w w' : Window} {n : Nat} (ok : sid w = .ok n w') : w'.size < w.size := by
  obtain ⟨m, middle, read, ok⟩ := bindOk ok
  have same : middle = w' := by
    split at ok
    · cases ok
      rfl
    · contradiction
  have moved : number w.pos 0 w = .ok m middle := by
    change (number w.pos 0).adaptExcept (Fault.map IonError.input) w = _ at read
    unfold EStateM.adaptExcept at read
    split at read <;> cases read
    assumption
  unfold number at moved
  split at moved
  · rename_i found
    have onward := digitsOnward found
    cases moved
    rw [← same]
    simp only [size]
    omega
  · contradiction

def sidsUntil (stop : Nat) : Scan (List Nat) := fun w =>
  if w.pos < stop then
    match _h : sid w with
    | .error e w' => .error e w'
    | .ok n w' =>
      match sidsUntil stop w' with
      | .error e w'' => .error e w''
      | .ok rest w'' => .ok (n :: rest) w''
  else .ok [] w
termination_by w => w.size
decreasing_by exact sidOnward _h

def bodyLength (lengthCode : Nat) : Scan Nat :=
  if lengthCode = longLength then lift varUInt else return lengthCode

def valueLength (type : ValueType) (typeCode lengthCode : Nat) : Scan Nat :=
  if lengthCode = nullNibble then return 0
  else
    match type with
    | .bool => if lengthCode ≤ 1 then return 0 else throw (.failed (.badBool lengthCode))
    | .int =>
      if typeCode = negativeCode ∧ lengthCode = 0 then throw (.failed .negativeZero)
      else bodyLength lengthCode
    | .struct => if lengthCode = 1 then lift varUInt else bodyLength lengthCode
    | _ => bodyLength lengthCode

def value (field : Option Nat) (annotations : List Nat) (descriptor : UInt8) : Scan ValueHeader :=
  let typeCode := highNibble descriptor
  let lengthCode := lowNibble descriptor
  match ValueType.ofCode? typeCode with
  | none => throw (.failed (.badDescriptor descriptor))
  | some type => do
    let length ← valueLength type typeCode lengthCode
    let start := (← get).pos
    let stop ← endOf scope offset length
    return ⟨type, typeCode, lengthCode, lengthCode == nullNibble, field, annotations, start, stop⟩

def annotations (stop : Nat) : Scan (List Nat) := do
  let length ← lift varUInt
  let sidStop ← endOf scope offset length
  require (0 < length ∧ sidStop ≤ stop) (.lengthMismatch offset)
  let sids ← sidsUntil sidStop
  require ((← get).pos = sidStop) (.lengthMismatch offset)
  return sids

def wrapped (field : Option Nat) (descriptor : UInt8) : Scan ValueHeader := do
  let lengthCode := lowNibble descriptor
  require (3 ≤ lengthCode ∧ lengthCode ≠ nullNibble) (.badDescriptor descriptor)
  let length ← bodyLength lengthCode
  let stop ← endOf scope offset length
  let annotations ← annotations scope offset stop
  let inner ← lift u8
  require (highNibble inner ≠ wrapperCode ∧ ¬isPadding inner) (.badDescriptor inner)
  let h ← value scope offset field annotations inner
  require (h.stop = stop) (.lengthMismatch offset)
  return h

def fieldName : Scan (Option Nat) :=
  if scope = some .struct then do
    let n ← sid
    return some n
  else return none

def padding (descriptor : UInt8) : Scan Unit := do
  let length ← bodyLength (lowNibble descriptor)
  move (← endOf scope offset length)

def item : Scan (Option ValueHeader) := do
  let offset := (← get).pos
  let field ← fieldName scope
  let descriptor ← lift u8
  if isPadding descriptor then
    padding scope offset descriptor
    return none
  else if highNibble descriptor = wrapperCode then
    let h ← wrapped scope offset field descriptor
    return some h
  else
    let h ← value scope offset field [] descriptor
    return some h

def exponent : Scan Int := do
  let (negative, magnitude) ← lift varInt
  if magnitude < 0x8000000000000000 then return Payload.signed negative magnitude
  else throw (.failed .numericOverflow)

def coefficient : Scan Int := do
  let w ← get
  let rest ← slice w.pos w.data.length
  match runOn rest (lift (int rest.length)) with
  | .ok (negative, magnitude) => return Payload.signed negative (Bytes.value magnitude)
  | .error e => throw e

def decimal (raw : Bytes) : Except (Fault IonError) Decimal :=
  if raw = [] then .ok .zero
  else
    runOn raw do
      let e ← exponent
      let c ← coefficient
      return ⟨c, Int64.ofInt (-e)⟩

def offsetMinutes : Scan (Option Int) := do
  let (negative, magnitude) ← lift varInt
  if negative ∧ magnitude = 0 then return none
  else if magnitude < 0x80000000 then return some (Payload.signed negative magnitude)
  else throw (.failed .badTimestamp)

def numbers : Nat → Scan (List Nat)
  | 0 => return []
  | limit + 1 => do
    if (← get).size = 0 then return []
    else
      let n ← lift varUInt
      let rest ← numbers limit
      return n :: rest

def fraction (precision : Precision) : Scan (Precision × Nat) := do
  if (← get).size = 0 then return (precision, 0)
  else
    let e ← exponent
    let c ← coefficient
    match Payload.fractionOf e c with
    | .ok found => return found
    | .error e => throw (.failed e)

def timestamp (raw : Bytes) : Except (Fault IonError) Timestamp :=
  runOn raw do
    let offset ← offsetMinutes
    let year ← lift varUInt
    let fields ← numbers 5
    let some precision := Payload.precisionOf? fields.length | throw (.failed .badTimestamp)
    let (precision, nano) ← fraction precision
    let some utc := Payload.moment? year fields nano | throw (.failed .badTimestamp)
    match Timestamp.of utc offset precision with
    | .ok t => return t
    | .error e => throw (.failed e)

end Window

end Ion

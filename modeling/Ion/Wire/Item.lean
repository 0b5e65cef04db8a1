import Ion.Symbol.SharedTable
import Ion.Wire.Scan

/-!
Items of a datagram or of a container body: padding, which carries nothing, and values, of which
only the header is read here. A declared length must stay inside the enclosing container; at the
top level running past it means that input is missing.
-/
namespace Ion

structure Header where
  descriptor : UInt8
  type : ValueType
  -- symbol ID of the field name, inside structs
  field : Option Nat
  annotations : List Nat
  start : Cursor
  length : Nat
  deriving DecidableEq, Repr

def highNibble (b : UInt8) : Nat := b.toNat / 16

def lowNibble (b : UInt8) : Nat := b.toNat % 16

namespace Header

def isNull (h : Header) : Bool := lowNibble h.descriptor == nullNibble

def body (h : Header) : Cursor := h.start.part h.length

def after (h : Header) : Cursor := h.start.advance h.length

def payload (h : Header) : Bytes := h.body.rest

def container? (h : Header) : Option Container := if h.isNull then none else h.type.container?

end Header

def isPadding (b : UInt8) : Bool := highNibble b == 0 && lowNibble b != nullNibble

namespace Scan

def overrun (scope : Option Container) (offset : Nat) : IonError :=
  if scope.isSome then .lengthMismatch offset else .input .endOfInput

def within (scope : Option Container) (offset length : Nat) : Scan Unit := fun c =>
  if c.pos + length ≤ c.stop then .ok () c else .error (overrun scope offset) c

def sid : Scan Nat := do
  let n ← lift Cursor.varUInt
  if n ≤ Sid.last then return n else throw .numericOverflow

theorem sidShortens : Shortens sid :=
  (liftShortens varUIntShortens).bind fun n => by
    split
    · exact pureNeverGrows n
    · exact (throwShortens _).neverGrows

def sidsUntil (stop : Nat) : Scan (List Nat) := fun c =>
  if c.pos < stop then
    match _h : sid c with
    | .error e c' => .error e c'
    | .ok s c' =>
      match sidsUntil stop c' with
      | .error e c'' => .error e c''
      | .ok rest c'' => .ok (s :: rest) c''
  else .ok [] c
termination_by c => c.rest.length
decreasing_by exact sidShortens _ _ _ ‹_›

theorem sidsUntilNeverGrows (stop : Nat) : NeverGrows (sidsUntil stop) := by
  intro c l c' h
  fun_induction sidsUntil stop c generalizing l c' with
  | case1 => contradiction
  | case2 => contradiction
  | case3 c inside s c1 found rest c2 more ih =>
    simp only [EStateM.Result.ok.injEq] at h
    have one := sidShortens _ _ _ found
    have two := ih _ _ more
    rw [← h.2]
    omega
  | case4 c outside =>
    simp only [EStateM.Result.ok.injEq] at h
    simp [← h.2]

def bodyLength (nibble : Nat) : Scan Nat :=
  if nibble = longLength then lift Cursor.varUInt else return nibble

def valueLength (type : ValueType) (descriptor : UInt8) : Scan Nat :=
  let nibble := lowNibble descriptor
  if nibble = nullNibble then return 0
  else
    match type with
    | .bool => if nibble ≤ 1 then return 0 else throw (.badBool nibble)
    | .int =>
      if highNibble descriptor = negativeCode ∧ nibble = 0 then throw .negativeZero
      else bodyLength nibble
    | .struct => if nibble = 1 then lift Cursor.varUInt else bodyLength nibble
    | _ => bodyLength nibble

def value (scope : Option Container) (offset : Nat) (field : Option Nat) (annotations : List Nat)
    (descriptor : UInt8) : Scan Header :=
  match ValueType.ofCode? (highNibble descriptor) with
  | none => throw (.badDescriptor descriptor)
  | some type => do
    let length ← valueLength type descriptor
    within scope offset length
    return ⟨descriptor, type, field, annotations, ← get, length⟩

def annotations (scope : Option Container) (offset stop : Nat) : Scan (List Nat) := do
  let length ← lift Cursor.varUInt
  within scope offset length
  let sidStop := (← get).pos + length
  require (0 < length ∧ sidStop ≤ stop) (.lengthMismatch offset)
  let sids ← sidsUntil sidStop
  require ((← get).pos = sidStop) (.lengthMismatch offset)
  return sids

def wrapped (scope : Option Container) (offset : Nat) (field : Option Nat) (descriptor : UInt8) :
    Scan Header := do
  let nibble := lowNibble descriptor
  require (3 ≤ nibble ∧ nibble ≠ nullNibble) (.badDescriptor descriptor)
  let length ← bodyLength nibble
  within scope offset length
  let stop := (← get).pos + length
  let annotations ← annotations scope offset stop
  let inner ← lift Cursor.u8
  require (highNibble inner ≠ wrapperCode ∧ ¬isPadding inner) (.badDescriptor inner)
  let h ← value scope offset field annotations inner
  require (h.after.pos = stop) (.lengthMismatch offset)
  return h

def fieldName (scope : Option Container) : Scan (Option Nat) :=
  if scope = some .struct then do
    let n ← sid
    return some n
  else return none

def padding (scope : Option Container) (offset : Nat) (descriptor : UInt8) : Scan Unit := do
  let length ← bodyLength (lowNibble descriptor)
  within scope offset length
  modify fun c => c.advance length

def item (scope : Option Container) : Scan (Option Header) := do
  let offset := (← get).pos
  let field ← fieldName scope
  let descriptor ← lift Cursor.u8
  if isPadding descriptor then
    padding scope offset descriptor
    return none
  else if highNibble descriptor = wrapperCode then
    let h ← wrapped scope offset field descriptor
    return some h
  else
    let h ← value scope offset field [] descriptor
    return some h

theorem withinNeverGrows (scope : Option Container) (offset length : Nat) :
    NeverGrows (within scope offset length) := by
  intro c a c' h
  simp only [within] at h
  split at h
  · simp only [EStateM.Result.ok.injEq] at h
    simp [← h.2]
  · contradiction

theorem advanceNeverGrows (length : Nat) :
    NeverGrows (modify fun c => c.advance length : Scan Unit) := by
  intro c a c' h
  change EStateM.Result.ok () (c.advance length) = .ok a c' at h
  cases h
  simp [Cursor.advance]

theorem bodyLengthNeverGrows (nibble : Nat) : NeverGrows (bodyLength nibble) := by
  unfold bodyLength
  split
  · exact (liftShortens varUIntShortens).neverGrows
  · exact pureNeverGrows nibble

theorem valueLengthNeverGrows (type : ValueType) (descriptor : UInt8) :
    NeverGrows (valueLength type descriptor) := by
  have body := bodyLengthNeverGrows (lowNibble descriptor)
  have number := (liftShortens varUIntShortens).neverGrows
  have nothing := pureNeverGrows (ε := IonError) 0
  have refused (e : IonError) : NeverGrows (throw e : Scan Nat) := (throwShortens e).neverGrows
  unfold valueLength
  dsimp only
  split
  · exact nothing
  · split
    · split
      · exact nothing
      · exact refused _
    · split
      · exact refused _
      · exact body
    · split
      · exact number
      · exact body
    · exact body

theorem valueNeverGrows (scope : Option Container) (offset : Nat) (field : Option Nat)
    (annotations : List Nat) (descriptor : UInt8) :
    NeverGrows (value scope offset field annotations descriptor) := by
  unfold value
  split
  · exact (throwShortens _).neverGrows
  · exact (valueLengthNeverGrows _ _).bind fun length =>
      (withinNeverGrows _ _ length).bind fun _ => getNeverGrows.bind fun c => pureNeverGrows _

theorem annotationsNeverGrows (scope : Option Container) (offset stop : Nat) :
    NeverGrows (annotations scope offset stop) :=
  (liftShortens varUIntShortens).neverGrows.bind fun length =>
    (withinNeverGrows _ _ length).bind fun _ => getNeverGrows.bind fun _ =>
      (requireNeverGrows _ _).bind fun _ => (sidsUntilNeverGrows _).bind fun sids =>
        getNeverGrows.bind fun _ => (requireNeverGrows _ _).bind fun _ => pureNeverGrows sids

theorem wrappedNeverGrows (scope : Option Container) (offset : Nat) (field : Option Nat)
    (descriptor : UInt8) : NeverGrows (wrapped scope offset field descriptor) :=
  (requireNeverGrows _ _).bind fun _ => (bodyLengthNeverGrows _).bind fun length =>
    (withinNeverGrows _ _ length).bind fun _ => getNeverGrows.bind fun _ =>
      (annotationsNeverGrows _ _ _).bind fun _ =>
        (liftShortens u8Shortens).neverGrows.bind fun _ =>
          (requireNeverGrows _ _).bind fun _ => (valueNeverGrows _ _ _ _ _).bind fun h =>
            (requireNeverGrows _ _).bind fun _ => pureNeverGrows h

theorem fieldNameNeverGrows (scope : Option Container) : NeverGrows (fieldName scope) := by
  unfold fieldName
  split
  · exact sidShortens.neverGrows.bind fun n => pureNeverGrows _
  · exact pureNeverGrows _

theorem itemShortens (scope : Option Container) : Shortens (item scope) := by
  refine getNeverGrows.bindShortens fun c => (fieldNameNeverGrows scope).bindShortens fun field =>
    (liftShortens u8Shortens).bind fun descriptor => ?_
  split
  · refine NeverGrows.bind ?_ fun _ => pureNeverGrows _
    exact (bodyLengthNeverGrows _).bind fun length =>
      (withinNeverGrows _ _ length).bind fun _ => advanceNeverGrows length
  · split
    · exact (wrappedNeverGrows _ _ _ _).bind fun h => pureNeverGrows _
    · exact (valueNeverGrows _ _ _ _ _).bind fun h => pureNeverGrows _

theorem valueStart {scope : Option Container} {offset : Nat} {field : Option Nat}
    {annotations : List Nat} {descriptor : UInt8} {c c' : Cursor} {h : Header}
    (ok : value scope offset field annotations descriptor c = .ok h c') : h.start = c' := by
  cases known : ValueType.ofCode? (highNibble descriptor) with
  | none =>
    rw [value, known] at ok
    change EStateM.Result.error _ c = .ok h c' at ok
    contradiction
  | some type =>
    rw [value, known] at ok
    obtain ⟨length, c1, _, ok⟩ := bindOk ok
    obtain ⟨_, c2, _, ok⟩ := bindOk ok
    obtain ⟨start, c3, seen, ok⟩ := bindOk ok
    change EStateM.Result.ok c2 c2 = .ok start c3 at seen
    change EStateM.Result.ok _ c3 = .ok h c' at ok
    cases seen
    cases ok
    rfl

theorem wrappedStart {scope : Option Container} {offset : Nat} {field : Option Nat}
    {descriptor : UInt8} {c c' : Cursor} {h : Header}
    (ok : wrapped scope offset field descriptor c = .ok h c') : h.start = c' := by
  obtain ⟨_, c1, _, ok⟩ := bindOk ok
  obtain ⟨length, c2, _, ok⟩ := bindOk ok
  obtain ⟨_, c3, _, ok⟩ := bindOk ok
  obtain ⟨_, c4, _, ok⟩ := bindOk ok
  obtain ⟨sids, c5, _, ok⟩ := bindOk ok
  obtain ⟨inner, c6, _, ok⟩ := bindOk ok
  obtain ⟨_, c7, _, ok⟩ := bindOk ok
  obtain ⟨found, c8, read, ok⟩ := bindOk ok
  obtain ⟨_, c9, stays, ok⟩ := bindOk ok
  simp only [pure, EStateM.pure, EStateM.Result.ok.injEq] at ok
  rw [← ok.1, ← ok.2, valueStart read, requireStays stays]

theorem itemStart {scope : Option Container} {c c' : Cursor} {h : Header}
    (ok : item scope c = .ok (some h) c') : h.start = c' := by
  obtain ⟨_, c1, _, ok⟩ := bindOk ok
  obtain ⟨field, c2, _, ok⟩ := bindOk ok
  obtain ⟨descriptor, c3, _, ok⟩ := bindOk ok
  split at ok
  · obtain ⟨_, c4, _, ok⟩ := bindOk ok
    simp [pure, EStateM.pure] at ok
  · split at ok
    · obtain ⟨found, c4, read, ok⟩ := bindOk ok
      simp only [pure, EStateM.pure, EStateM.Result.ok.injEq, Option.some.injEq] at ok
      rw [← ok.1, ← ok.2, wrappedStart read]
    · obtain ⟨found, c4, read, ok⟩ := bindOk ok
      simp only [pure, EStateM.pure, EStateM.Result.ok.injEq, Option.some.injEq] at ok
      rw [← ok.1, ← ok.2, valueStart read]

theorem itemAfter {scope : Option Container} {c c' : Cursor} {h : Header}
    (ok : item scope c = .ok (some h) c') : h.start.rest.length < c.rest.length := by
  rw [itemStart ok]
  exact itemShortens scope c (some h) c' ok

end Scan

theorem Header.afterShorter (h : Header) : h.after.rest.length ≤ h.start.rest.length := by
  simp [Header.after, Cursor.advance]

theorem Header.bodyShorter (h : Header) : h.body.rest.length ≤ h.start.rest.length := by
  simp only [Header.body, Cursor.part, List.length_take]
  omega

end Ion

import Ion.LocalTable

/-!
The reader of datagrams. It stands before, on or behind a value of one container and is moved by
steps; version markers, padding and symbol tables pass unseen, the latter setting the symbols in
force. The scalar of the value it stands on is decoded when asked for. After a failure the reader
stays where the failure arose.
-/
namespace Ion

structure Reader where
  catalog : Catalog
  symbols : SymbolTable
  -- the containers entered, innermost first
  inside : List Entered
  position : Position
  deriving DecidableEq

inductive TopItem
  | marker
  | padding
  | value (h : Header)
  deriving DecidableEq, Repr

def Scan.topItem : Scan TopItem := do
  let head ← lift Cursor.peek
  if head = 0xE0 then
    let marker ← lift (Cursor.bytes 4)
    require (marker = versionMarker) .badVersionMarker
    return .marker
  else
    match ← item none with
    | some h => return .value h
    | none => return .padding

inductive TopStep
  | exhausted (c : Cursor)
  | halted (halt : Halt)
  | value (h : Header)
  deriving DecidableEq

namespace Scan

theorem peekStays {c c' : Cursor} {b : UInt8} (ok : lift Cursor.peek c = .ok b c') :
    c = c' ∧ c.rest ≠ [] := by
  simp only [lift, EStateM.adaptExcept, Cursor.peek] at ok
  by_cases inside : c.pos + 1 ≤ c.stop
  · cases rest : c.rest with
    | nil => simp [inside, rest, Cursor.first] at ok
    | cons head tail =>
      simp only [inside, rest, Cursor.first, if_true, EStateM.Result.ok.injEq] at ok
      exact ⟨ok.2, by simp⟩
  · simp [inside] at ok

theorem topItemStarted {c c' : Cursor} {found : TopItem} (ok : topItem c = .ok found c') :
    ¬c.atEnd := by
  obtain ⟨head, c1, peeked, -⟩ := bindOk ok
  intro ended
  have nothing : ¬c.pos + 1 ≤ c.stop := by
    simp only [Cursor.atEnd, decide_eq_true_eq] at ended
    omega
  simp [lift, EStateM.adaptExcept, Cursor.peek, nothing] at peeked

theorem markerShortens {c c' : Cursor} {raw : Bytes} (ahead : c.rest ≠ [])
    (ok : lift (Cursor.bytes 4) c = .ok raw c') : c'.rest.length < c.rest.length := by
  simp only [lift, EStateM.adaptExcept, Cursor.bytes, Cursor.take] at ok
  by_cases inside : c.pos + 4 ≤ c.stop
  · simp only [inside, if_true, EStateM.Result.ok.injEq] at ok
    have length := List.length_pos_iff.mpr ahead
    simp only [← ok.2, Cursor.advance, List.length_drop]
    omega
  · simp [inside] at ok

theorem topItemShortens : Shortens topItem := by
  intro c found c' ok
  obtain ⟨head, c1, peeked, ok⟩ := bindOk ok
  have start := peekStays peeked
  rw [← start.1] at ok
  split at ok
  · obtain ⟨raw, c2, marker, ok⟩ := bindOk ok
    obtain ⟨_, c3, same, ok⟩ := bindOk ok
    simp only [pure, EStateM.pure, EStateM.Result.ok.injEq] at ok
    have shorter := markerShortens start.2 marker
    rw [← ok.2, ← requireStays same]
    exact shorter
  · obtain ⟨h, c2, read, ok⟩ := bindOk ok
    have shorter := itemShortens none c h c2 read
    cases h <;> simp only [pure, EStateM.pure, EStateM.Result.ok.injEq] at ok <;>
      rw [← ok.2] <;> exact shorter

theorem topItemAfter {c c' : Cursor} {h : Header} (ok : topItem c = .ok (.value h) c') :
    h.start.rest.length < c.rest.length := by
  obtain ⟨head, c1, peeked, ok⟩ := bindOk ok
  rw [← (peekStays peeked).1] at ok
  split at ok
  · obtain ⟨raw, c2, _, ok⟩ := bindOk ok
    obtain ⟨_, c3, _, ok⟩ := bindOk ok
    simp [pure, EStateM.pure] at ok
  · obtain ⟨found, c2, read, ok⟩ := bindOk ok
    cases found with
    | none => simp [pure, EStateM.pure] at ok
    | some h1 =>
      simp only [pure, EStateM.pure, EStateM.Result.ok.injEq, TopItem.value.injEq] at ok
      rw [← ok.1]
      exact itemAfter read

end Scan

/-- The next value of a datagram and the symbols in force there. A version marker goes back to
the system symbols, a symbol table takes effect behind itself. -/
def nextTop (catalog : Catalog) (symbols : SymbolTable) (c : Cursor) : SymbolTable × TopStep :=
  if c.atEnd then (symbols, .exhausted c)
  else
    match _h : Scan.topItem c with
    | .error e c' => (symbols, .halted (.before e c'))
    | .ok .marker c' => nextTop catalog .system c'
    | .ok .padding c' => nextTop catalog symbols c'
    | .ok (.value h) _ =>
      if h.isTable then
        match symbols.load catalog h with
        | .ok symbols => nextTop catalog symbols h.after
        | .error halt => (symbols, .halted halt)
      else (symbols, .value h)
termination_by c.rest.length
decreasing_by
  · exact Scan.topItemShortens _ _ _ ‹_›
  · exact Scan.topItemShortens _ _ _ ‹_›
  · have shorter := Scan.topItemAfter ‹_›
    have after := Header.afterShorter h
    omega

theorem nextTopScanned {c c' : Cursor} {found : TopItem}
    (scan : Scan.topItem c = .ok found c') (catalog : Catalog) (symbols : SymbolTable) :
    nextTop catalog symbols c =
      match found with
      | .marker => nextTop catalog .system c'
      | .padding => nextTop catalog symbols c'
      | .value h =>
        if h.isTable then
          match symbols.load catalog h with
          | .ok symbols => nextTop catalog symbols h.after
          | .error halt => (symbols, .halted halt)
        else (symbols, .value h) := by
  rw [nextTop, if_neg (Scan.topItemStarted scan)]
  split <;> rename_i read <;> rw [scan] at read <;> cases read <;> rfl

theorem nextTopShorter {catalog : Catalog} {symbols symbols' : SymbolTable} {c : Cursor} {h : Header}
    (found : nextTop catalog symbols c = (symbols', .value h)) :
    h.start.rest.length < c.rest.length := by
  fun_induction nextTop catalog symbols c with
  | case1 => simp at found
  | case2 => simp at found
  | case3 symbols c inside c1 marker ih =>
    have shorter := Scan.topItemShortens _ _ _ marker
    have later := ih found
    omega
  | case4 symbols c inside c1 padding ih =>
    have shorter := Scan.topItemShortens _ _ _ padding
    have later := ih found
    omega
  | case5 symbols c inside h1 c1 item table loaded load ih =>
    have shorter := Scan.topItemAfter item
    have after := h1.afterShorter
    have later := ih found
    omega
  | case6 => simp at found
  | case7 symbols c inside h1 c1 item table =>
    simp only [Prod.mk.injEq, TopStep.value.injEq] at found
    rw [← found.2]
    exact Scan.topItemAfter item

namespace Reader

def of (catalog : Catalog) (data : Bytes) : Except IonError Reader :=
  if versionMarker.isPrefixOf data then
    .ok ⟨catalog, .system, [], .before (.ofBytes data)⟩
  else .error .badVersionMarker

abbrev Call (α : Type) := EStateM IonError Reader α

def halt (r : Reader) (h : Halt) : Reader :=
  { r with inside := h.inside ++ r.inside, position := h.position }

def advance (c : Cursor) : Call (Option ValueType) := fun r =>
  match r.inside with
  | [] =>
    match nextTop r.catalog r.symbols c with
    | (symbols, .exhausted c) => .ok none { r with symbols, position := .exhausted c }
    | (symbols, .halted h) => .error h.error { r.halt h with symbols }
    | (symbols, .value h) => .ok (some h.type) { r with symbols, position := .on h none }
  | entered :: _ =>
    match nextChild entered.container c with
    | .exhausted c => .ok none { r with position := .exhausted c }
    | .failed e c => .error e { r with position := .before c }
    | .value h => .ok (some h.type) { r with position := .on h none }

def next : Call (Option ValueType) := fun r =>
  match r.position with
  | .exhausted _ => .ok none r
  | .before c => advance c r
  | .on h _ => advance h.after r

inductive Phase
  | beforeValue
  | onValue
  | exhausted
  deriving DecidableEq, Repr

def phase (r : Reader) : Phase :=
  match r.position with
  | .before _ => .beforeValue
  | .on _ _ => .onValue
  | .exhausted _ => .exhausted

def current? (r : Reader) : Option Header :=
  match r.position with
  | .on h _ => some h
  | _ => none

def stepIn : Call Unit := fun r =>
  match r.current? with
  | none => .error .noCurrentValue r
  | some h =>
    match h.type.container? with
    | none => .error (.notContainer h.type) r
    | some c =>
      if h.isNull then .error .nullValue r
      else .ok () { r with inside := ⟨c, h.after⟩ :: r.inside, position := .before h.body }

def stepOut : Call Unit := fun r =>
  match r.inside with
  | [] => .error .atTopLevel r
  | entered :: rest => .ok () { r with inside := rest, position := .before entered.resume }

def depth (r : Reader) : Nat := r.inside.length

def currentType? (r : Reader) : Option ValueType := r.current?.map Header.type

def currentIsNull (r : Reader) : Bool :=
  match r.current? with
  | some h => h.isNull
  | none => false

def fieldName? (r : Reader) : Option String :=
  (r.current?.bind Header.field).bind r.symbols.text?

def fieldToken? (r : Reader) : Option SymbolToken :=
  (r.current?.bind Header.field).map r.symbols.token

def annotations (r : Reader) : List SymbolToken :=
  match r.current? with
  | some h => h.annotations.map r.symbols.token
  | none => []

def header (r : Reader) (expected : Expectation) : Except IonError Header :=
  match r.current? with
  | none => .error .noCurrentValue
  | some h =>
    if expected.admits h.type then if h.isNull then .error .nullValue else .ok h
    else .error (.typeMismatch expected h.type)

def scalar (type : ValueType) : Call Variant := fun r =>
  match r.header (.type type) with
  | .error e => .error e r
  | .ok h =>
    match r.position with
    | .on _ (some s) => .ok (some s) r
    | _ =>
      match h.scalar with
      | .ok s => .ok (some s) { r with position := .on h (some s) }
      | .error e => .error e r

def getting (type : ValueType) (get : Variant → Option α) (e : IonError) : Call α := do
  match get (← scalar type) with
  | some a => return a
  | none => throw e

def bool : Call Bool := getting .bool Variant.bool? .nullValue

def int : Call Int32 := getting .int Variant.int? .numericOverflow

def long : Call Int64 := getting .int Variant.long? .numericOverflow

def integer : Call Int := getting .int Variant.integer? .numericOverflow

def double : Call Binary64 := getting .float Variant.double? .nullValue

def decimal : Call Decimal := getting .decimal Variant.decimal? .nullValue

def timestamp : Call Timestamp := getting .timestamp Variant.timestamp? .nullValue

def string : Call String := getting .string Variant.string? .nullValue

def integerSize : Call IntegerSize := fun r =>
  if r.currentType? = some .int ∧ r.currentIsNull = false then
    (do return (← scalar .int).integerSize : Call IntegerSize) r
  else .ok .unknown r

def symbol (r : Reader) : Except IonError SymbolToken := do
  let h ← r.header (.type .symbol)
  let sid ← Payload.symbol h.payload
  return r.symbols.token sid

def lob (r : Reader) : Except IonError Bytes := do
  let h ← r.header .lob
  return h.payload

def lobSize (r : Reader) : Except IonError Nat := do
  let h ← r.header .lob
  return h.length

end Reader

end Ion

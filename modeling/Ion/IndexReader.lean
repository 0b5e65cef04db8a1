import Ion.Reader
import Ion.Window

/-!
The reader with its storage. The window on the data, the ends of the containers around it, the mark
whether it is at a value, the header of that value and the slot for its scalar are kept apart, and a
call sets them one after the other: one that fails leaves what it has set until then. A loop that
would need more rounds than it is given stops without a result.
-/
namespace Ion

structure ContainerFrame where
  type : ValueType
  parentStop : Nat
  resume : Nat
  deriving DecidableEq, Repr

structure IndexReader where
  input : Window
  catalog : Catalog
  symbols : SymbolTable
  -- innermost first
  stack : List ContainerFrame
  state : Reader.Phase
  current : Option ValueHeader
  slot : Variant
  deriving DecidableEq

namespace ValueHeader

def isTable (h : ValueHeader) : Bool :=
  h.type == .struct && !h.isNull && h.annotations.head? == some Sid.symbolTable

def decode (h : ValueHeader) (type : ValueType) (raw : Bytes) : Except (Fault IonError) Scalar :=
  match type with
  | .bool => .ok (.bool (h.lengthCode == 1))
  | .int => (Payload.int (h.typeCode == negativeCode) raw).mapError .failed
  | .float => ((Payload.float raw).map .double).mapError .failed
  | .decimal => (Window.decimal raw).map .decimal
  | .timestamp => (Window.timestamp raw).map .timestamp
  | .string => ((Payload.text raw).map .string).mapError .failed
  | other => .error (.failed (.typeMismatch .scalar other))

end ValueHeader

namespace IndexReader

abbrev Call (α : Type) := EStateM (Fault IonError) IndexReader α

def build (catalog : Catalog) (data : Bytes) : Except IonError IndexReader :=
  if versionMarker.isPrefixOf data then
    .ok ⟨.ofBytes data, catalog, .system, [], .beforeValue, none, none⟩
  else .error .badVersionMarker

def scope (s : IndexReader) : Option ValueType := s.stack.head?.map ContainerFrame.type

def scan (act : Window.Scan α) : Call α := fun s =>
  match act s.input with
  | .ok a input => .ok a { s with input }
  | .error e input => .error e { s with input }

def readMarker : Call (Option ValueHeader) := do
  let marker ← scan (Window.lift (Window.bytes 4))
  if marker = versionMarker then
    modify fun s => { s with symbols := .system }
    return none
  else throw (.failed .badVersionMarker)

def readHeader : Call (Option ValueHeader) := fun s =>
  match s.scope with
  | none => (do if (← scan (Window.lift Window.peek)) = 0xE0 then readMarker else scan (Window.item none) :
      Call (Option ValueHeader)) s
  | some type => scan (Window.item (some type)) s

def readItem : Call (Option ValueHeader) := fun s =>
  if s.stack = [] then readHeader s
  else readHeader.adaptExcept (Fault.map (childError s.input.pos)) s

def stepIn : Call Unit := fun s =>
  match s.current with
  | none => .error (.failed .noCurrentValue) s
  | some h =>
    if h.type.isContainer = false then .error (.failed (.notContainer h.type)) s
    else if h.isNull then .error (.failed .nullValue) s
    else
      .ok () { s with
        stack := ⟨h.type, s.input.stop, h.stop⟩ :: s.stack
        input := ⟨s.input.data, h.start, h.stop⟩
        current := none
        slot := none
        state := .beforeValue }

def stepOut : Call Unit := fun s =>
  match s.stack with
  | [] => .error (.failed .atTopLevel) s
  | frame :: outer =>
    .ok () { s with
      stack := outer
      input := ⟨s.input.data, frame.resume, frame.parentStop⟩
      current := none
      slot := none
      state := .beforeValue }

def depth (s : IndexReader) : Nat := s.stack.length

def currentType? (s : IndexReader) : Option ValueType := s.current.map ValueHeader.type

def currentIsNull (s : IndexReader) : Bool := s.current.any ValueHeader.isNull

def field? (s : IndexReader) : Option Nat := s.current.bind ValueHeader.field

def fieldName? (s : IndexReader) : Option String := s.field?.bind s.symbols.text?

def fieldToken? (s : IndexReader) : Option SymbolToken := s.field?.map s.symbols.token

def annotations (s : IndexReader) : List SymbolToken :=
  match s.current with
  | some h => h.annotations.map s.symbols.token
  | none => []

def header (s : IndexReader) (expected : Expectation) : Except (Fault IonError) ValueHeader :=
  match s.current with
  | none => .error (.failed .noCurrentValue)
  | some h =>
    if expected.admits h.type then if h.isNull then .error (.failed .nullValue) else .ok h
    else .error (.failed (.typeMismatch expected h.type))

def payload (s : IndexReader) (h : ValueHeader) : Except (Fault IonError) Bytes :=
  match s.input.data.slice? h.start h.stop with
  | some raw => .ok raw
  | none => .error .outOfBounds

def materialize (type : ValueType) : Call Unit := fun s =>
  match s.header (.type type) with
  | .error e => .error e s
  | .ok h =>
    if s.slot.isSome then .ok () s
    else
      match s.payload h >>= h.decode type with
      | .ok scalar => .ok () { s with slot := some scalar }
      | .error e => .error e s

def getting (type : ValueType) (form : Variant → Option α) (e : IonError) : Call α := do
  materialize type
  match form (← get).slot with
  | some a => return a
  | none => throw (.failed e)

def bool : Call Bool := getting .bool Variant.bool? .nullValue

def int : Call Int32 := getting .int Variant.int? .numericOverflow

def long : Call Int64 := getting .int Variant.long? .numericOverflow

def integer : Call Int := getting .int Variant.integer? .numericOverflow

def double : Call Binary64 := getting .float Variant.double? .nullValue

def decimal : Call Decimal := getting .decimal Variant.decimal? .nullValue

def timestamp : Call Timestamp := getting .timestamp Variant.timestamp? .nullValue

def string : Call String := getting .string Variant.string? .nullValue

def integerSize : Call IntegerSize := fun s =>
  if s.currentType? = some .int ∧ s.currentIsNull = false then
    (do
      materialize .int
      return (← get).slot.integerSize : Call IntegerSize) s
  else .ok .unknown s

def symbol (s : IndexReader) : Except (Fault IonError) SymbolToken := do
  let h ← s.header (.type .symbol)
  let raw ← s.payload h
  let sid ← (Payload.symbol raw).mapError .failed
  return s.symbols.token sid

def symbolToken : Call SymbolToken := fun s =>
  match s.symbol with
  | .ok token => .ok token s
  | .error e => .error e s

def lob (s : IndexReader) : Except (Fault IonError) Bytes := do
  let h ← s.header .lob
  s.payload h

def lobSize (s : IndexReader) : Except (Fault IonError) Nat := do
  let h ← s.header .lob
  return h.stop - h.start

def attempt (call : Call α) : Call (Option α) := fun s =>
  match call s with
  | .ok a s => .ok (some a) s
  | .error (.failed _) s => .ok none s
  | .error fault s => .error fault s

def importMember (entry : ImportEntry) (type : ValueType) : Call ImportEntry := do
  let s ← get
  if s.currentIsNull then return entry
  else if s.field? = some Sid.name ∧ type = .string then return { entry with name := some (← string) }
  else if s.field? = some Sid.version ∧ type = .int then return { entry with version := ← attempt long }
  else if s.field? = some Sid.maxId ∧ type = .int then return { entry with maxId := ← attempt long }
  else return entry

def localSymbol (symbols : List (Option String)) (type : ValueType) : Call (List (Option String)) := do
  let s ← get
  if type = .string ∧ s.currentIsNull = false then return symbols ++ [some (← string)]
  else return symbols ++ [none]

section

variable (step : Call (Option ValueType))

def each (visit : σ → ValueType → Call σ) : Nat → σ → Call σ
  | 0, _ => throw .outOfRounds
  | rounds + 1, a => do
    match ← step with
    | none => return a
    | some type => each visit rounds (← visit a type)

def entering (visit : σ → ValueType → Call σ) (rounds : Nat) (a : σ) : Call σ := do
  stepIn
  let a ← each step visit rounds a
  stepOut
  return a

def importEntry (rounds : Nat) (entries : List ImportEntry) (type : ValueType) :
    Call (List ImportEntry) := do
  let s ← get
  if type = .struct ∧ s.currentIsNull = false then
    let entry ← entering step importMember rounds ⟨none, none, none⟩
    return entries ++ [entry]
  else return entries

def tableMember (rounds : Nat) (entry : TableEntry) (type : ValueType) : Call TableEntry := do
  let s ← get
  if s.currentIsNull then return entry
  else if s.field? = some Sid.imports ∧ type = .symbol then
    return { entry with append := (← symbolToken).sid == some Sid.symbolTable }
  else if s.field? = some Sid.imports ∧ type = .list then
    return { entry with imports := ← entering step (importEntry step rounds) rounds [] }
  else if s.field? = some Sid.symbols ∧ type = .list then
    return { entry with symbols := ← entering step localSymbol rounds [] }
  else return entry

end

def resolve (entries : List ImportEntry) : Call Imports := fun s =>
  match entries.foldlM (ImportEntry.addTo s.catalog) .system with
  | .ok imports => .ok imports s
  | .error fault => .error (.failed (.badSymbolTable fault)) s

def extend (imports : Option Imports) (added : List (Option String)) : Call Unit := fun s =>
  let base := (imports.map Imports.maxId).getD s.symbols.maxId
  if base + added.length ≤ Sid.last then
    let table := (imports.map SymbolTable.ofImports).getD s.symbols
    .ok () { s with symbols := added.foldl (fun table text => (table.pushLocal text).2) table }
  else .error (.failed (.badSymbolTable (.localRange added.length base))) s

def install (entry : TableEntry) : Call Unit := do
  let imports ← if entry.append then pure none else some <$> resolve entry.imports
  extend imports entry.symbols

def loadTable (step : Call (Option ValueType)) (rounds : Nat) : Call Unit := do
  install (← entering step (tableMember step rounds) rounds ⟨false, [], []⟩)

def leave : Call Unit := fun s =>
  match s.current with
  | some h =>
    .ok () { s with
      input := { s.input with pos := h.stop }
      current := none
      slot := none
      state := .beforeValue }
  | none => .ok () { s with slot := none, state := .beforeValue }

def nextBy (seek : Call (Option ValueType)) : Call (Option ValueType) := do
  if (← get).state = .exhausted then return none
  else
    leave
    seek

def seek : Nat → Call (Option ValueType)
  | 0 => throw .outOfRounds
  | rounds + 1 => do
    let s ← get
    if s.input.stop ≤ s.input.pos then
      set { s with state := .exhausted }
      return none
    else
      match ← readItem with
      | none => seek rounds
      | some h =>
        modify fun s => { s with current := some h, state := .onValue }
        if s.stack = [] ∧ h.isTable then
          loadTable (nextBy (seek rounds)) rounds
          seek rounds
        else return some h.type

def next : Call (Option ValueType) := fun s => nextBy (seek (s.input.data.length + 1)) s

end IndexReader

end Ion

import Ion.SidWriter
import Ion.Symbol.Table

/-!
The writer of whole datagrams: names, annotations and symbols may be given as text. Texts become
local symbols, and a flush declares the new ones in front of the values: after the version marker
in the first flush of a session, as an addition to the table in force in later ones. Finishing
ends the session.
-/
namespace Ion

structure SessionWriter where
  user : SidWriter
  -- takes version markers and symbol tables, which go out first
  system : SidWriter
  symbols : SymbolTable
  -- local symbols declared so far
  declared : Nat
  -- whether the session has a symbol table to add to
  tableWritten : Bool
  sessionOpen : Bool
  deriving DecidableEq, Repr

def focus (get : σ → τ) (set : τ → σ → σ) (act : EStateM ε τ α) : EStateM ε σ α := fun s =>
  match act (get s) with
  | .ok a t => .ok a (set t s)
  | .error e t => .error e (set t s)

namespace SessionWriter

def empty (blockSize : Nat) (imports : List SharedTable) : SessionWriter :=
  ⟨.empty blockSize, .empty blockSize, .ofImports (.ofTables imports), 0, false, false⟩

def endSession (w : SessionWriter) : SessionWriter :=
  { w with
    symbols := .ofImports w.symbols.imports
    declared := 0
    tableWritten := false
    sessionOpen := false }

def reset (w : SessionWriter) : SessionWriter :=
  { w with user := w.user.reset, system := w.system.reset }.endSession

abbrev Call (α : Type) := EStateM IonError SessionWriter α

def onUser (call : SidWriter.Call α) : Call α := focus user (fun u w => { w with user := u }) call

def onSystem (call : SidWriter.Call α) : Call α :=
  focus system (fun s w => { w with system := s }) call

def intern (text : String) : Call Nat := fun w =>
  let (sid, symbols) := w.symbols.intern text
  .ok sid { w with symbols }

def resolve (token : SymbolToken) : Call Nat :=
  match token.sid, token.text with
  | some sid, _ => return sid
  | none, some text => intern text
  | none, none => throw .emptyToken

def setField (name : String) : Call Unit := do
  if (← get).user.inStruct then
    let sid ← intern name
    onUser (SidWriter.setField sid)
  else onUser (SidWriter.setField 0)

def setFieldToken (token : SymbolToken) : Call Unit := do
  let sid ← resolve token
  onUser (SidWriter.setField sid)

def addAnnotation (text : String) : Call Unit := do
  let sid ← intern text
  onUser (SidWriter.addAnnotation sid)

def addAnnotationToken (token : SymbolToken) : Call Unit := do
  let sid ← resolve token
  onUser (SidWriter.addAnnotation sid)

def setAnnotations (texts : List String) : Call Unit := do
  let sids ← texts.mapM intern
  onUser (SidWriter.setAnnotations sids)

def clearAnnotations (w : SessionWriter) : SessionWriter :=
  { w with user := w.user.clearAnnotations }

def stepIn (type : ValueType) : Call Unit := onUser (SidWriter.stepIn type)

def stepOut : Call Unit := onUser SidWriter.stepOut

def write (a : Atom) : Call Unit := onUser (SidWriter.write a)

def writeSymbol (text : String) : Call Unit := do
  let sid ← intern text
  write (.symbol sid)

def writeSymbolToken (token : SymbolToken) : Call Unit := do
  let sid ← resolve token
  write (.symbol sid)

def member (sid : Nat) (a : Atom) : SidWriter.Call Unit := do
  SidWriter.setField sid
  SidWriter.write a

def memberList (sid : Nat) (items : List α) (item : α → SidWriter.Call Unit) :
    SidWriter.Call Unit := do
  if !items.isEmpty then
    SidWriter.setField sid
    SidWriter.stepIn .list
    items.forM item
    SidWriter.stepOut

def importEntry (l : Layer) : SidWriter.Call Unit := do
  SidWriter.stepIn .struct
  member Sid.name (.string l.table.name)
  member Sid.version (.int l.table.version)
  member Sid.maxId (.int l.length)
  SidWriter.stepOut

def symbolEntry : Option String → SidWriter.Call Unit
  | some text => SidWriter.write (.string text)
  | none => SidWriter.write (.null .string)

def writeTable (append : Bool) (imports : List Layer) (added : List (Option String)) :
    SidWriter.Call Unit := do
  SidWriter.addAnnotation Sid.symbolTable
  SidWriter.stepIn .struct
  if append then member Sid.imports (.symbol Sid.symbolTable)
  else memberList Sid.imports imports importEntry
  memberList Sid.symbols added symbolEntry
  SidWriter.stepOut

def undeclared (w : SessionWriter) : List (Option String) := w.symbols.locals.drop w.declared

def needsTable (w : SessionWriter) : Bool :=
  (!w.tableWritten && !w.symbols.imports.added.isEmpty) || !w.undeclared.isEmpty

def declareSymbols : Call Unit := do
  let w ← get
  onSystem (writeTable w.tableWritten w.symbols.imports.added w.undeclared)
  modify fun w => { w with declared := w.symbols.locals.length, tableWritten := true }

def prepare : Call Unit := do
  onUser SidWriter.checkFlushable
  if !(← get).sessionOpen then
    onSystem SidWriter.writeVersionMarker
    modify fun w => { w with sessionOpen := true }
  if (← get).needsTable then declareSymbols

def flush : EStateM IonError (SessionWriter × Sink) Nat := do
  focus Prod.fst (fun w s => (w, s.2)) prepare
  let first ← focus (fun s : SessionWriter × Sink => (s.1.system, s.2))
    (fun t s => ({ s.1 with system := t.1 }, t.2)) SidWriter.flush
  let second ← focus (fun s : SessionWriter × Sink => (s.1.user, s.2))
    (fun t s => ({ s.1 with user := t.1 }, t.2)) SidWriter.flush
  focus Prod.snd (fun k s => (s.1, k)) (Sink.flush.adaptExcept IonError.output)
  return first + second

def finish : EStateM IonError (SessionWriter × Sink) Nat := do
  let written ← flush
  modify fun s => (s.1.endSession, s.2)
  return written

end SessionWriter

end Ion

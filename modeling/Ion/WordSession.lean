import Ion.Register
import Ion.SessionWriter
import Ion.WordSymbols

/-!
The writer of whole datagrams with its symbols in words. A text that needs a symbol ID behind the greatest
stops all work. Calls without texts ask for no symbol ID and go through the writer on numbers.
-/
namespace Ion

def WordChain.imported : WordChain → List Layer
  | root _ _ => []
  | above below table _ length =>
    below.imported ++ [⟨⟨table.name, table.version.toNat, table.slots, table.maxId.toNat⟩, length.toNat⟩]

def WordSymbols.view (t : WordSymbols) : SymbolTable := ⟨⟨t.imports.imported⟩, t.locals⟩

def WordStop.trap : WordStop → Trap
  | overflow => .overflow
  | refused fault => .refused (.badSymbolTable fault)

structure WordSession where
  user : SidWriter
  system : SidWriter
  symbols : WordSymbols
  declared : Nat
  tableWritten : Bool
  sessionOpen : Bool

namespace WordSession

def build (blockSize : Nat) (tables : List IndexedTable) : Except WordStop WordSession := do
  let chain ← WordChain.build (tables.map fun t => (t, .ofNat t.maxId))
  return ⟨.empty blockSize, .empty blockSize, .ofImports chain, 0, false, false⟩

def view (w : WordSession) : SessionWriter :=
  ⟨w.user, w.system, w.symbols.view, w.declared, w.tableWritten, w.sessionOpen⟩

def put (v : SessionWriter) (w : WordSession) : WordSession :=
  ⟨v.user, v.system, w.symbols, v.declared, v.tableWritten, v.sessionOpen⟩

abbrev Call (α : Type) := EStateM Trap WordSession α

def plain (call : SessionWriter.Call α) : Call α := (focus view put call).adaptExcept .refused

def onUser (call : SidWriter.Call α) : Call α := plain (SessionWriter.onUser call)

def intern (text : String) : Call Nat := fun w =>
  match w.symbols.intern text with
  | .ok (sid, symbols) => .ok sid.toNat { w with symbols }
  | .error stop => .error stop.trap w

def resolve (token : SymbolToken) : Call Nat :=
  match token.sid, token.text with
  | some sid, _ => return sid
  | none, some text => intern text
  | none, none => throw (.refused .emptyToken)

def setField (name : String) : Call Unit := do
  if (← get).user.inStruct then
    let sid ← intern name
    onUser (SidWriter.setField sid)
  else onUser (SidWriter.setField 0)

def setFieldToken (token : SymbolToken) : Call Unit := do
  let sid ← resolve token
  onUser (SidWriter.setField sid)

def addAnnotation (text : String) : Call Unit := do
  let sid ← intern text
  onUser (SidWriter.addAnnotation sid)

def addAnnotationToken (token : SymbolToken) : Call Unit := do
  let sid ← resolve token
  onUser (SidWriter.addAnnotation sid)

def setAnnotations (texts : List String) : Call Unit := do
  let sids ← texts.mapM intern
  onUser (SidWriter.setAnnotations sids)

def clearAnnotations (w : WordSession) : WordSession := { w with user := w.user.clearAnnotations }

def writeSymbol (text : String) : Call Unit := do
  let sid ← intern text
  onUser (SidWriter.write (.symbol sid))

def writeSymbolToken (token : SymbolToken) : Call Unit := do
  let sid ← resolve token
  onUser (SidWriter.write (.symbol sid))

def endSession (w : WordSession) : WordSession :=
  { w with
    symbols := .ofImports w.symbols.imports
    declared := 0
    tableWritten := false
    sessionOpen := false }

def reset (w : WordSession) : WordSession :=
  { w with user := w.user.reset, system := w.system.reset }.endSession

def flush : EStateM Trap (WordSession × Sink) Nat :=
  (focus (fun s => (s.1.view, s.2)) (fun t s => (put t.1 s.1, t.2)) SessionWriter.flush).adaptExcept .refused

def finish : EStateM Trap (WordSession × Sink) Nat := do
  let written ← flush
  modify fun s => (s.1.endSession, s.2)
  return written

end WordSession

end Ion

import Ion.Symbol.Table
import Ion.Wire.Walk

/-!
Local symbol tables: the structs in a datagram that say which symbols the following values use.
Such a struct names tables to import, or asks to add to the table in force, and lists new
symbols. The last of several members with one name counts.
-/
namespace Ion

structure ImportEntry where
  name : Option String
  version : Option Int64
  maxId : Option Int64
  deriving DecidableEq, Repr

structure TableEntry where
  -- adds to the table in force
  append : Bool
  imports : List ImportEntry
  symbols : List (Option String)
  deriving DecidableEq, Repr

def Header.isTable (h : Header) : Bool :=
  h.type == .struct && !h.isNull && h.annotations.head? == some Sid.symbolTable

namespace ImportEntry

def number? (h : Header) : Option Int64 :=
  match Payload.int (highNibble h.descriptor == negativeCode) h.payload with
  | .ok s => Variant.long? (some s)
  | .error _ => none

def member (entry : ImportEntry) (h : Header) : Except Halt ImportEntry :=
  if h.isNull then .ok entry
  else
    let field := h.field.getD 0
    if field = Sid.name ∧ h.type = .string then do
      let name ← h.decode Payload.text
      return { entry with name := some name }
    else if field = Sid.version ∧ h.type = .int then .ok { entry with version := number? h }
    else if field = Sid.maxId ∧ h.type = .int then .ok { entry with maxId := number? h }
    else .ok entry

def collect (entries : List ImportEntry) (h : Header) : Except Halt (List ImportEntry) :=
  if h.type = .struct ∧ h.isNull = false then do
    let entry ← h.fold .struct ⟨none, none, none⟩ member
    return entries ++ [entry]
  else .ok entries

def usedVersion (entry : ImportEntry) : Nat :=
  match entry.version with
  | some v => if 1 ≤ v.toInt ∧ v.toInt ≤ Sid.last then v.toInt.toNat else 1
  | none => 1

def usedMaxId (entry : ImportEntry) (name : String) : Except TableFault (Option Nat) :=
  match entry.maxId with
  | none => .ok none
  | some m =>
    if 0 ≤ m.toInt ∧ m.toInt ≤ Sid.last then .ok (some m.toInt.toNat)
    else .error (.maxId m.toInt name)

/-- The layer for an import. Without the exact table the entry has to say how many symbol IDs it
takes; the greatest version known then stands in for the table, or one without texts. -/
def layer (catalog : Catalog) (name : String) (version : Nat) (maxId : Option Nat) :
    Except TableFault Layer :=
  match catalog.version? name version, maxId with
  | some table, some length => .ok ⟨table, length⟩
  | some table, none => .ok (.whole table)
  | none, none => .error (.unresolved name version)
  | none, some length => .ok ⟨(catalog.get? name version).getD (.placeholder name version length), length⟩

def addTo (catalog : Catalog) (imports : Imports) (entry : ImportEntry) : Except TableFault Imports :=
  match entry.name with
  | none => .ok imports
  | some name =>
    if name = "" ∨ name = "$ion" then .ok imports
    else do
      let maxId ← entry.usedMaxId name
      let layer ← layer catalog name entry.usedVersion maxId
      match imports.push? layer with
      | some imports => return imports
      | none => throw (.layerRange layer.length name)

end ImportEntry

namespace TableEntry

def symbol (symbols : List (Option String)) (h : Header) : Except Halt (List (Option String)) :=
  if h.type = .string ∧ h.isNull = false then do
    let text ← h.decode Payload.text
    return symbols ++ [some text]
  else .ok (symbols ++ [none])

def member (entry : TableEntry) (h : Header) : Except Halt TableEntry :=
  if h.isNull then .ok entry
  else
    let field := h.field.getD 0
    if field = Sid.imports ∧ h.type = .symbol then do
      let sid ← h.decode Payload.symbol
      return { entry with append := sid == Sid.symbolTable }
    else if field = Sid.imports ∧ h.type = .list then do
      let imports ← h.fold .list [] ImportEntry.collect
      return { entry with imports }
    else if field = Sid.symbols ∧ h.type = .list then do
      let symbols ← h.fold .list [] symbol
      return { entry with symbols }
    else .ok entry

def read (h : Header) : Except Halt TableEntry := h.fold .struct ⟨false, [], []⟩ member

def base (catalog : Catalog) (current : SymbolTable) (entry : TableEntry) :
    Except TableFault SymbolTable :=
  if entry.append then .ok current
  else (entry.imports.foldlM (ImportEntry.addTo catalog) .system).map SymbolTable.ofImports

def install (catalog : Catalog) (current : SymbolTable) (entry : TableEntry) :
    Except TableFault SymbolTable := do
  let base ← entry.base catalog current
  if base.maxId + entry.symbols.length ≤ Sid.last then
    return { base with locals := base.locals ++ entry.symbols }
  else throw (.localRange entry.symbols.length base.maxId)

end TableEntry

def SymbolTable.load (catalog : Catalog) (current : SymbolTable) (h : Header) :
    Except Halt SymbolTable := do
  let entry ← TableEntry.read h
  (entry.install catalog current).mapError fun fault => .before (.badSymbolTable fault) h.after

end Ion

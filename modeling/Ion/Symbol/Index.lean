import Std.Data.HashMap
import Ion.Symbol.Table

/-!
Catalogs and symbol tables with their indexes. In a catalog the tables of a name stand together, in the
order of their versions. Beside its slots a table keeps where each text stands first, and a lookup asks
the index only. Imported tables form a chain, each on the symbol IDs behind those below.
-/
namespace Ion

structure IndexedCatalog where
  byName : Std.HashMap String (List SharedTable)

namespace IndexedCatalog

def empty : IndexedCatalog := ⟨∅⟩

def versions (c : IndexedCatalog) (name : String) : List SharedTable := c.byName[name]?.getD []

def put (c : IndexedCatalog) (t : SharedTable) : IndexedCatalog :=
  let others := (c.versions t.name).filter fun u => u.version != t.version
  ⟨c.byName.insert t.name ((others ++ [t]).mergeSort fun a b => a.version ≤ b.version)⟩

def ofTables (tables : List SharedTable) : IndexedCatalog := tables.foldl put empty

def version? (c : IndexedCatalog) (name : String) (version : Nat) : Option SharedTable :=
  c.byName[name]?.bind fun tables => tables.find? fun t => t.version == version

def get? (c : IndexedCatalog) (name : String) (version : Nat) : Option SharedTable :=
  match c.version? name version with
  | some t => some t
  | none => c.byName[name]?.bind List.getLast?

end IndexedCatalog

abbrev TextIndex := Std.HashMap String Nat

namespace TextIndex

def note (index : TextIndex) (slot : Option String) (place : Nat) : TextIndex :=
  match slot with
  | some text => index.insertIfNew text place
  | none => index

def noteAll (index : TextIndex) (place : Nat) : List (Option String) → TextIndex
  | [] => index
  | slot :: rest => noteAll (index.note slot place) (place + 1) rest

end TextIndex

structure IndexedTable extends SharedTable where
  byText : TextIndex
  indexed : byText = TextIndex.noteAll ∅ 1 slots

namespace IndexedTable

def ofSlots (name : String) (version : Nat) (slots : List (Option String)) : IndexedTable :=
  ⟨⟨name, version, slots, slots.length⟩, _, rfl⟩

def placeholder (name : String) (version maxId : Nat) : IndexedTable :=
  { ofSlots name version [] with maxId := maxId }

def place? (t : IndexedTable) (text : String) : Option Nat := t.byText[text]?

end IndexedTable

inductive ImportChain
  | nothing
  | layer (below : ImportChain) (table : IndexedTable) (length : Nat)

namespace ImportChain

def maxId : ImportChain → Nat
  | nothing => 0
  | layer below _ length => below.maxId + length

def find? (text : String) : ImportChain → Option Nat
  | nothing => none
  | layer below table length =>
    match below.find? text with
    | some sid => some sid
    | none => ((table.place? text).filter (· ≤ length)).map (below.maxId + ·)

def text? (sid : Nat) : ImportChain → Option String
  | nothing => none
  | layer below table length =>
    if sid ≤ below.maxId then below.text? sid
    else if below.maxId + length < sid then none
    else table.text? (sid - below.maxId)

def layers : ImportChain → List (Nat × Layer)
  | nothing => []
  | layer below table length => below.layers ++ [(below.maxId + 1, ⟨table.toSharedTable, length⟩)]

end ImportChain

structure IndexedSymbols where
  imports : ImportChain
  locals : List (Option String)
  byText : TextIndex

namespace IndexedSymbols

def ofImports (imports : ImportChain) : IndexedSymbols := ⟨imports, [], ∅⟩

def firstLocal (t : IndexedSymbols) : Nat := t.imports.maxId + 1

def maxId (t : IndexedSymbols) : Nat := t.imports.maxId + t.locals.length

def find? (t : IndexedSymbols) (text : String) : Option Nat :=
  match t.imports.find? text with
  | some sid => some sid
  | none => t.byText[text]?

def pushLocal (t : IndexedSymbols) (text : Option String) : Nat × IndexedSymbols :=
  (t.maxId + 1,
    { t with locals := t.locals ++ [text], byText := t.byText.note text (t.maxId + 1) })

def intern (t : IndexedSymbols) (text : String) : Nat × IndexedSymbols :=
  match t.find? text with
  | some sid => (sid, t)
  | none => t.pushLocal (some text)

def text? (t : IndexedSymbols) (sid : Nat) : Option String :=
  if sid ≤ t.imports.maxId then t.imports.text? sid
  else t.locals[sid - t.firstLocal]?.join

end IndexedSymbols

end Ion

/-!
Symbol IDs, shared symbol tables and catalogs. ID 0 is reserved and has no text; the next nine every
datagram knows. A shared table is a named, versioned list of texts at positions from 1. A slot may lack
text; a placeholder has a size and no slots. A catalog has the shared tables that a reader may import,
at most one for a name and version.
-/
namespace Ion

def systemSymbols : List String :=
  ["", "$ion", "$ion_1_0", "$ion_symbol_table", "name", "version", "imports", "symbols", "max_id",
    "$ion_shared_symbol_table"]

namespace Sid

def symbolTable : Nat := 3
def name : Nat := 4
def version : Nat := 5
def imports : Nat := 6
def symbols : Nat := 7
def maxId : Nat := 8

def last : Nat := 0xFFFFFFFF

end Sid

structure SharedTable where
  name : String
  version : Nat
  slots : List (Option String)
  -- positions the table covers
  maxId : Nat
  deriving DecidableEq, Repr

namespace SharedTable

def ofTexts (name : String) (version : Nat) (texts : List String) : SharedTable :=
  ⟨name, version, texts.map some, texts.length⟩

def placeholder (name : String) (version maxId : Nat) : SharedTable := ⟨name, version, [], maxId⟩

def position? (t : SharedTable) (text : String) : Option Nat :=
  (t.slots.idxOf? (some text)).map (· + 1)

def text? (t : SharedTable) (position : Nat) : Option String :=
  match position with
  | 0 => none
  | i + 1 => t.slots[i]?.join

end SharedTable

def SharedTable.system : SharedTable := .ofTexts "$ion" 1 systemSymbols.tail

structure Catalog where
  tables : List SharedTable
  deriving DecidableEq, Repr

namespace Catalog

def empty : Catalog := ⟨[]⟩

def insertByVersion (t : SharedTable) : List SharedTable → List SharedTable
  | [] => [t]
  | u :: rest => if t.version < u.version then t :: u :: rest else u :: insertByVersion t rest

def put (c : Catalog) (t : SharedTable) : Catalog :=
  ⟨insertByVersion t (c.tables.filter fun u => !(u.name == t.name && u.version == t.version))⟩

def ofTables (tables : List SharedTable) : Catalog := tables.foldl put empty

def versions (c : Catalog) (name : String) : List SharedTable :=
  c.tables.filter fun t => t.name == name

def version? (c : Catalog) (name : String) (version : Nat) : Option SharedTable :=
  (c.versions name).find? fun t => t.version == version

def get? (c : Catalog) (name : String) (version : Nat) : Option SharedTable :=
  match c.version? name version with
  | some t => some t
  | none => (c.versions name).getLast?

end Catalog

end Ion

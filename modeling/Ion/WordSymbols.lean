import Ion.LocalTable
import Ion.Symbol.Index

/-!
Symbol tables on words of 32 bits. A sum or difference that is no word stops all work, except where a
range is checked. There a sum is asked for that may not exist, and a table is refused.
-/
namespace Ion

inductive WordStop
  | overflow
  | refused (fault : TableFault)
  deriving DecidableEq, Repr

namespace Word

def plus? (a b : UInt32) : Option UInt32 := if a.toNat + b.toNat ≤ Sid.last then some (a + b) else none

def plus (a b : UInt32) : Except WordStop UInt32 :=
  match plus? a b with
  | some sum => .ok sum
  | none => .error .overflow

def minus (a b : UInt32) : Except WordStop UInt32 := if b ≤ a then .ok (a - b) else .error .overflow

end Word

open Word

structure WordTable where
  name : String
  version : UInt32
  slots : List (Option String)
  maxId : UInt32
  byText : Std.HashMap String UInt32

namespace WordTable

def of (t : IndexedTable) : WordTable :=
  ⟨t.name, .ofNat t.version, t.slots, .ofNat t.maxId, t.byText.map fun _ place => .ofNat place⟩

def place? (t : WordTable) (text : String) : Option UInt32 := t.byText[text]?

def text? (t : WordTable) (position : UInt32) : Option String :=
  if position = 0 then none else t.slots[(position - 1).toNat]?.join

def find (t : WordTable) (offset length : UInt32) (text : String) : Except WordStop (Option UInt32) :=
  match (t.place? text).filter (· ≤ length) with
  | some place => do return some (← minus (← plus offset place) 1)
  | none => .ok none

end WordTable

inductive WordChain
  | root (table : WordTable) (length : UInt32)
  | above (below : WordChain) (table : WordTable) (offset length : UInt32)

namespace WordChain

def layerMaxId (offset length : UInt32) : Except WordStop UInt32 := do minus (← plus offset length) 1

def maxId : WordChain → Except WordStop UInt32
  | root _ length => layerMaxId 1 length
  | above _ _ offset length => layerMaxId offset length

def push (below : WordChain) (table : WordTable) (length : UInt32) : Except WordStop WordChain := do
  return above below table (← plus (← below.maxId) 1) length

def checked (below : WordChain) (table : WordTable) (length : UInt32) : Except WordStop (Option WordChain) := do
  let last ← below.maxId
  return match plus? last 1 with
    | some offset => (plus? offset length).map fun _ => above below table offset length
    | none => none

def find (text : String) : WordChain → Except WordStop (Option UInt32)
  | root table length => table.find 1 length text
  | above below table offset length => do
    match ← below.find text with
    | some sid => return some sid
    | none => table.find offset length text

def layerText (table : WordTable) (offset length sid : UInt32) : Except WordStop (Option String) := do
  if (← layerMaxId offset length) < sid then return none
  else return table.text? (← plus (← minus sid offset) 1)

def text (sid : UInt32) : WordChain → Except WordStop (Option String)
  | root table length => if sid < 1 then .ok none else layerText table 1 length sid
  | above below table offset length =>
    if sid < offset then below.text sid else layerText table offset length sid

def layers : WordChain → List (UInt32 × WordTable × UInt32)
  | root table length => [(1, table, length)]
  | above below table offset length => below.layers ++ [(offset, table, length)]

def system : WordChain := root (.of ⟨.system, _, rfl⟩) (.ofNat SharedTable.system.maxId)

def build (tables : List (IndexedTable × UInt32)) : Except WordStop WordChain :=
  tables.foldlM (fun chain table => chain.push (.of table.1) table.2) system

def addTo (catalog : Catalog) (chain : WordChain) (entry : ImportEntry) : Except WordStop WordChain :=
  match entry.name with
  | none => .ok chain
  | some name =>
    if name = "" ∨ name = "$ion" then .ok chain
    else do
      let maxId ← (entry.usedMaxId name).mapError .refused
      let layer ← (ImportEntry.layer catalog name entry.usedVersion maxId).mapError .refused
      match ← chain.checked (.of ⟨layer.table, _, rfl⟩) (.ofNat layer.length) with
      | some chain => return chain
      | none => throw (.refused (.layerRange layer.length name))

end WordChain

structure WordSymbols where
  imports : WordChain
  locals : List (Option String)
  lookup : Std.HashMap String UInt32

namespace WordSymbols

def ofImports (imports : WordChain) : WordSymbols := ⟨imports, [], ∅⟩

def firstLocal (t : WordSymbols) : Except WordStop UInt32 := do plus (← t.imports.maxId) 1

def maxId (t : WordSymbols) : Except WordStop UInt32 := do plus (← t.imports.maxId) (.ofNat t.locals.length)

def find (t : WordSymbols) (text : String) : Except WordStop (Option UInt32) := do
  match ← t.imports.find text with
  | some sid => return some sid
  | none => return t.lookup[text]?

def text (t : WordSymbols) (sid : UInt32) : Except WordStop (Option String) := do
  if sid ≤ (← t.imports.maxId) then t.imports.text sid
  else
    let place ← minus sid (← t.firstLocal)
    return t.locals[place.toNat]?.join

def pushLocal (t : WordSymbols) (slot : Option String) : Except WordStop (UInt32 × WordSymbols) := do
  let sid ← plus (← t.maxId) 1
  let lookup := match slot with
    | some text => t.lookup.insertIfNew text sid
    | none => t.lookup
  return (sid, { t with locals := t.locals ++ [slot], lookup })

def intern (t : WordSymbols) (text : String) : Except WordStop (UInt32 × WordSymbols) := do
  match ← t.find text with
  | some sid => return (sid, t)
  | none => t.pushLocal (some text)

def extend (t : WordSymbols) (added : List (Option String)) : Except WordStop WordSymbols := do
  let base ← t.maxId
  if added.length ≤ Sid.last ∧ (plus? base (.ofNat added.length)).isSome then
    added.foldlM (fun t slot => do return (← t.pushLocal slot).2) t
  else throw (.refused (.localRange added.length base.toNat))

def install (catalog : Catalog) (t : WordSymbols) (entry : TableEntry) : Except WordStop WordSymbols := do
  if entry.append then t.extend entry.symbols
  else (ofImports (← entry.imports.foldlM (WordChain.addTo catalog) .system)).extend entry.symbols

end WordSymbols

end Ion

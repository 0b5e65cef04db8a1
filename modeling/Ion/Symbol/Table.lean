import Ion.Symbol.Imports

/-!
The symbol table of a session: imports, and local symbols behind them in the order they came.
A local slot may lack text. Looking up a text gives the least ID that has it.
-/
namespace Ion

structure SymbolToken where
  text : Option String
  sid : Option Nat
  deriving DecidableEq, Repr

structure SymbolTable where
  imports : Imports
  locals : List (Option String)
  deriving DecidableEq, Repr

namespace SymbolTable

def ofImports (imports : Imports) : SymbolTable := ⟨imports, []⟩

def system : SymbolTable := .ofImports .system

def firstLocal (t : SymbolTable) : Nat := t.imports.maxId + 1

def maxId (t : SymbolTable) : Nat := t.imports.maxId + t.locals.length

def find? (t : SymbolTable) (text : String) : Option Nat :=
  match t.imports.find? text with
  | some sid => some sid
  | none => (t.locals.idxOf? (some text)).map (t.firstLocal + ·)

def pushLocal (t : SymbolTable) (text : Option String) : Nat × SymbolTable :=
  (t.maxId + 1, { t with locals := t.locals ++ [text] })

def intern (t : SymbolTable) (text : String) : Nat × SymbolTable :=
  match t.find? text with
  | some sid => (sid, t)
  | none => t.pushLocal (some text)

def text? (t : SymbolTable) (sid : Nat) : Option String :=
  if sid ≤ t.imports.maxId then t.imports.text? sid
  else t.locals[sid - t.firstLocal]?.join

def token (t : SymbolTable) (sid : Nat) : SymbolToken := ⟨t.text? sid, some sid⟩

end SymbolTable

end Ion

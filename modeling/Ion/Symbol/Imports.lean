import Ion.Symbol.SharedTable

/-!
The imported part of a symbol table: the system table and the tables put behind it, each on a
range of symbol IDs as long as its layer declares. The ranges follow one another from 1.
-/
namespace Ion

structure Layer where
  table : SharedTable
  length : Nat
  deriving DecidableEq, Repr

namespace Layer

def whole (table : SharedTable) : Layer := ⟨table, table.maxId⟩

def place (first : Nat) : List Layer → List (Nat × Layer)
  | [] => []
  | l :: rest => (first, l) :: place (first + l.length) rest

def total : List Layer → Nat
  | [] => 0
  | l :: rest => l.length + total rest

theorem totalAppend (a b : List Layer) : total (a ++ b) = total a + total b := by
  induction a with
  | nil => simp [total]
  | cons l rest ih => simp [total, ih, Nat.add_assoc]

def find? (text : String) (first : Nat) (l : Layer) : Option Nat :=
  match l.table.position? text with
  | some position => if position ≤ l.length then some (first + position - 1) else none
  | none => none

def text? (sid first : Nat) (l : Layer) : Option String :=
  if first ≤ sid ∧ sid < first + l.length then l.table.text? (sid + 1 - first) else none

end Layer

structure Imports where
  added : List Layer
  deriving DecidableEq, Repr

namespace Imports

def system : Imports := ⟨[]⟩

def layers (i : Imports) : List Layer := .whole .system :: i.added

def placed (i : Imports) : List (Nat × Layer) := Layer.place 1 i.layers

def maxId (i : Imports) : Nat := Layer.total i.layers

def push (i : Imports) (l : Layer) : Imports := ⟨i.added ++ [l]⟩

def push? (i : Imports) (l : Layer) : Option Imports :=
  if i.maxId + 1 + l.length ≤ Sid.last then some (i.push l) else none

def ofTables (tables : List SharedTable) : Imports := ⟨tables.map .whole⟩

def find? (i : Imports) (text : String) : Option Nat :=
  i.placed.findSome? fun (first, l) => l.find? text first

def text? (i : Imports) (sid : Nat) : Option String :=
  i.placed.findSome? fun (first, l) => l.text? sid first

theorem maxIdSystem : system.maxId = 9 := by decide

theorem maxIdPush (i : Imports) (l : Layer) : (i.push l).maxId = i.maxId + l.length := by
  simp [maxId, layers, push, Layer.total, Layer.totalAppend, Nat.add_assoc]

end Imports

end Ion

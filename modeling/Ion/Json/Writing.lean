import Ion.Json.Value
import Ion.SessionWriter

/-!
JSON as Ion: arrays become lists, objects structs, and each value its own form.
-/
namespace Ion

namespace JsonNumber

def atom : JsonNumber → Atom
  | int n => .int n
  | float f => .float f

end JsonNumber

namespace SessionWriter

mutual

def writeJson : JsonValue → Call Unit
  | .null => write (.null .null)
  | .bool b => write (.bool b)
  | .number n => write n.atom
  | .string s => write (.string s)
  | .array items => do
    stepIn .list
    writeItems items
    stepOut
  | .object members => do
    stepIn .struct
    writeMembers members
    stepOut

def writeItems : List JsonValue → Call Unit
  | [] => return
  | item :: rest => do
    writeJson item
    writeItems rest

def writeMembers : List (String × JsonValue) → Call Unit
  | [] => return
  | (key, item) :: rest => do
    setField key
    writeJson item
    writeMembers rest

end

end SessionWriter

namespace JsonValue

def encode (value : JsonValue) : Except IonError Bytes :=
  let write : EStateM IonError (SessionWriter × Sink) Nat := do
    focus Prod.fst (fun w s => (w, s.2)) (SessionWriter.writeJson value)
    SessionWriter.finish
  match write (.empty Pool.defaultBlockSize [], .empty none false) with
  | .ok _ (_, sink) => .ok sink.received
  | .error e _ => .error e

end JsonValue

end Ion

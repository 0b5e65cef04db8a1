import Ion.Json.Number
import Ion.Reader
import Ion.Wire.Tree

/-!
Ion as JSON. Annotations are dropped, all nulls are one, lists and sexps are arrays, and what
JSON has no number for becomes text: integers beyond 64 bits, decimals too large, timestamps.
Symbols without text show their ID, bytes are base64 in the standard alphabet, and floats that are
not finite are null.
-/
namespace Ion

namespace Base64

def digit (n : Nat) : Char :=
  if n < 26 then Char.ofNat (65 + n)
  else if n < 52 then Char.ofNat (97 + (n - 26))
  else if n < 62 then Char.ofNat (48 + (n - 52))
  else if n = 62 then '+'
  else '/'

def digits : Nat → Nat → List Char
  | 0, _ => []
  | count + 1, n => digits count (n / 64) ++ [digit (n % 64)]

def encode : Bytes → List Char
  | a :: b :: c :: rest => digits 4 (Bytes.value [a, b, c]) ++ encode rest
  | [a, b] => digits 3 (Bytes.value [a, b] * 4) ++ ['=']
  | [a] => digits 2 (Bytes.value [a] * 16) ++ ['=', '=']
  | [] => []

def text (raw : Bytes) : String := String.ofList (encode raw)

end Base64

namespace SymbolTable

def shown (t : SymbolTable) (sid : Nat) : String := (t.text? sid).getD ("$" ++ toString sid)

end SymbolTable

namespace Atom

def json (symbols : SymbolTable) : Atom → JsonValue
  | null _ => .null
  | bool b => .bool b
  | int n => (JsonNumber.ofInt? n).elim (.string (toString n)) .number
  | float f => (JsonNumber.ofFloat? f).elim .null .number
  | decimal d => d.numeral.toNumber?.elim (.string d.text) .number
  | timestamp t => .string t.text
  | symbol sid => .string (symbols.shown sid)
  | string s => .string s
  | clob raw | blob raw => .string (Base64.text raw)

end Atom

namespace Tree

def key (symbols : SymbolTable) : Tree → String
  | atom field _ _ | container field _ _ _ => (field.map symbols.shown).getD ""

mutual

def json (symbols : SymbolTable) : Tree → JsonValue
  | atom _ _ a => a.json symbols
  | container _ _ .struct children => .ofMembers (jsonMembers symbols children)
  | container _ _ _ children => .array (jsonItems symbols children)

def jsonItems (symbols : SymbolTable) : List Tree → List JsonValue
  | [] => []
  | t :: rest => t.json symbols :: jsonItems symbols rest

def jsonMembers (symbols : SymbolTable) : List Tree → List (String × JsonValue)
  | [] => []
  | t :: rest => (t.key symbols, t.json symbols) :: jsonMembers symbols rest

end

end Tree

namespace Reader

def json : Call JsonValue := fun r =>
  match r.current? with
  | none => .ok .null r
  | some h =>
    match h.tree with
    | .error e => .error e.error (r.halt e)
    | .ok t =>
      let r := if h.container?.isSome then { r with position := .before h.after } else r
      .ok (t.json r.symbols) r

end Reader

def jsonFrom (symbols : SymbolTable) (c : Cursor) : Except IonError (List JsonValue) :=
  match _h : nextTop .empty symbols c with
  | (_, .exhausted _) => .ok []
  | (_, .halted halt) => .error halt.error
  | (symbols, .value h) => do
    let t ← h.tree.mapError Halt.error
    let rest ← jsonFrom symbols h.after
    return t.json symbols :: rest
termination_by c.rest.length
decreasing_by
  have shorter := nextTopShorter ‹_›
  have after := h.afterShorter
  omega

namespace JsonValue

def decode (data : Bytes) : Except IonError (List JsonValue) :=
  if versionMarker.isPrefixOf data then jsonFrom .system (.ofBytes data)
  else .error .badVersionMarker

end JsonValue

end Ion

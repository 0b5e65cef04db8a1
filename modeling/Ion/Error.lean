import Ion.Bytes
import Ion.Kind

/-!
Causes of failure and their wording. A structural cause leaves a writer unusable until it is
reset; every other cause leaves it as it was.
-/
namespace Ion

inductive ReadError
  | endOfInput
  | invalidText
  | overflow
  deriving DecidableEq, Repr

inductive SinkError
  | full
  | flush
  deriving DecidableEq, Repr

inductive TableFault
  | maxId (declared : Int) (table : String)
  | unresolved (table : String) (version : Nat)
  | layerRange (size : Nat) (table : String)
  | localRange (added base : Nat)
  | other (text : String)
  deriving DecidableEq, Repr

inductive Expectation
  | type (t : ValueType)
  | lob
  | scalar
  deriving DecidableEq, Repr

inductive IonError
  | fieldNameMissing
  | fieldNameOutsideStruct
  | fieldNamePending
  | annotationsPending
  | notClosable (kind : FrameKind)
  | annotationLimit (limit : Nat)
  | containersOpen (count : Nat)
  | badVersionMarker
  | badDescriptor (byte : UInt8)
  | lengthMismatch (offset : Nat)
  | noCurrentValue
  | atTopLevel
  | notContainer (type : ValueType)
  | typeMismatch (expected : Expectation) (actual : ValueType)
  | nullValue
  | numericOverflow
  | negativeZero
  | badBool (nibble : Nat)
  | badFloatLength (length : Nat)
  | badTimestamp
  | badSymbolTable (fault : TableFault)
  | emptyToken
  | poisoned
  | input (cause : ReadError)
  | output (cause : SinkError)
  deriving DecidableEq, Repr

namespace ReadError

def message : ReadError → String
  | endOfInput => "unexpected end of buffer"
  | invalidText => "invalid UTF-8"
  | overflow => "integer does not fit in 64 bits"

end ReadError

namespace SinkError

def message : SinkError → String
  | full => "sink full"
  | flush => "flush failed"

end SinkError

namespace TableFault

def message : TableFault → String
  | maxId declared table => s!"invalid max_id {declared} for import {table}"
  | unresolved table version =>
    s!"import {table} version {version} is not in the catalog and declares no max_id"
  | layerRange size table => s!"max_id {size} for import {table} overflows the SID range"
  | localRange added base =>
    s!"{added} local symbol(s) after SID {base} overflow the SID range"
  | other text => text

end TableFault

namespace Expectation

def name : Expectation → String
  | type t => t.name
  | lob => "blob or clob"
  | scalar => "scalar"

def admits : Expectation → ValueType → Bool
  | type t, actual => t == actual
  | lob, actual => actual.isLob
  | scalar, actual => !(actual.isContainer || actual.isLob || actual == .symbol || actual == .null)

end Expectation

namespace IonError

def isStructural : IonError → Bool
  | fieldNameMissing | fieldNameOutsideStruct | fieldNamePending | annotationsPending
  | notClosable _ | annotationLimit _ | containersOpen _ | badVersionMarker
  | badDescriptor _ | lengthMismatch _ | noCurrentValue | atTopLevel | notContainer _ => true
  | _ => false

def message : IonError → String
  | fieldNameMissing => "a field name must be set before writing a value inside a struct"
  | fieldNameOutsideStruct => "field names can only be set inside a struct"
  | fieldNamePending => "cannot step out with a pending field name"
  | annotationsPending => "cannot step out with pending annotations"
  | notClosable kind => "cannot step out of " ++ kind.name
  | annotationLimit limit => s!"a value cannot carry more than {limit} annotations"
  | containersOpen count => s!"cannot flush with {count} open container(s)"
  | badVersionMarker => "invalid Ion binary version marker"
  | badDescriptor byte => "invalid type descriptor 0x" ++ Bytes.hexByte byte
  | lengthMismatch offset => s!"declared length does not match content at offset {offset}"
  | noCurrentValue => "reader is not positioned on a value"
  | atTopLevel => "cannot step out at the top level"
  | notContainer t => "cannot step into a value of type " ++ t.name
  | typeMismatch expected actual => "expected " ++ expected.name ++ ", found " ++ actual.name
  | nullValue => "value is null"
  | numericOverflow => "value does not fit in the requested numeric type"
  | negativeZero => "negative zero integer is illegal"
  | badBool nibble => s!"invalid bool representation: {nibble}"
  | badFloatLength length => s!"unsupported float length: {length}"
  | badTimestamp => "invalid timestamp"
  | badSymbolTable fault => "invalid local symbol table: " ++ fault.message
  | emptyToken => "symbol token has neither text nor a symbol ID"
  | poisoned => "writer is unusable after an earlier failure; reset it first"
  | input cause => cause.message
  | output cause => cause.message

end IonError

end Ion

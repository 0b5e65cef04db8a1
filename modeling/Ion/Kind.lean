/-!
Value types, container kinds and writer frames, with their numbers in a type descriptor:
the high nibble is the type code, the low nibble a short length or one of two marks.
-/
namespace Ion

inductive ValueType
  | null | bool | int | float | decimal | timestamp | symbol | string | clob | blob
  | list | sexp | struct
  deriving DecidableEq, Repr

inductive Container
  | list | sexp | struct
  deriving DecidableEq, Repr

inductive FrameKind
  | datagram
  | wrapper
  | container (kind : Container)
  deriving DecidableEq, Repr

def longLength : Nat := 14

def nullNibble : Nat := 15

def wrapperCode : Nat := 14

def negativeCode : Nat := 3

def versionMarker : List UInt8 := [0xE0, 0x01, 0x00, 0xEA]

namespace ValueType

def code : ValueType → Nat
  | null => 0
  | bool => 1
  | int => 2
  | float => 4
  | decimal => 5
  | timestamp => 6
  | symbol => 7
  | string => 8
  | clob => 9
  | blob => 10
  | list => 11
  | sexp => 12
  | struct => 13

def ofCode? : Nat → Option ValueType
  | 0 => some null
  | 1 => some bool
  | 2 | 3 => some int
  | 4 => some float
  | 5 => some decimal
  | 6 => some timestamp
  | 7 => some symbol
  | 8 => some string
  | 9 => some clob
  | 10 => some blob
  | 11 => some list
  | 12 => some sexp
  | 13 => some struct
  | _ => none

def container? : ValueType → Option Container
  | list => some .list
  | sexp => some .sexp
  | struct => some .struct
  | _ => none

def isContainer (t : ValueType) : Bool := t.container?.isSome

def isLob : ValueType → Bool
  | clob | blob => true
  | _ => false

def name : ValueType → String
  | null => "null"
  | bool => "bool"
  | int => "int"
  | float => "float"
  | decimal => "decimal"
  | timestamp => "timestamp"
  | symbol => "symbol"
  | string => "string"
  | clob => "clob"
  | blob => "blob"
  | list => "list"
  | sexp => "sexp"
  | struct => "struct"

theorem ofCodeCode (t : ValueType) : ofCode? t.code = some t := by
  cases t <;> rfl

end ValueType

namespace Container

def type : Container → ValueType
  | list => .list
  | sexp => .sexp
  | struct => .struct

theorem containerType (c : Container) : c.type.container? = some c := by
  cases c <;> rfl

end Container

namespace FrameKind

def code? : FrameKind → Option Nat
  | datagram => none
  | wrapper => some wrapperCode
  | container c => some c.type.code

def isClosable : FrameKind → Bool
  | container _ => true
  | _ => false

def name : FrameKind → String
  | datagram => "datagram"
  | wrapper => "annotation wrapper"
  | container c => c.type.name

end FrameKind

def descriptor (code nibble : Nat) : UInt8 := UInt8.ofNat (code * 16 + nibble)

def ValueType.nullByte (t : ValueType) : UInt8 := descriptor t.code nullNibble

end Ion

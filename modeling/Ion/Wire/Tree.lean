import Ion.Wire.Atom
import Ion.Wire.Walk

/-!
Values as trees, with symbols by ID: what a header and its body spell, and the direct written
form of a tree, children first.
-/
namespace Ion

inductive Tree
  | atom (field : Option Nat) (annotations : List Nat) (value : Atom)
  | container (field : Option Nat) (annotations : List Nat) (kind : Container)
      (children : List Tree)

namespace Scalar

def atom : Scalar → Atom
  | bool b => .bool b
  | int n => .int n.toInt
  | long n => .int n.toInt
  | big n => .int n
  | double f => .float f
  | decimal d => .decimal d
  | string s => .string s
  | timestamp t => .timestamp t

end Scalar

namespace Header

def atom (h : Header) : Except IonError Atom :=
  if h.isNull then .ok (.null h.type)
  else
    match h.type with
    | .symbol => (Payload.symbol h.payload).map .symbol
    | .clob => .ok (.clob h.payload)
    | .blob => .ok (.blob h.payload)
    | _ => h.scalar.map Scalar.atom

end Header

mutual

def Header.tree (h : Header) : Except Halt Tree :=
  match h.container? with
  | none => (h.atom.mapError fun e => .on e h).map fun a => .atom h.field h.annotations a
  | some c =>
    match trees c h.body with
    | .ok items => .ok (.container h.field h.annotations c items)
    | .error halt => .error (halt.within c h)
termination_by 2 * h.start.rest.length + 1
decreasing_by
  have shorter := h.bodyShorter
  omega

def trees (scope : Container) (c : Cursor) : Except Halt (List Tree) :=
  match _h : nextChild scope c with
  | .exhausted _ => .ok []
  | .failed e c' => .error (.before e c')
  | .value h =>
    match h.tree with
    | .error halt => .error halt
    | .ok t =>
      match trees scope h.after with
      | .error halt => .error halt
      | .ok rest => .ok (t :: rest)
termination_by 2 * c.rest.length
decreasing_by
  all_goals
    have shorter := nextChildShorter ‹_›
    have after := h.afterShorter
    omega

end

namespace Tree

def fieldBytes : Option Nat → Bytes
  | none => []
  | some sid => VarUInt.encode sid

def wrap (annotations : List Nat) (value : Bytes) : Bytes :=
  if annotations = [] then value
  else
    let sids := annotations.flatMap VarUInt.encode
    Wire.typed wrapperCode (VarUInt.encode sids.length ++ sids ++ value)

mutual

def encode? : Tree → Except IonError Bytes
  | atom field annotations value => do
    let value ← value.encode?
    return fieldBytes field ++ wrap annotations value
  | container field annotations kind children => do
    let body ← encodeAll? children
    return fieldBytes field ++ wrap annotations (Wire.typed kind.type.code body)

def encodeAll? : List Tree → Except IonError Bytes
  | [] => .ok []
  | t :: rest => do
    let first ← t.encode?
    let more ← encodeAll? rest
    return first ++ more

end

end Tree

end Ion

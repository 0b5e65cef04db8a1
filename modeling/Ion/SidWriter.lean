import Ion.Segment
import Ion.Wire.Atom

/-!
The writer below symbol tables: names, annotations and symbols are given by ID. Every open
container collects its body in a list of its own; closing it writes the header, whose length is
known only then, and places header and body behind the list of its parent. A structural error
makes the writer refuse everything until it is reset. A call that fails changes nothing else.
-/
namespace Ion

structure Frame where
  kind : FrameKind
  -- bytes of the body so far, with the headers of closed children
  length : Nat
  deriving DecidableEq, Repr

namespace Frame

def total : List Frame → Nat
  | [] => 0
  | f :: rest => f.length + total rest

end Frame

structure ParkedFrame where
  frame : Frame
  segments : SegmentList
  deriving DecidableEq, Repr

structure SidWriter where
  -- collects the body of the innermost frame
  out : Streak
  top : Frame
  -- the frames around it, innermost first
  below : List ParkedFrame
  -- lists that frames opened inside the innermost one will start from, outermost first
  spare : List SegmentList
  field : Option Nat
  annotations : List Nat
  poisoned : Bool
  deriving DecidableEq, Repr

namespace SidWriter

def annotationLimit : Nat := 100

def rootFrame : Frame := ⟨.datagram, 0⟩

def empty (blockSize : Nat) : SidWriter :=
  ⟨.start (.empty blockSize) [], rootFrame, [], [], none, [], false⟩

def frames (w : SidWriter) : List Frame := w.top :: w.below.map ParkedFrame.frame

def inStruct (w : SidWriter) : Bool := w.top.kind == .container .struct

def depth (w : SidWriter) : Nat := (w.frames.filter fun f => f.kind.isClosable).length

def bufferedLength (w : SidWriter) : Nat := Frame.total w.frames

def append (w : SidWriter) (data : Bytes) : SidWriter :=
  { w with
    out := w.out.write data
    top := { w.top with length := w.top.length + data.length } }

def openFrame (w : SidWriter) (kind : FrameKind) : SidWriter :=
  let (segments, pool) := w.out.finish
  { w with
    out := .start pool (w.spare.head?.getD [])
    top := ⟨kind, 0⟩
    below := ⟨w.top, segments⟩ :: w.below
    spare := w.spare.tail }

def closeFrame (w : SidWriter) : SidWriter :=
  match w.below, w.top.kind.code? with
  | parent :: below, some code =>
    let (body, pool) := w.out.finish
    let header := Wire.header code w.top.length
    let (head, pool) := ((Streak.start pool []).write header).finish
    { w with
      out := .start pool (parent.segments ++ head ++ body)
      top := { parent.frame with length := parent.frame.length + header.length + w.top.length }
      below
      spare := [] :: w.spare }
  | _, _ => w

def closeWrapper (w : SidWriter) : SidWriter :=
  if w.top.kind = .wrapper then w.closeFrame else w

def openValue (w : SidWriter) : Except IonError SidWriter :=
  if w.inStruct ∧ w.field = none then .error .fieldNameMissing
  else
    let w :=
      match w.field with
      | some sid => { w.append (VarUInt.encode sid) with field := none }
      | none => w
    if w.annotations = [] then .ok w
    else
      let sids := w.annotations.flatMap VarUInt.encode
      let w := (w.openFrame .wrapper).append (VarUInt.encode sids.length ++ sids)
      .ok { w with annotations := [] }

def abandoned (w : SidWriter) : List SegmentList :=
  if w.below = [] then w.spare
  else (w.below.dropLast.reverse.map ParkedFrame.segments) ++ [] :: w.spare

def restart (w : SidWriter) : SidWriter :=
  { w with
    out := .start w.out.pool.reset []
    top := rootFrame
    below := []
    spare := w.abandoned
    field := none
    annotations := [] }

abbrev Call (α : Type) := EStateM IonError SidWriter α

def guarded (act : SidWriter → Except IonError SidWriter) : Call Unit := fun w =>
  if w.poisoned then .error .poisoned w
  else
    match act w with
    | .ok w => .ok () w
    | .error e => .error e { w with poisoned := e.isStructural }

def setField (sid : Nat) : Call Unit :=
  guarded fun w =>
    if w.inStruct then .ok { w with field := some sid } else .error .fieldNameOutsideStruct

def addAnnotation (sid : Nat) : Call Unit :=
  guarded fun w =>
    if w.annotations.length < annotationLimit then
      .ok { w with annotations := w.annotations ++ [sid] }
    else .error (.annotationLimit annotationLimit)

def setAnnotations (sids : List Nat) : Call Unit :=
  guarded fun w =>
    if sids.length ≤ annotationLimit then .ok { w with annotations := sids }
    else .error (.annotationLimit annotationLimit)

def clearAnnotations (w : SidWriter) : SidWriter := { w with annotations := [] }

def stepIn (type : ValueType) : Call Unit :=
  guarded fun w =>
    match type.container? with
    | some c => (w.openValue).map fun w => w.openFrame (.container c)
    | none => .error (.notContainer type)

def stepOut : Call Unit :=
  guarded fun w =>
    if w.field.isSome then .error .fieldNamePending
    else if w.annotations ≠ [] then .error .annotationsPending
    else if w.top.kind.isClosable then .ok w.closeFrame.closeWrapper
    else .error (.notClosable w.top.kind)

def writeEncoded (data : Bytes) : Call Unit :=
  guarded fun w => (w.openValue).map fun w => (w.append data).closeWrapper

def write (a : Atom) : Call Unit :=
  match a.encode? with
  | .ok data => writeEncoded data
  | .error e => throw e

def flushable (w : SidWriter) : Except IonError Unit :=
  if w.below ≠ [] then .error (.containersOpen w.depth)
  else if w.annotations ≠ [] then .error .annotationsPending
  else .ok ()

def checkFlushable : Call Unit :=
  guarded fun w => w.flushable.map fun _ => w

def writeVersionMarker : Call Unit :=
  guarded fun w => w.flushable.map fun _ => w.append versionMarker

def flush : EStateM IonError (SidWriter × Sink) Nat := fun (w, sink) =>
  match checkFlushable w with
  | .error e w => .error e (w, sink)
  | .ok _ w =>
    let (root, pool) := w.out.finish
    match pool.writeTo root sink with
    | .ok n sink => .ok n (w.restart, sink)
    | .error e sink => .error (.output e) ({ w with out := .start pool root }, sink)

def reset (w : SidWriter) : SidWriter := { w.restart with poisoned := false }

end SidWriter

end Ion

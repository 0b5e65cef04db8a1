import Ion.Proofs.Encoding

/-! A writer that keeps what it is given as trees and encodes nothing before it is asked for its
bytes: the plain counterpart of the streaming writer, with the same calls and the same refusals. -/
namespace Ion

structure OpenContainer where
  field : Option Nat
  annotations : List Nat
  kind : Container
  children : List Tree

def OpenContainer.tree (o : OpenContainer) : Tree :=
  .container o.field o.annotations o.kind o.children

structure Draft where
  items : List Item
  -- open containers, innermost first
  inside : List OpenContainer
  field : Option Nat
  annotations : List Nat
  poisoned : Bool

namespace Draft

def empty : Draft := ⟨[], [], none, [], false⟩

def inStruct (d : Draft) : Bool :=
  match d.inside with
  | [] => false
  | o :: _ => o.kind == .struct

def add (d : Draft) (t : Tree) : Draft :=
  match d.inside with
  | [] => { d with items := d.items ++ [.value t] }
  | o :: rest => { d with inside := { o with children := o.children ++ [t] } :: rest }

def taken (d : Draft) : Draft := { d with field := none, annotations := [] }

abbrev Call (α : Type) := EStateM IonError Draft α

def guarded (act : Draft → Except IonError Draft) : Call Unit := fun d =>
  if d.poisoned then .error .poisoned d
  else
    match act d with
    | .ok d => .ok () d
    | .error e => .error e { d with poisoned := e.isStructural }

def startValue (next : Draft → Draft) (d : Draft) : Except IonError Draft :=
  if d.inStruct ∧ d.field = none then .error .fieldNameMissing else .ok (next d)

def setField (sid : Nat) : Call Unit :=
  guarded fun d =>
    if d.inStruct then .ok { d with field := some sid } else .error .fieldNameOutsideStruct

def addAnnotation (sid : Nat) : Call Unit :=
  guarded fun d =>
    if d.annotations.length < SidWriter.annotationLimit then
      .ok { d with annotations := d.annotations ++ [sid] }
    else .error (.annotationLimit SidWriter.annotationLimit)

def setAnnotations (sids : List Nat) : Call Unit :=
  guarded fun d =>
    if sids.length ≤ SidWriter.annotationLimit then .ok { d with annotations := sids }
    else .error (.annotationLimit SidWriter.annotationLimit)

def clearAnnotations (d : Draft) : Draft := { d with annotations := [] }

def stepIn (type : ValueType) : Call Unit :=
  guarded fun d =>
    match type.container? with
    | some c =>
      d.startValue fun d => { d.taken with inside := ⟨d.field, d.annotations, c, []⟩ :: d.inside }
    | none => .error (.notContainer type)

def stepOut : Call Unit :=
  guarded fun d =>
    if d.field.isSome then .error .fieldNamePending
    else if d.annotations ≠ [] then .error .annotationsPending
    else
      match d.inside with
      | [] => .error (.notClosable .datagram)
      | o :: rest => .ok ({ d with inside := rest }.add o.tree)

def write (a : Atom) : Call Unit :=
  match a.encode? with
  | .ok _ => guarded (startValue fun d => d.taken.add (.atom d.field d.annotations a))
  | .error e => throw e

def flushable (d : Draft) : Except IonError Unit :=
  if d.inside ≠ [] then .error (.containersOpen d.inside.length)
  else if d.annotations ≠ [] then .error .annotationsPending
  else .ok ()

def checkFlushable : Call Unit := guarded fun d => d.flushable.map fun _ => d

def writeVersionMarker : Call Unit :=
  guarded fun d => d.flushable.map fun _ => { d with items := d.items ++ [.versionMarker] }

def flush : EStateM IonError (Draft × Sink) Nat := fun (d, sink) =>
  match checkFlushable d with
  | .error e d => .error e (d, sink)
  | .ok _ d =>
    match Item.encodeAll? d.items with
    | .error e => .error e (d, sink)
    | .ok bytes =>
      match Sink.write bytes sink with
      | .ok _ sink => .ok bytes.length ({ d.taken with items := [] }, sink)
      | .error e sink => .error (.output e) (d, sink)

end Draft

end Ion

import Ion.SidWriter

/-!
The writer with its storage. Open frames stand in slots, outermost first; the slots of closed ones
stay behind them to be used again. The list of the innermost frame is with the buffer while it is
written, those of the others wait in their slots. The header of a frame being closed is collected in a
list of its own.
-/
namespace Ion

structure FrameSlots where
  slots : List ParkedFrame
  -- how many of them are open
  count : Nat
  deriving DecidableEq, Repr

namespace FrameSlots

def empty : FrameSlots := ⟨[⟨SidWriter.rootFrame, []⟩], 1⟩

def opened (s : FrameSlots) : List ParkedFrame := s.slots.take s.count

def reusable (s : FrameSlots) : List ParkedFrame := s.slots.drop s.count

def top (s : FrameSlots) : ParkedFrame := s.slots[s.count - 1]?.getD ⟨SidWriter.rootFrame, []⟩

def changeTop (s : FrameSlots) (f : ParkedFrame → ParkedFrame) : FrameSlots :=
  { s with slots := s.slots.modify (s.count - 1) f }

def push (s : FrameSlots) (kind : FrameKind) : SegmentList × FrameSlots :=
  let fresh : ParkedFrame := ⟨⟨kind, 0⟩, []⟩
  match s.slots[s.count]? with
  | none => ([], ⟨s.slots ++ [fresh], s.count + 1⟩)
  | some slot => (slot.segments, ⟨s.slots.set s.count fresh, s.count + 1⟩)

def pop (s : FrameSlots) : FrameSlots := { s with count := s.count - 1 }

def recycle (s : FrameSlots) : FrameSlots :=
  { s with slots := s.slots.modify s.count fun slot => { slot with segments := [] } }

def clear (s : FrameSlots) : FrameSlots :=
  ⟨s.slots.modify 0 fun root => ⟨{ root.frame with length := 0 }, []⟩, 1⟩

end FrameSlots

inductive Stop
  | failed (e : IonError)
  | broken
  deriving DecidableEq, Repr

structure SlotWriter where
  data : SegmentBuffer
  stack : FrameSlots
  headers : SegmentList
  field : Option Nat
  annotations : List Nat
  poisoned : Bool
  deriving DecidableEq, Repr

namespace SlotWriter

def empty (blockSize : Nat) : SlotWriter :=
  ⟨(SegmentBuffer.empty blockSize).startStreak [], .empty, [], none, [], false⟩

def frames (s : SlotWriter) : List Frame := s.stack.opened.map ParkedFrame.frame

def inStruct (s : SlotWriter) : Bool := s.stack.top.frame.kind == .container .struct

def depth (s : SlotWriter) : Nat := (s.frames.filter fun f => f.kind.isClosable).length

def bufferedLength (s : SlotWriter) : Nat := Frame.total s.frames

abbrev Call (α : Type) := EStateM Stop SlotWriter α

def wrapup : Call SegmentList := fun s =>
  let (list, data) := s.data.wrapup
  .ok (list.getD []) { s with data }

def startStreak (target : SegmentList) : Call Unit := fun s =>
  if s.data.inStreak then .error .broken s
  else .ok () { s with data := s.data.startStreak target }

def put (bytes : Bytes) : Call Nat := fun s =>
  match s.data.write? bytes with
  | some data => .ok bytes.length { s with data }
  | none => .error .broken s

def changeStack (f : FrameSlots → FrameSlots) : Call Unit := modify fun s => { s with stack := f s.stack }

def grow (n : Nat) : Call Unit :=
  changeStack (·.changeTop fun p => { p with frame := { p.frame with length := p.frame.length + n } })

def append (bytes : Bytes) : Call Unit := do
  let n ← put bytes
  grow n

def pushFrame (kind : FrameKind) : Call Unit := do
  let parked ← wrapup
  changeStack (·.changeTop fun p => { p with segments := parked })
  let (target, stack) := (← get).stack.push kind
  changeStack fun _ => stack
  startStreak target

def collectHeader (code length : Nat) : Call (Nat × SegmentList) := do
  startStreak (← get).headers
  let n ← put (Wire.header code length)
  return (n, ← wrapup)

def popFrame : Call Unit := do
  let body ← wrapup
  let stack := (← get).stack
  if stack.count ≤ 1 then throw .broken
  let closed := stack.top.frame
  changeStack .pop
  match closed.kind.code? with
  | none => startStreak body
  | some code =>
    let (n, header) ← collectHeader code closed.length
    let parent := (← get).stack.top
    changeStack (·.changeTop fun p => ⟨{ p.frame with length := p.frame.length + n + closed.length }, []⟩)
    -- header and body are drained into the parent's list
    modify fun s => { s with headers := [] }
    changeStack .recycle
    startStreak (parent.segments ++ header ++ body)

def closeWrapper : Call Unit := do
  if (← get).stack.top.frame.kind = .wrapper then popFrame

def restart : Call Unit := do
  modify fun s =>
    { s with data := s.data.reset, stack := s.stack.clear, headers := [], field := none, annotations := [] }
  startStreak []

def guarded (act : Call α) : Call α := fun s =>
  if s.poisoned then .error (.failed .poisoned) s
  else
    match act s with
    | .error (.failed e) s =>
      if e.isStructural then .error (.failed e) { s with poisoned := true } else .error (.failed e) s
    | result => result

def require (met : Prop) [Decidable met] (e : IonError) : Call Unit :=
  if met then pure () else throw (.failed e)

def setField (sid : Nat) : Call Unit :=
  guarded do
    require (← get).inStruct .fieldNameOutsideStruct
    modify fun s => { s with field := some sid }

def addAnnotation (sid : Nat) : Call Unit :=
  guarded do
    require ((← get).annotations.length < SidWriter.annotationLimit)
      (.annotationLimit SidWriter.annotationLimit)
    modify fun s => { s with annotations := s.annotations ++ [sid] }

def setAnnotations (sids : List Nat) : Call Unit :=
  guarded do
    require (sids.length ≤ SidWriter.annotationLimit) (.annotationLimit SidWriter.annotationLimit)
    modify fun s => { s with annotations := sids }

def clearAnnotations (s : SlotWriter) : SlotWriter := { s with annotations := [] }

def writeName : Call Unit := do
  match ← modifyGet fun s => (s.field, { s with field := none }) with
  | some sid => append (VarUInt.encode sid)
  | none => return

def openWrapper : Call Unit := do
  let annotations := (← get).annotations
  if !annotations.isEmpty then
    pushFrame .wrapper
    let sids := annotations.flatMap VarUInt.encode
    append (VarUInt.encode sids.length ++ sids)
    modify clearAnnotations

def openValue : Call Unit := do
  let s ← get
  require (¬(s.inStruct ∧ s.field = none)) .fieldNameMissing
  writeName
  openWrapper

def stepIn (type : ValueType) : Call Unit :=
  guarded do
    match type.container? with
    | none => throw (.failed (.notContainer type))
    | some c =>
      openValue
      pushFrame (.container c)

def stepOut : Call Unit :=
  guarded do
    let s ← get
    require (s.field = none) .fieldNamePending
    require (s.annotations = []) .annotationsPending
    let kind := s.stack.top.frame.kind
    require kind.isClosable (.notClosable kind)
    popFrame
    closeWrapper

def write (a : Atom) : Call Unit :=
  match a.encode? with
  | .error e => throw (.failed e)
  | .ok data =>
    guarded do
      openValue
      append data
      closeWrapper

def flushable : Call Unit := do
  let s ← get
  require (s.stack.count ≤ 1) (.containersOpen s.depth)
  require (s.annotations = []) .annotationsPending

def checkFlushable : Call Unit := guarded flushable

def writeVersionMarker : Call Unit :=
  guarded do
    flushable
    append versionMarker

def drain (sink : Sink) : Call (Except SinkError Nat × Sink) := do
  let root ← wrapup
  match (← get).data.pool.writeTo root sink with
  | .ok n sink =>
    restart
    return (.ok n, sink)
  | .error e sink =>
    startStreak root
    return (.error e, sink)

def flush : EStateM Stop (SlotWriter × Sink) Nat := fun (s, sink) =>
  match (do checkFlushable; guarded (drain sink)) s with
  | .error e s => .error e (s, sink)
  | .ok (.ok n, sink) s => .ok n (s, sink)
  | .ok (.error e, sink) s => .error (.failed (.output e)) (s, sink)

def reset : Call Unit := do
  let _ ← wrapup
  restart
  modify fun s => { s with poisoned := false }

end SlotWriter

end Ion

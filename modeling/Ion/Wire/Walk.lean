import Ion.Wire.Item
import Ion.Wire.Payload

/-!
Walking the children of a container, and the place where a walk that fails leaves its reader:
inside the containers it had entered, before or on the item that failed.
-/
namespace Ion

structure Entered where
  container : Container
  resume : Cursor
  deriving DecidableEq, Repr

inductive Position
  | before (c : Cursor)
  -- on a value; its scalar is kept once it was decoded
  | on (h : Header) (decoded : Variant)
  | exhausted (c : Cursor)
  deriving DecidableEq

structure Halt where
  error : IonError
  inside : List Entered
  position : Position
  deriving DecidableEq

namespace Halt

def before (e : IonError) (c : Cursor) : Halt := ⟨e, [], .before c⟩

def on (e : IonError) (h : Header) : Halt := ⟨e, [], .on h none⟩

def within (c : Container) (h : Header) (halt : Halt) : Halt :=
  { halt with inside := halt.inside ++ [⟨c, h.after⟩] }

end Halt

inductive Step
  | exhausted (c : Cursor)
  | failed (e : IonError) (c : Cursor)
  | value (h : Header)
  deriving DecidableEq, Repr

def childError (offset : Nat) (e : IonError) : IonError :=
  if e = .input .endOfInput then .lengthMismatch offset else e

def nextChild (scope : Container) (c : Cursor) : Step :=
  if c.atEnd then .exhausted c
  else
    match _h : Scan.item (some scope) c with
    | .error e c' => .failed (childError c.pos e) c'
    | .ok none c' => nextChild scope c'
    | .ok (some h) _ => .value h
termination_by c.rest.length
decreasing_by exact Scan.itemShortens _ _ _ _ ‹_›

theorem nextChildShorter {scope : Container} {c : Cursor} {h : Header}
    (found : nextChild scope c = .value h) : h.start.rest.length < c.rest.length := by
  fun_induction nextChild scope c with
  | case1 => contradiction
  | case2 => contradiction
  | case3 c inside c1 skipped ih =>
    have shorter := Scan.itemShortens _ _ _ _ skipped
    have later := ih found
    omega
  | case4 c inside h1 c1 item =>
    simp only [Step.value.injEq] at found
    rw [← found]
    exact Scan.itemAfter item

inductive Children
  | done (c : Cursor)
  | failed (e : IonError) (c : Cursor)
  | child (h : Header) (rest : Children)
  deriving DecidableEq, Repr

def children (scope : Container) (c : Cursor) : Children :=
  match _h : nextChild scope c with
  | .exhausted c' => .done c'
  | .failed e c' => .failed e c'
  | .value h => .child h (children scope h.after)
termination_by c.rest.length
decreasing_by
  have shorter := nextChildShorter ‹_›
  have after := Header.afterShorter h
  omega

def Children.fold (step : σ → Header → Except Halt σ) : σ → Children → Except Halt σ
  | s, .done _ => .ok s
  | _, .failed e c => .error (.before e c)
  | s, .child h rest => do
    let s ← step s h
    rest.fold step s

def Header.fold (h : Header) (scope : Container) (init : σ) (step : σ → Header → Except Halt σ) :
    Except Halt σ :=
  ((children scope h.body).fold step init).mapError (Halt.within scope h)

def Header.scalar (h : Header) : Except IonError Scalar :=
  match h.type with
  | .bool => .ok (.bool (lowNibble h.descriptor == 1))
  | .int => Payload.int (highNibble h.descriptor == negativeCode) h.payload
  | .float => (Payload.float h.payload).map .double
  | .decimal => (Payload.decimal h.payload).map .decimal
  | .timestamp => (Payload.timestamp h.payload).map .timestamp
  | .string => (Payload.text h.payload).map .string
  | other => .error (.typeMismatch .scalar other)

def Header.decode (h : Header) (payload : Bytes → Except IonError α) : Except Halt α :=
  (payload h.payload).mapError fun e => .on e h

end Ion

import Ion.SidWriter
import Ion.Wire.Tree

/-! The written form of trees in parts: descriptor, length and body of a value, the wrapper around
it, and the forms of a list one behind another. -/
namespace Ion

def Bytes.each (encode : α → Except IonError Bytes) : List α → Except IonError Bytes
  | [] => .ok []
  | a :: rest => do
    let first ← encode a
    let more ← each encode rest
    return first ++ more

theorem Bytes.eachCons {encode : α → Except IonError Bytes} {a : α} {rest : List α} {bytes : Bytes}
    (written : each encode (a :: rest) = .ok bytes) :
    ∃ first more, encode a = .ok first ∧ each encode rest = .ok more ∧ bytes = first ++ more := by
  rw [each] at written
  cases one : encode a with
  | error e => simp [one, bind, Except.bind] at written
  | ok first =>
    cases two : each encode rest with
    | error e => simp [one, two, bind, Except.bind] at written
    | ok more =>
      simp only [one, two, bind, Except.bind, pure, Except.pure, Except.ok.injEq] at written
      exact ⟨first, more, rfl, rfl, written.symm⟩

theorem Bytes.eachFirst {encode : α → Except IonError Bytes} {a : α} {rest : List α}
    {first more : Bytes} (one : encode a = .ok first) (others : each encode rest = .ok more) :
    each encode (a :: rest) = .ok (first ++ more) := by
  simp only [each, one, others, bind, Except.bind, pure, Except.pure]

theorem Bytes.eachAppend {encode : α → Except IonError Bytes} {left right : List α}
    {first more : Bytes} (one : each encode left = .ok first) (two : each encode right = .ok more) :
    each encode (left ++ right) = .ok (first ++ more) := by
  induction left generalizing first with
  | nil =>
    cases one
    exact two
  | cons a rest ih =>
    obtain ⟨head, tail, encoded, others, rfl⟩ := eachCons one
    rw [List.append_assoc]
    exact eachFirst encoded (ih others)

theorem Bytes.eachAdd {encode : α → Except IonError Bytes} {list : List α} {a : α}
    {bytes more : Bytes} (first : each encode list = .ok bytes) (last : encode a = .ok more) :
    each encode (list ++ [a]) = .ok (bytes ++ more) := by
  refine eachAppend first ?_
  have single := eachFirst last (show each encode [] = .ok [] from rfl)
  rwa [List.append_nil] at single

theorem Tree.encodeAllEach (trees : List Tree) : encodeAll? trees = Bytes.each encode? trees := by
  induction trees with
  | nil => rfl
  | cons t rest ih => rw [encodeAll?, Bytes.each, ih]

namespace Tree

def annotationBytes (sids : List Nat) : Bytes :=
  VarUInt.encode (sids.flatMap VarUInt.encode).length ++ sids.flatMap VarUInt.encode

end Tree

theorem Tree.wrapAnnotated {annotations : List Nat} (value : Bytes) (annotated : annotations ≠ []) :
    wrap annotations value = Wire.typed wrapperCode (annotationBytes annotations ++ value) := by
  simp [wrap, annotated, annotationBytes]

structure Shape where
  descriptor : UInt8
  head : Bytes
  body : Bytes

namespace Shape

def bytes (s : Shape) : Bytes := s.descriptor :: (s.head ++ s.body)

def single (descriptor : UInt8) : Shape := ⟨descriptor, [], []⟩

def typed (code : Nat) (body : Bytes) : Shape :=
  if body.length ≤ Wire.shortLength then ⟨Ion.descriptor code body.length, [], body⟩
  else ⟨Ion.descriptor code longLength, VarUInt.encode body.length, body⟩

theorem typedBytes (code : Nat) (body : Bytes) : (typed code body).bytes = Wire.typed code body := by
  unfold typed Wire.typed Wire.header
  split <;> rfl

theorem typedBody (code : Nat) (body : Bytes) : (typed code body).body = body := by
  unfold typed
  split <;> rfl

end Shape

namespace Atom

def shape? : Atom → Except IonError Shape
  | null t => .ok (.single t.nullByte)
  | bool b => .ok (.single (descriptor ValueType.bool.code b.toNat))
  | int n => .ok (.typed (Wire.intCode n) (Bytes.shortest n.natAbs))
  | float f =>
    .ok (.typed ValueType.float.code (if f = .zero then [] else Bytes.be 8 f.bits.toNat))
  | decimal d =>
    if d.scale = Int64.minValue then .error .numericOverflow
    else if d.scale = 0 ∧ d.coefficient = 0 then .ok (.typed ValueType.decimal.code [])
    else
      .ok <| .typed ValueType.decimal.code <|
        VarInt.encodeInt (-d.scale.toInt) ++ Wire.signedMagnitude d.coefficient
  | timestamp t => .ok (.typed ValueType.timestamp.code (Wire.timestampBody t))
  | symbol sid => .ok (.typed ValueType.symbol.code (Bytes.shortest sid))
  | string s => .ok (.typed ValueType.string.code (Bytes.ofText s))
  | clob raw => .ok (.typed ValueType.clob.code raw)
  | blob raw => .ok (.typed ValueType.blob.code raw)

theorem encodeShape (a : Atom) : a.encode? = a.shape?.map Shape.bytes := by
  cases a with
  | decimal d =>
    simp only [encode?, shape?, Wire.decimal?]
    split
    · rfl
    · split <;> simp only [Except.map, Shape.typedBytes]
  | null t => rfl
  | bool b => rfl
  | int | float | timestamp | symbol | string | clob | blob =>
    simp only [encode?, shape?, Except.map, Shape.typedBytes, Wire.float]

def WellFormed : Atom → Prop
  | decimal d => d.scale ≠ Int64.minValue
  | symbol sid => sid ≤ Sid.last
  | _ => True

end Atom

namespace Tree

def field : Tree → Option Nat
  | atom field _ _ | container field _ _ _ => field

def annotations : Tree → List Nat
  | atom _ annotations _ | container _ annotations _ _ => annotations

def type : Tree → ValueType
  | atom _ _ a => a.type
  | container _ _ kind _ => kind.type

def shape? : Tree → Except IonError Shape
  | atom _ _ a => a.shape?
  | container _ _ kind children => (encodeAll? children).map (Shape.typed kind.type.code)

theorem encodeShape (t : Tree) :
    t.encode? = t.shape?.map fun s => fieldBytes t.field ++ wrap t.annotations s.bytes := by
  cases t with
  | atom field annotations a =>
    rw [encode?, a.encodeShape]
    cases shape : a.shape? <;> simp only [Tree.shape?, shape] <;> rfl
  | container field annotations kind children =>
    rw [encode?]
    cases body : encodeAll? children with
    | error e => simp only [Tree.shape?, body]; rfl
    | ok body' =>
      simp only [Tree.shape?, body, Except.map, Shape.typedBytes]
      rfl

structure Named (member : Bool) (field : Option Nat) (annotations : List Nat) : Prop where
  named : field.isSome = member
  few : annotations.length ≤ SidWriter.annotationLimit
  fieldFits : ∀ sid ∈ field, sid ≤ Sid.last
  annotationsFit : ∀ sid ∈ annotations, sid ≤ Sid.last

mutual

def WellFormed (member : Bool) : Tree → Prop
  | atom field annotations a => Named member field annotations ∧ a.WellFormed
  | container field annotations kind children =>
    Named member field annotations ∧ WellFormedAll (kind == .struct) children

def WellFormedAll (member : Bool) : List Tree → Prop
  | [] => True
  | t :: rest => t.WellFormed member ∧ WellFormedAll member rest

end

end Tree

inductive Item
  | versionMarker
  | value (t : Tree)

namespace Item

def encode? : Item → Except IonError Bytes
  | versionMarker => .ok Ion.versionMarker
  | value t => t.encode?

def encodeAll? (items : List Item) : Except IonError Bytes := Bytes.each encode? items

end Item

end Ion

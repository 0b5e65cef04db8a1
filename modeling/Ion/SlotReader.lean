import Ion.Reader

/-!
The reader with its storage. All getters share one slot for the scalar of the current value. The first
decoding that succeeds fills it, and only a move empties it; a step that is refused is no move.
-/
namespace Ion

structure SlotReader where
  -- keeps no scalar itself
  reader : Reader
  slot : Variant
  deriving DecidableEq

namespace SlotReader

abbrev Call (α : Type) := EStateM IonError SlotReader α

def next : Call (Option ValueType) := fun s =>
  match s.reader.position with
  | .exhausted _ => .ok none s
  | _ =>
    match s.reader.next with
    | .ok type reader => .ok type ⟨reader, none⟩
    | .error e reader => .error e ⟨reader, none⟩

def stepping (step : Reader.Call Unit) : Call Unit := fun s =>
  match step s.reader with
  | .ok _ reader => .ok () ⟨reader, none⟩
  | .error e reader => .error e { s with reader }

def stepIn : Call Unit := stepping Reader.stepIn

def stepOut : Call Unit := stepping Reader.stepOut

def materialize (type : ValueType) : Call Unit := fun s =>
  match s.reader.header (.type type) with
  | .error e => .error e s
  | .ok h =>
    if s.slot.isSome then .ok () s
    else
      match h.scalar with
      | .ok scalar => .ok () { s with slot := some scalar }
      | .error e => .error e s

def getting (type : ValueType) (form : Variant → Option α) (e : IonError) : Call α := do
  materialize type
  match form (← get).slot with
  | some a => return a
  | none => throw e

def bool : Call Bool := getting .bool Variant.bool? .nullValue

def int : Call Int32 := getting .int Variant.int? .numericOverflow

def long : Call Int64 := getting .int Variant.long? .numericOverflow

def integer : Call Int := getting .int Variant.integer? .numericOverflow

def double : Call Binary64 := getting .float Variant.double? .nullValue

def decimal : Call Decimal := getting .decimal Variant.decimal? .nullValue

def timestamp : Call Timestamp := getting .timestamp Variant.timestamp? .nullValue

def string : Call String := getting .string Variant.string? .nullValue

def integerSize : Call IntegerSize := fun s =>
  if s.reader.currentType? = some .int ∧ s.reader.currentIsNull = false then
    (do
      materialize .int
      return (← get).slot.integerSize : Call IntegerSize) s
  else .ok .unknown s

end SlotReader

end Ion

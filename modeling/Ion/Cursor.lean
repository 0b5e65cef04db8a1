import Ion.VarInt

/-!
A position in a byte string with the end of the part that may be read. Every read checks that
end first and leaves the cursor where it was when it fails.
-/
namespace Ion

structure Cursor where
  pos : Nat
  stop : Nat
  -- the bytes from `pos` to `stop`
  rest : Bytes
  deriving DecidableEq, Repr

abbrev Read (α : Type) := EStateM ReadError Cursor α

namespace Cursor

def ofBytes (data : Bytes) : Cursor := ⟨0, data.length, data⟩

def window (data : Bytes) (pos stop : Nat) : Cursor := ⟨pos, stop, (data.take stop).drop pos⟩

def remaining (c : Cursor) : Nat := c.stop - c.pos

def atEnd (c : Cursor) : Bool := c.stop ≤ c.pos

def advance (n : Nat) (c : Cursor) : Cursor :=
  { c with pos := c.pos + n, rest := c.rest.drop n }

def part (n : Nat) (c : Cursor) : Cursor :=
  { c with stop := c.pos + n, rest := c.rest.take n }

def Sound (c : Cursor) : Prop := c.pos + c.rest.length = c.stop

theorem ofBytesSound (data : Bytes) : (ofBytes data).Sound := by simp [Sound, ofBytes]

theorem advanceSound {c : Cursor} {n : Nat} (sound : c.Sound) (inside : c.pos + n ≤ c.stop) :
    (c.advance n).Sound := by
  simp only [Sound, advance, List.length_drop] at *
  omega

theorem partSound {c : Cursor} {n : Nat} (sound : c.Sound) (inside : c.pos + n ≤ c.stop) :
    (c.part n).Sound := by
  simp only [Sound, part, List.length_take] at *
  omega

theorem windowSound {data : Bytes} {pos stop : Nat} (ordered : pos ≤ stop) (inside : stop ≤ data.length) :
    (window data pos stop).Sound := by
  simp only [Sound, window, List.length_drop, List.length_take]
  omega

theorem windowAdvance (data : Bytes) (pos stop n : Nat) :
    (window data pos stop).advance n = window data (pos + n) stop := by
  simp only [advance, window, List.drop_drop]

def take (n : Nat) (meaning : Bytes → Except ReadError α) : Read α := fun c =>
  if c.pos + n ≤ c.stop then
    match meaning (c.rest.take n) with
    | .ok a => .ok a (c.advance n)
    | .error e => .error e c
  else .error .endOfInput c

def number (decode : Bytes → Except ReadError (α × Nat)) : Read α := fun c =>
  match decode c.rest with
  | .ok (a, used) => .ok a (c.advance used)
  | .error e => .error e c

def first : Bytes → Except ReadError UInt8
  | b :: _ => .ok b
  | [] => .error .endOfInput

def signMagnitude : Bytes → Bool × Bytes
  | [] => (false, [])
  | b :: rest => (b.toNat ≥ 128, UInt8.ofNat (b.toNat % 128) :: rest)

def peek : Read UInt8 := fun c =>
  if c.pos + 1 ≤ c.stop then
    match first c.rest with
    | .ok b => .ok b c
    | .error e => .error e c
  else .error .endOfInput c

def u8 : Read UInt8 := take 1 first

def skip (n : Nat) : Read Unit := take n fun _ => .ok ()

def bytes (n : Nat) : Read Bytes := take n .ok

def text (n : Nat) : Read String :=
  take n fun raw =>
    match Bytes.text? raw with
    | some s => .ok s
    | none => .error .invalidText

def uint (n : Nat) : Read Nat :=
  if 8 < n then throw .overflow else take n fun raw => .ok (Bytes.value raw)

def int (n : Nat) : Read (Bool × Bytes) := take n fun raw => .ok (signMagnitude raw)

def varUInt : Read Nat := number VarUInt.decode

def varInt : Read (Bool × Nat) :=
  number fun raw => do
    let (negative, magnitude, used) ← VarInt.decode raw
    return ((negative, magnitude), used)

end Cursor

end Ion

/-!
Byte strings and what they spell. Big-endian numbers: the value of a byte string, the form of a
given width and the shortest form, in which zero has no bytes at all. Text is UTF-8.
-/
namespace Ion

abbrev Bytes := List UInt8

namespace Bytes

def value (raw : Bytes) : Nat := raw.foldl (fun acc b => acc * 256 + b.toNat) 0

def be : Nat → Nat → Bytes
  | 0, _ => []
  | width + 1, n => be width (n / 256) ++ [UInt8.ofNat (n % 256)]

def shortest (n : Nat) : Bytes :=
  if n = 0 then [] else shortest (n / 256) ++ [UInt8.ofNat (n % 256)]
termination_by n

def bitLength (n : Nat) : Nat := if n = 0 then 0 else n.log2 + 1

def shortestLength (n : Nat) : Nat := (bitLength n + 7) / 8

def ofText (text : String) : Bytes := text.toUTF8.data.toList

def text? (raw : Bytes) : Option String := String.fromUTF8? raw.toByteArray

def hexDigit (n : Nat) : Char :=
  if n < 10 then Char.ofNat (48 + n) else Char.ofNat (87 + n)

def hexByte (b : UInt8) : String :=
  String.ofList [hexDigit (b.toNat / 16), hexDigit (b.toNat % 16)]

def slice? (data : Bytes) (first stop : Nat) : Option Bytes :=
  if first ≤ stop ∧ stop ≤ data.length then some ((data.take stop).drop first) else none

theorem beLength (width n : Nat) : (be width n).length = width := by
  induction width generalizing n with
  | zero => rfl
  | succ width ih => simp [be, ih]

end Bytes

end Ion

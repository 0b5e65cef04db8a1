/-!
IEEE 754 binary64 numbers by their bits, and the arithmetic on them that decoding needs: every
result is the exact ratio rounded once to the nearest number, a tie to the even one.
-/
namespace Ion

structure Binary64 where
  bits : UInt64
  deriving DecidableEq, Repr

namespace Binary64

def zero : Binary64 := ⟨0⟩

def hiddenBit : Nat := 0x10000000000000

def signBit : Nat := 0x8000000000000000

def infinityBits : Nat := 0x7FF0000000000000

def infinity : Binary64 := ⟨UInt64.ofNat infinityBits⟩

def magnitudeBits (x : Binary64) : Nat := x.bits.toNat % signBit

def isNaN (x : Binary64) : Bool := infinityBits < x.magnitudeBits

def isFinite (x : Binary64) : Bool := x.magnitudeBits < infinityBits

def isZero (x : Binary64) : Bool := x.magnitudeBits = 0

def withSign (negative : Bool) (x : Binary64) : Binary64 :=
  ⟨UInt64.ofNat ((if negative then signBit else 0) + x.magnitudeBits)⟩

def twoTo (n : Nat) : Nat := Nat.pow 2 n

def roundEven (num den : Nat) : Nat :=
  let q := num / den
  let twice := 2 * (num % den)
  if den < twice ∨ (twice = den ∧ q % 2 = 1) then q + 1 else q

def shifted (num den : Nat) (e : Int) : Nat × Nat :=
  (num * twoTo (-e).toNat, den * twoTo e.toNat)

/-- The nearest number to `num / den`, infinity past the largest. The last bit of a number weighs
two to the power `e` for the least `e` from -1074 on that leaves at most 53 bits. -/
def ofRatio (num den : Nat) : Binary64 :=
  if num = 0 then zero
  else
    let guess : Int := num.log2 - den.log2 - 52
    let (n, d) := shifted num den guess
    let e := max (if n < d * hiddenBit then guess - 1 else guess) (-1074)
    let (n, d) := shifted num den e
    let bits := (e + 1074).toNat * hiddenBit + roundEven n d
    if infinityBits ≤ bits then infinity else ⟨UInt64.ofNat bits⟩

def ofNat (n : Nat) : Binary64 := ofRatio n 1

def units (x : Binary64) : Nat :=
  let exponent := x.magnitudeBits / hiddenBit
  let fraction := x.magnitudeBits % hiddenBit
  if exponent = 0 then fraction else (hiddenBit + fraction) * twoTo (exponent - 1)

def mul (x y : Binary64) : Binary64 := ofRatio (x.units * y.units) (twoTo 2148)

def div (x y : Binary64) : Binary64 := ofRatio x.units y.units

def tenTo (n : Nat) : Binary64 := ofNat (Nat.pow 10 n)

def ofBinary32 (bits : Nat) : Binary64 :=
  let negative := 0x80000000 ≤ bits
  let exponent := bits / 0x800000 % 256
  let fraction := bits % 0x800000
  withSign negative <|
    if exponent = 255 then ⟨UInt64.ofNat (infinityBits + fraction * 0x20000000)⟩
    else if exponent = 0 then ofRatio fraction (twoTo 149)
    else ⟨UInt64.ofNat ((exponent + 896) * hiddenBit + fraction * 0x20000000)⟩

end Binary64

end Ion

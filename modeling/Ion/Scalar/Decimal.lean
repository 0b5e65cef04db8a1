import Ion.Bytes

/-!
Decimals: a coefficient and a scale, kept as they are (15 with scale 1 is not 150 with scale 2),
and the decimal numeral that shows one.
-/
namespace Ion

structure Decimal where
  coefficient : Int
  scale : Int64
  deriving DecidableEq, Repr

structure Numeral where
  negative : Bool
  whole : List Char
  fraction : List Char
  -- the letter before the exponent and the exponent
  exponent : Option (Char × Int)
  deriving DecidableEq, Repr

namespace Numeral

def exponentText : Option (Char × Int) → List Char
  | none => []
  | some (letter, e) => letter :: (if e < 0 then '-' else '+') :: Nat.toDigits 10 e.natAbs

def text (n : Numeral) : String :=
  String.ofList <|
    (if n.negative then ['-'] else []) ++ n.whole ++
    (if n.fraction.isEmpty then [] else '.' :: n.fraction) ++ exponentText n.exponent

end Numeral

namespace Decimal

def zero : Decimal := ⟨0, 0⟩

def digits (d : Decimal) : List Char := Nat.toDigits 10 d.coefficient.natAbs

def shownScale (d : Decimal) : Int := if d.coefficient = 0 then 0 else d.scale.toInt

def leadingZeros : Int := 5

def trailingZeros : Int := 15

def numeral (d : Decimal) : Numeral :=
  let digits := d.digits
  let count : Int := digits.length
  let scale := d.shownScale
  let negative : Bool := d.coefficient < 0
  if 0 < scale ∧ leadingZeros < scale - count then
    ⟨negative, digits.take 1, digits.drop 1, some ('E', count - scale - 1)⟩
  else if trailingZeros < -scale then ⟨negative, digits, [], some ('e', -scale)⟩
  else if scale ≤ 0 then ⟨negative, digits ++ List.replicate (-scale).toNat '0', [], none⟩
  else if scale < count then
    let whole := (count - scale).toNat
    ⟨negative, digits.take whole, digits.drop whole, none⟩
  else ⟨negative, ['0'], List.replicate (scale - count).toNat '0' ++ digits, none⟩

def text (d : Decimal) : String := d.numeral.text

end Decimal

end Ion

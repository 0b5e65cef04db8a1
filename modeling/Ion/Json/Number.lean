import Ion.Json.Value
import Ion.Scalar.Decimal

/-!
The JSON number that a numeral spells. The digits are gathered in 64 bits and scaled by powers of
ten, each step rounded; so the result may differ in its last bits from the nearest number.
-/
namespace Ion

structure Gathered where
  significand : Nat
  exponent : Int
  deriving DecidableEq, Repr

namespace Gathered

def significandLimit : Nat := 0x10000000000000000

def exponentLimit : Int := 0x80000000

def digitValue (c : Char) : Nat := c.toNat - 48

def whole (g : Gathered) : List Char → Gathered
  | [] => g
  | c :: rest =>
    let significand := g.significand * 10 + digitValue c
    if significand < significandLimit then whole { g with significand } rest
    else { g with exponent := g.exponent + (rest.length + 1) }

def fraction (g : Gathered) : List Char → Gathered
  | [] => g
  | c :: rest =>
    let significand := g.significand * 10 + digitValue c
    if significand < significandLimit then fraction ⟨significand, g.exponent - 1⟩ rest else g

def scale (x : Binary64) (exponent : Int) : Option Binary64 :=
  if exponent.natAbs ≤ 308 then
    if 0 ≤ exponent then
      let product := x.mul (.tenTo exponent.natAbs)
      if product.isFinite then some product else none
    else some (x.div (.tenTo exponent.natAbs))
  else if x.isZero then some x
  else if 0 ≤ exponent then none
  else scale (x.div (.tenTo 308)) (exponent + 308)
termination_by exponent.natAbs

def toFloat (g : Gathered) (negative : Bool) : Option JsonNumber :=
  (scale (.ofNat g.significand) g.exponent).map fun x => .float (x.withSign negative)

def toInteger (g : Gathered) (negative : Bool) : Option JsonNumber :=
  if g.exponent ≠ 0 then g.toFloat negative
  else if negative then
    if g.significand = 0 ∨ 0x8000000000000000 < g.significand then g.toFloat negative
    else some (.int (-(g.significand : Int)))
  else some (.int g.significand)

def withExponent (g : Gathered) (negative : Bool) (e : Int) : Option JsonNumber :=
  if exponentLimit ≤ e.natAbs then
    if g.significand = 0 ∨ e < 0 then some (.float (Binary64.zero.withSign negative)) else none
  else
    let sum := max (-exponentLimit) (min (g.exponent + e) (exponentLimit - 1))
    toFloat { g with exponent := sum } negative

end Gathered

namespace Numeral

def toNumber? (n : Numeral) : Option JsonNumber :=
  let whole := Gathered.whole ⟨0, 0⟩ n.whole
  let g := whole.fraction n.fraction
  match n.exponent with
  | some (_, e) => g.withExponent n.negative e
  | none => if n.fraction.isEmpty then g.toInteger n.negative else g.toFloat n.negative

end Numeral

end Ion

/-!
Finite binary floating-point numbers of 64 bits, with exact arithmetic on natural numbers. A result
is the nearest number of the format, of two that are equally near the one with an even mantissa
(`Binary64.round?`); a result beyond the largest one has no number.
-/

namespace StoryScript

/-- The number `± mantissa · 2 ^ exponent`. The mantissa is below `2 ^ 53`; it is at least `2 ^ 52`
unless the exponent is the least one. -/
structure Binary64 where
  negative : Bool
  mantissa : Nat
  exponent : Int
deriving DecidableEq, Inhabited

/-- A quotient of natural numbers. -/
structure Ratio where
  numerator : Nat
  denominator : Nat

namespace Ratio

/-- The quotient times a power. -/
def scale (ratio : Ratio) (base : Nat) (power : Int) : Ratio :=
  if 0 ≤ power then ⟨ratio.numerator * base.pow power.natAbs, ratio.denominator⟩
  else ⟨ratio.numerator, ratio.denominator * base.pow power.natAbs⟩

def floor (ratio : Ratio) : Nat := ratio.numerator / ratio.denominator

/-- The nearest natural number, of two equally near the even one. -/
def nearest (ratio : Ratio) : Nat :=
  let below := ratio.floor
  let twice := 2 * (ratio.numerator % ratio.denominator)
  if twice < ratio.denominator || (twice == ratio.denominator && below % 2 == 0) then below
  else below + 1

end Ratio

namespace Binary64

/-- The least exponent. -/
def minExponent : Int := -1074

/-- The largest exponent. -/
def maxExponent : Int := 971

def zero (negative : Bool) : Binary64 := ⟨negative, 0, minExponent⟩

/-- The exponent with which a quotient gets a mantissa of 53 bits, or the least one. -/
def exponentFor (ratio : Ratio) : Int :=
  let guess : Int := (ratio.numerator.log2 : Int) - ratio.denominator.log2 - 52
  let exponent := if (ratio.scale 2 (-guess)).floor < Nat.pow 2 52 then guess - 1 else guess
  max exponent minExponent

/-- The number nearest to a quotient. -/
def round? (negative : Bool) (ratio : Ratio) : Option Binary64 :=
  if ratio.numerator = 0 then some (zero negative)
  else
    let exponent := exponentFor ratio
    let mantissa := (ratio.scale 2 (-exponent)).nearest
    let rounded : Binary64 :=
      if mantissa = Nat.pow 2 53 then ⟨negative, Nat.pow 2 52, exponent + 1⟩
      else ⟨negative, mantissa, exponent⟩
    if rounded.exponent ≤ maxExponent then some rounded else none

/-- The size of a number, exactly. -/
def size (number : Binary64) : Ratio :=
  Ratio.scale ⟨number.mantissa, 1⟩ 2 number.exponent

/-- The product of two numbers. -/
def mul? (first second : Binary64) : Option Binary64 :=
  round? (first.negative != second.negative)
    ⟨first.size.numerator * second.size.numerator,
      first.size.denominator * second.size.denominator⟩

/-- The quotient of two numbers, the second one not zero. -/
def div? (first second : Binary64) : Option Binary64 :=
  round? (first.negative != second.negative)
    ⟨first.size.numerator * second.size.denominator,
      first.size.denominator * second.size.numerator⟩

/-- The number nearest to a natural number. -/
def ofNat? (value : Nat) : Option Binary64 :=
  round? false ⟨value, 1⟩

end Binary64

end StoryScript

import StoryScript.Binary64.Basic

/-!
Decimal notation of floating-point numbers. A number is written with the fewest digits that are
nearer to it than to any other number, and of those texts by the one nearest to it
(`Binary64.shortest`). It is read in three steps that each round (`Binary64.ofDecimal?`): the
digits, a power of ten, and the product or quotient of the two.
-/

namespace StoryScript.Binary64

/-- The numbers `digits · 10 ^ power` that stand for a number rather than for one of its
neighbours: an interval around it, in a unit in which the number itself is `4 · mantissa`. -/
structure Cell where
  low : Nat
  middle : Nat
  high : Nat
  /-- Whether the ends belong to the interval. -/
  closed : Bool
  /-- One step of the decimal grid in the same unit. -/
  step : Nat

/-- The cell of a number on the grid of the multiples of a power of ten. The number below is nearer
where the exponent changes. -/
def cell (number : Binary64) (power : Int) : Cell :=
  let unit := Ratio.scale ⟨1, 1⟩ 2 (number.exponent - 2)
  let grid := Ratio.scale ⟨1, 1⟩ 10 power
  let binary := unit.numerator * grid.denominator
  let below := if number.mantissa = Nat.pow 2 52 ∧ minExponent < number.exponent then 1 else 2
  { low := (4 * number.mantissa - below) * binary
    middle := 4 * number.mantissa * binary
    high := (4 * number.mantissa + 2) * binary
    closed := number.mantissa % 2 = 0
    step := grid.numerator * unit.denominator }

/-- Whether a multiple of the grid's step lies in the cell. -/
def Cell.contains (cell : Cell) (digits : Nat) : Bool :=
  let place := digits * cell.step
  if cell.closed then cell.low ≤ place && place ≤ cell.high
  else cell.low < place && place < cell.high

/-- The multiple of the grid's step in the cell that is nearest to the number. -/
def Cell.nearest? (cell : Cell) : Option Nat :=
  let below := cell.middle / cell.step
  let above := below + 1
  match cell.contains below, cell.contains above with
  | false, false => none
  | true, false => some below
  | false, true => some above
  | true, true => some (Ratio.nearest ⟨cell.middle, cell.step⟩)

/-- The power of ten of a quotient's first digit. -/
def leadingPower (ratio : Ratio) : Int :=
  let guess : Int :=
    ((Nat.repr ratio.numerator).length : Int) - (Nat.repr ratio.denominator).length
  if (ratio.scale 10 (-guess)).floor = 0 then guess - 1 else guess

/-- The fewest digits that stand for a number, and the power of ten that they are multiplied by. -/
def shortest (number : Binary64) : Nat × Int :=
  if number.mantissa = 0 then (0, 0)
  else
    let leading := leadingPower number.size
    let found := (List.range 17).findSome? fun count =>
      let power := leading - (count : Nat)
      (number.cell power).nearest?.map (·, power)
    match found with
    | some (10, power) => (1, power + 1)
    | some (digits, power) => (digits, power)
    | none => (0, 0)

/-- The largest power of ten that is a number of the format. -/
def maxTenPower : Nat := 308

/-- The number nearest to a power of ten. -/
def tenPower? (power : Nat) : Option Binary64 :=
  round? false ⟨Nat.pow 10 power, 1⟩

/-- A number divided by a power of ten, at most the largest one at a time. -/
def divTenPower? (number : Binary64) (power : Nat) : Option Binary64 :=
  if number.mantissa = 0 then some number
  else if power ≤ maxTenPower then (tenPower? power).bind number.div?
  else
    ((tenPower? maxTenPower).bind number.div?).bind fun smaller =>
      divTenPower? smaller (power - maxTenPower)
termination_by power
decreasing_by simp only [maxTenPower] at *; omega

/-- The number of `digits · 10 ^ power`, if it is within the range of the format. -/
def ofDecimal? (negative : Bool) (digits : Nat) (power : Int) : Option Binary64 :=
  (ofNat? digits).bind fun number =>
    let scaled :=
      if number.mantissa = 0 then some number
      else if power < 0 then number.divTenPower? power.natAbs
      else if power.natAbs ≤ maxTenPower then (tenPower? power.natAbs).bind number.mul?
      else none
    scaled.map fun number => { number with negative }

end StoryScript.Binary64

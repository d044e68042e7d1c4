/-!
The shortest decimal of a binary floating-point number. A finite positive double is `m · 2^q`; the
reals that round to it form an interval around it, whose ends belong to it exactly when `m` is
even. Going from coarse to fine decimal grids, the first grid with a point in the interval gives
the decimal, and of two points the one nearer to the number.
-/

set_option autoImplicit false
set_option relaxedAutoImplicit false

namespace StepScript.Decimal

/-- The number `digits · 10^exponent`. -/
structure Value where
  digits : Nat
  exponent : Int
  deriving DecidableEq, Repr, Inhabited

/-- A positive double `mantissa · 2^exponent`, and whether the double below it is half as far away
as the one above it. -/
structure Binary where
  mantissa : Nat
  exponent : Int
  closeBelow : Bool
  deriving DecidableEq, Repr, Inhabited

/-- `base` to a power, which is one for negative powers. -/
def natPow (base : Nat) (power : Int) : Nat :=
  base.pow power.toNat

/-- A number and the ends of its rounding interval, as multiples of one unit. -/
structure Scaled where
  low : Nat
  value : Nat
  high : Nat
  /-- The step of the decimal grid in the same unit. -/
  step : Nat
  deriving Repr

/-- A double and the grid `10^exponent` over a common unit, chosen so that all four are integers. -/
def Binary.scaled (b : Binary) (exponent : Int) : Scaled :=
  let unit := natPow 2 (b.exponent - 2) * natPow 10 (-exponent)
  { low := (4 * b.mantissa - (if b.closeBelow then 1 else 2)) * unit
    value := 4 * b.mantissa * unit
    high := (4 * b.mantissa + 2) * unit
    step := natPow 10 exponent * natPow 2 (2 - b.exponent) }

def Scaled.holds (s : Scaled) (evenMantissa : Bool) (point : Nat) : Bool :=
  if evenMantissa then s.low ≤ point && point ≤ s.high else s.low < point && point < s.high

/-- The grid point that stands for the number, if the interval holds one: the nearer of the two
neighbours, and the even one of two equally near. -/
def Scaled.gridPoint (s : Scaled) (evenMantissa : Bool) : Option Nat :=
  let below := s.value / s.step
  let above := below + 1
  let gapBelow := s.value - below * s.step
  let gapAbove := above * s.step - s.value
  match s.holds evenMantissa (below * s.step), s.holds evenMantissa (above * s.step) with
  | false, false => none
  | true, false => some below
  | false, true => some above
  | true, true =>
    if gapBelow < gapAbove || (gapBelow == gapAbove && below % 2 == 0) then some below
    else some above

/-- An exponent of ten no smaller than that of the number. -/
def Binary.topExponent (b : Binary) : Int :=
  ((b.mantissa.log2 : Int) + b.exponent + 1) * 30103 / 100000 + 2

/-- The decimal with the fewest digits that rounds to the double. -/
def Binary.shortest (b : Binary) : Value :=
  let top := b.topExponent
  let grids := (List.range 22).map fun (n : Nat) => top - n
  let found := grids.findSome? fun exponent =>
    ((b.scaled exponent).gridPoint (b.mantissa % 2 == 0)).map fun digits => ⟨digits, exponent⟩
  found.getD ⟨b.mantissa, 0⟩

end StepScript.Decimal

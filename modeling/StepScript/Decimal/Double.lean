import StepScript.Decimal.Shortest

/-!
Doubles as bit patterns, and their text. A double is written with the fewest digits that read back
the same: positionally, with at least one decimal, while its exponent of ten is at least -5 and
less than 16, and otherwise with an exponent that carries its sign.
-/

set_option autoImplicit false
set_option relaxedAutoImplicit false

namespace StepScript.Decimal

/-- A double by its bits in the IEEE 754 binary64 format. -/
structure Double where
  bits : UInt64
  deriving DecidableEq, Repr, Inhabited

namespace Double

def ofFloat (f : Float) : Double := ⟨f.toBits⟩

def isNegative (d : Double) : Bool := d.bits >>> 63 == 1

def exponentField (d : Double) : Nat := ((d.bits >>> 52) &&& 0x7FF).toNat

def fractionField (d : Double) : Nat := (d.bits &&& 0xFFFFFFFFFFFFF).toNat

/-- The magnitude of a finite double other than zero. -/
def magnitude (d : Double) : Binary :=
  if d.exponentField == 0 then ⟨d.fractionField, -1074, false⟩
  else ⟨0x10000000000000 + d.fractionField, (d.exponentField : Int) - 1075,
    d.fractionField == 0 && 1 < d.exponentField⟩

/-- How a double is laid out. -/
structure Layout where
  /-- The least exponent of ten that is written positionally. -/
  lowest : Int
  /-- The first exponent of ten that is no longer written positionally. -/
  limit : Int

/-- Numbers from `0.00001` up to `10^16` are written positionally. -/
def layout : Layout := ⟨-5, 16⟩

/-- Decimal digits with a point after `whole` of them, and at least one digit on both sides. -/
def positional (digits : List Char) (whole : Int) : List Char :=
  if whole ≤ 0 then "0.".toList ++ List.replicate (-whole).toNat '0' ++ digits
  else
    let before := digits.take whole.toNat
    let after := digits.drop whole.toNat
    before ++ List.replicate (whole.toNat - digits.length) '0' ++ '.' ::
      (if after.isEmpty then ['0'] else after)

/-- Decimal digits with a point after the first and the exponent of ten behind them. -/
def scientific (digits : List Char) (exponent : Int) : List Char :=
  let fraction := digits.drop 1
  digits.take 1 ++ (if fraction.isEmpty then [] else '.' :: fraction) ++
    ['e', if exponent < 0 then '-' else '+'] ++ Nat.toDigits 10 exponent.natAbs

def layOut (d : Value) : List Char :=
  let digits := Nat.toDigits 10 d.digits
  let exponent := d.exponent + digits.length - 1
  if layout.lowest ≤ exponent && exponent < layout.limit then positional digits (exponent + 1)
  else scientific digits exponent

def text (d : Double) : String :=
  let sign := if d.isNegative then ['-'] else []
  if d.exponentField == 0 && d.fractionField == 0 then String.ofList (sign ++ "0.0".toList)
  else String.ofList (sign ++ layOut d.magnitude.shortest)

end Double
end StepScript.Decimal

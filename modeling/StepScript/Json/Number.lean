import StepScript.Json.Basic
import StepScript.Json.Document

/-!
What a number of a document stands for. Digits without point and exponent that fit 64 bits, with a
sign or without, are an integer, but `-0` is the double of that sign. All other numbers are
doubles: the leading digits are gathered in one 64-bit word for as long as they fit, later ones of
the whole part count as powers of ten, later decimals are dropped, and the word is scaled by powers
of ten that are doubles themselves. A number past the largest double has no value.
-/

set_option autoImplicit false
set_option relaxedAutoImplicit false

namespace StepScript.Json.Numeral

def wordMax : Nat := UInt64.size - 1

def exponentMax : Nat := UInt32.size / 2 - 1

def digitValue (c : Char) : Nat := c.toNat - '0'.toNat

/-- Digits behind `word` in a decimal number, for as long as the number stays below `bound`, and the
digits that are left. -/
def gather (bound : Nat) : Nat → List Char → Nat × List Char
  | word, [] => (word, [])
  | word, c :: cs =>
    if word * 10 + digitValue c ≤ bound then gather bound (word * 10 + digitValue c) cs
    else (word, c :: cs)

/-- The leading digits of a number and the power of ten that goes with them. -/
def significand (n : Numeral) : Nat × Int :=
  let (word, left) := gather wordMax 0 n.whole
  match n.fraction with
  | none => (word, left.length)
  | some digits =>
    let (word, dropped) := gather wordMax word digits
    (word, (left.length : Int) - ((digits.length - dropped.length : Nat) : Int))

/-- Keeps an exponent in the range that is told apart. -/
def clampExponent (e : Int) : Int :=
  max (-(exponentMax : Int) - 1) (min e exponentMax)

def powerOfTen (n : Nat) : Float := OfScientific.ofScientific 1 false n

def topPower : Nat := 308

/-- A word scaled by a power of ten. Powers below the least double are reached in steps; the first
argument bounds their number. -/
def scale : Nat → Float → Int → Option Float
  | 0, f, _ => some f
  | steps + 1, f, e =>
    if e.natAbs ≤ topPower then
      if 0 ≤ e then
        let g := f * powerOfTen e.natAbs
        if g.isInf then none else some g
      else some (f / powerOfTen e.natAbs)
    else if f == 0 then some f
    else if 0 ≤ e then none
    else scale steps (f / powerOfTen topPower) (e + topPower)

/-- The double of a word and a power of ten. Two steps down leave nothing of any word. -/
def double? (negative : Bool) (word : Nat) (exponent : Int) : Option Number :=
  (scale 4 (UInt64.ofNat word).toFloat exponent).map fun f =>
    .double (Decimal.Double.ofFloat (if negative then -f else f))

def value? (n : Numeral) : Option Number :=
  let (word, power) := n.significand
  match n.exponent with
  | some (down, digits) =>
    match gather exponentMax 0 digits with
    | (e, []) => double? n.negative word (clampExponent (if down then power - e else power + e))
    | (_, _ :: _) =>
      if word != 0 && !down then none
      else some (.double (Decimal.Double.ofFloat (if n.negative then -0.0 else 0.0)))
  | none =>
    if n.fraction.isSome || power != 0 then double? n.negative word power
    else if !n.negative then some (.integer word)
    else if word != 0 && word ≤ UInt64.size / 2 then some (.integer (-word))
    else double? true word 0

end StepScript.Json.Numeral

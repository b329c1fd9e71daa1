import TagTemplate.Decimal.Binary
import TagTemplate.Text.Basic

/-!
# The shortest decimal of a binary number

`shortest` finds the decimal with the fewest digits that reads back as a given `Binary64`, and among
those of that length the one nearest to it. A decimal reads back when it lies in the interval of
reals that round to the number; the interval holds its ends exactly when the significand is even.
For each count of digits the two neighbours of the number on that decimal grid are tested, which is
enough: if any point of a grid lies in the interval, one of the neighbours does.

How a decimal is laid out is a matter of its own, decided by one `Layout`.
-/

namespace TagTemplate

/-- The decimal `digits * 10 ^ (exponent - (count of digits - 1))`: the digits with the point behind
the first of them, times `10 ^ exponent`. -/
structure Decimal where
  digits : Nat
  exponent : Int
deriving DecidableEq, Repr

namespace Binary64

/-- Four times the number and the ends of the interval that rounds to it, over a common denominator:
lower end, number, upper end, denominator. -/
def interval (x : Binary64) : Nat × Nat × Nat × Nat :=
  let below := if x.significand = Nat.pow 2 52 ∧ leastExponent < x.exponent then 1 else 2
  let unit := x.exponent - 2
  let scale := if 0 ≤ unit then Nat.pow 2 unit.toNat else 1
  let den := if 0 ≤ unit then 1 else Nat.pow 2 (-unit).toNat
  let centre := 4 * x.significand
  ((centre - below) * scale, centre * scale, (centre + 2) * scale, den)

/-- The exponent of the first decimal digit of `num / den`. -/
def decimalExponent (num den : Nat) : Int :=
  let guess : Int := ((Nat.toDigits 10 num).length : Int) - (Nat.toDigits 10 den).length
  let reached := if 0 ≤ guess then den * Nat.pow 10 guess.toNat ≤ num
    else den ≤ num * Nat.pow 10 (-guess).toNat
  if reached then guess else guess - 1

/-- The best decimal of `count` digits that reads back as the number. -/
def withDigits? (x : Binary64) (count : Nat) : Option Decimal :=
  let (low, centre, high, den) := x.interval
  let exponent := decimalExponent centre den
  let unit : Int := exponent - (count - 1 : Nat)
  -- Everything below is in multiples of `10 ^ unit`, over the denominator `d`.
  let scale := if unit < 0 then Nat.pow 10 (-unit).toNat else 1
  let d := if 0 ≤ unit then den * Nat.pow 10 unit.toNat else den
  let inside (point : Nat) : Bool :=
    if x.significand % 2 = 0 then low * scale ≤ point * d && point * d ≤ high * scale
    else low * scale < point * d && point * d < high * scale
  let floor := centre * scale / d
  let left := centre * scale - floor * d
  let right := (floor + 1) * d - centre * scale
  let choice :=
    if inside floor && inside (floor + 1) then
      if left < right ∨ (left = right ∧ floor % 2 = 0) then some floor else some (floor + 1)
    else if inside floor then some floor
    else if inside (floor + 1) then some (floor + 1)
    else none
  choice.map fun digits ↦
    if digits = Nat.pow 10 count then ⟨Nat.pow 10 (count - 1), exponent + 1⟩ else ⟨digits, exponent⟩

/-- The shortest decimal that reads back as a number other than zero; seventeen digits are always
enough. -/
def shortest (x : Binary64) : Decimal :=
  ((List.range 17).findSome? fun count ↦ x.withDigits? (count + 1)).getD ⟨0, 0⟩

end Binary64

/-- How decimals are written: positionally for exponents from `positionalFrom` up to but not
including `positionalTo`, else with an exponent of explicit sign. -/
structure Layout where
  positionalFrom : Int
  positionalTo : Int

namespace Layout

/-- Writes a decimal. Positional texts keep a digit behind the point, the others drop the point when
there is only one digit. -/
def text (layout : Layout) (decimal : Decimal) : Text :=
  let digits := Text.ofNat decimal.digits
  let exponent := decimal.exponent
  if layout.positionalFrom ≤ exponent ∧ exponent < layout.positionalTo then
    if exponent < 0 then
      "0.".toList ++ List.replicate ((-exponent).toNat - 1) '0' ++ digits
    else
      let whole := exponent.toNat + 1
      let padded := digits ++ List.replicate (whole - digits.length) '0'
      let fraction := padded.drop whole
      padded.take whole ++ '.' :: (if fraction.isEmpty then ['0'] else fraction)
  else
    let sign := if exponent < 0 then '-' else '+'
    let mantissa := match digits with
      | [] => []
      | [d] => [d]
      | d :: ds => d :: '.' :: ds
    mantissa ++ 'e' :: sign :: Text.ofNat exponent.natAbs

end Layout

/-- Floats are written positionally from `0.00001` up to `10 ^ 16`, and with an exponent outside. -/
def Binary64.layout : Layout := ⟨-5, 16⟩

/-- The text of a float: the shortest decimal that reads back, behind its sign. -/
def Binary64.text (x : Binary64) : Text :=
  let magnitude := if x.significand = 0 then "0.0".toList else layout.text x.shortest
  if x.negative then '-' :: magnitude else magnitude

end TagTemplate

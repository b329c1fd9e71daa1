/-!
# Finite binary floating-point numbers

A `Binary64` is a finite number of the 64-bit binary format, held as a sign, a significand of at
most 53 bits and a power of two; there are neither infinities nor a not-a-number, because a reading
that overflows is a failure of the reader. Every number has one canonical form: the significand has
53 bits, or the exponent is the least one. Zero keeps its sign.

All arithmetic is exact arithmetic on natural numbers followed by one rounding: `nearest?` takes a
quotient of natural numbers to the nearest number of the format, ties to the even significand, and
fails on overflow. A decimal text has two readings. `ofQuotient?` rounds the exact decimal once;
`scaled?` rounds the digits first and then applies the power of ten by a rounded multiplication or
division, which costs less and can differ in the last bit.
-/

namespace TagTemplate

/-- The number `significand * 2 ^ exponent` with a sign. -/
structure Binary64 where
  negative : Bool
  significand : Nat
  exponent : Int
deriving DecidableEq, Repr

namespace Binary64

/-- The least exponent of the format. -/
def leastExponent : Int := -1074

/-- The greatest exponent of the format. -/
def greatestExponent : Int := 971

/-- The zero with the given sign. -/
def zero (negative : Bool) : Binary64 := ⟨negative, 0, leastExponent⟩

/-- The quotient rounded to the nearest natural number, a tie to the even one. -/
def roundHalfEven (num den : Nat) : Nat :=
  let floor := num / den
  let twice := 2 * (num % den)
  if twice < den then floor
  else if den < twice then floor + 1
  else if floor % 2 = 0 then floor else floor + 1

/-- The quotient of `num / den` by `2 ^ exponent`, again as a quotient. -/
def shifted (num den : Nat) (exponent : Int) : Nat × Nat :=
  if 0 ≤ exponent then (num, den * Nat.pow 2 exponent.toNat)
  else (num * Nat.pow 2 (-exponent).toNat, den)

/-- The exponent under which the whole part of `num / den` has 53 bits, or the least exponent. -/
def exponentOf (num den : Nat) : Int :=
  let low : Int := (num.log2 : Int) - (den.log2 : Int) - 53
  let (n, d) := shifted num den low
  max leastExponent (if Nat.pow 2 53 ≤ n / d then low + 1 else low)

/-- The number nearest to `num / den`, or nothing when it overflows. -/
def nearest? (negative : Bool) (num den : Nat) : Option Binary64 :=
  if num = 0 then some (zero negative)
  else
    let exponent := exponentOf num den
    let (n, d) := shifted num den exponent
    let rounded := roundHalfEven n d
    let (significand, exponent) :=
      if rounded = Nat.pow 2 53 then (Nat.pow 2 52, exponent + 1) else (rounded, exponent)
    if significand = 0 then some (zero negative)
    else if greatestExponent < exponent then none
    else some ⟨negative, significand, exponent⟩

/-- The magnitude as a quotient of natural numbers. -/
def quotient (x : Binary64) : Nat × Nat :=
  if 0 ≤ x.exponent then (x.significand * Nat.pow 2 x.exponent.toNat, 1)
  else (x.significand, Nat.pow 2 (-x.exponent).toNat)

/-- The number nearest to `digits * 10 ^ exponent`, rounded once. Far outside the range of the
format the power of ten is not computed. -/
def ofDecimal? (negative : Bool) (digits : Nat) (exponent : Int) : Option Binary64 :=
  if digits = 0 then some (zero negative)
  else
    let magnitude : Int := (Nat.toDigits 10 digits).length + exponent
    if 400 < magnitude then none
    else if magnitude < -400 then some (zero negative)
    else if 0 ≤ exponent then nearest? negative (digits * Nat.pow 10 exponent.toNat) 1
    else nearest? negative digits (Nat.pow 10 (-exponent).toNat)

/-- The product with the number nearest to `10 ^ k`, rounded. -/
def timesPower? (x : Binary64) (k : Nat) : Option Binary64 := do
  let power ← nearest? false (Nat.pow 10 k) 1
  let (n, d) := x.quotient
  let (n', d') := power.quotient
  nearest? x.negative (n * n') (d * d')

/-- The quotient by the number nearest to `10 ^ k`, rounded. -/
def overPower? (x : Binary64) (k : Nat) : Option Binary64 := do
  let power ← nearest? false (Nat.pow 10 k) 1
  let (n, d) := x.quotient
  let (n', d') := power.quotient
  nearest? x.negative (n * d') (d * n')

/-- The greatest power of ten that is a number of the format. -/
def greatestPower : Nat := 308

/-- The digits rounded first and then scaled by the power of ten. A power below the range of the
format is applied in two divisions, and one below twice that range leaves nothing. -/
def scaled? (negative : Bool) (digits : Nat) (exponent : Int) : Option Binary64 := do
  let x ← nearest? negative digits 1
  let k := exponent.natAbs
  if x.significand = 0 then some x
  else if 0 ≤ exponent then
    if k ≤ greatestPower then x.timesPower? k else none
  else if k ≤ greatestPower then x.overPower? k
  else
    let y ← x.overPower? greatestPower
    if k - greatestPower ≤ greatestPower then y.overPower? (k - greatestPower)
    else some (zero negative)

end Binary64

end TagTemplate

/-!
# Binary floating-point numbers of 64 bits

A number is its 64 bits. Every finite number is a whole multiple of the smallest positive one,
`2 ^ -1074`, so a magnitude is a natural number of such units (`Binary64.units`) and rounding is
arithmetic on naturals: `Binary64.ofRatio` gives the number nearest to a quotient, and a tie goes to
the even neighbour.
-/

namespace CodeGraph

/-- A floating-point number, as its bits: a sign, eleven bits of exponent, 52 of fraction. -/
structure Binary64 where
  bits : UInt64
deriving DecidableEq, Repr, Inhabited

namespace Binary64

/-- The value of the sign bit. -/
def signBit : Nat := 0x8000000000000000

/-- The number of fractions: the weight of the last bit of the exponent. -/
def fractionSize : Nat := 0x10000000000000

/-- Whether the sign bit is set. -/
def isNegative (x : Binary64) : Bool := signBit ≤ x.bits.toNat

/-- The eleven bits of the exponent. -/
def exponentField (x : Binary64) : Nat := x.bits.toNat / fractionSize % 2048

/-- The 52 bits of the fraction. -/
def fractionField (x : Binary64) : Nat := x.bits.toNat % fractionSize

/-- Whether a number is neither infinite nor a NaN. -/
def isFinite (x : Binary64) : Bool := x.exponentField != 2047

/-- Whether a number is a NaN. -/
def isNaN (x : Binary64) : Bool := x.exponentField == 2047 && x.fractionField != 0

/-- The exponent of the last place of a finite number, counted in units. -/
def place (x : Binary64) : Nat := x.exponentField - 1

/-- The significand of a finite number: the fraction, with the leading bit of a normal number. -/
def significand (x : Binary64) : Nat :=
  if x.exponentField = 0 then x.fractionField else fractionSize + x.fractionField

/-- The magnitude of a finite number in units of `2 ^ -1074`. -/
def units (x : Binary64) : Nat := x.significand * Nat.pow 2 x.place

/-- How many units make one. -/
def unitsPerOne : Nat := Nat.pow 2 1074

/-- The bits of an infinity, without its sign. -/
def infinityBits : Nat := 2047 * fractionSize

/-- The quotient nearest to `num / den`; of two equally near ones, the even one. -/
def nearestQuotient (num den : Nat) : Nat :=
  let low := num / den
  let rest := num % den
  if 2 * rest < den then low
  else if den < 2 * rest then low + 1
  else low + low % 2

/-- A number of a given sign and magnitude bits; magnitudes out of range are infinite. -/
def ofMagnitude (negative : Bool) (magnitude : Nat) : Binary64 :=
  ⟨UInt64.ofNat ((if negative then signBit else 0) + min magnitude infinityBits)⟩

/-- The number nearest to `num / den`, for a positive `den`. -/
def ofRatio (negative : Bool) (num den : Nat) : Binary64 :=
  let scaled := num * unitsPerOne
  let place := Nat.log2 (scaled / den) - 52
  ofMagnitude negative (place * fractionSize + nearestQuotient scaled (den * Nat.pow 2 place))

/-- The number nearest to a natural number. -/
def ofNat (n : Nat) : Binary64 := ofRatio false n 1

/-- The number nearest to an integer. -/
def ofInt (n : Int) : Binary64 := ofRatio (n < 0) n.natAbs 1

/-- The number nearest to the decimal `coefficient * 10 ^ exponent`. -/
def ofDecimal (negative : Bool) (coefficient : Nat) (exponent : Int) : Binary64 :=
  ofRatio negative (coefficient * Nat.pow 10 exponent.toNat) (Nat.pow 10 (-exponent).toNat)

/-- The rounded product of two finite magnitudes. -/
def timesMagnitude (x y : Binary64) : Binary64 :=
  ofRatio false (x.units * y.units) (unitsPerOne * unitsPerOne)

/-- The rounded quotient of two finite magnitudes, the second one positive. -/
def overMagnitude (x y : Binary64) : Binary64 :=
  ofRatio false x.units y.units

/-- The same magnitude under a given sign. -/
def withSign (negative : Bool) (x : Binary64) : Binary64 :=
  ofMagnitude negative (x.bits.toNat % signBit)

/-- The integer that a finite number is, if it is one. -/
def toInt? (x : Binary64) : Option Int :=
  if x.isFinite && x.units % unitsPerOne == 0 then
    let magnitude := x.units / unitsPerOne
    some (if x.isNegative then -(magnitude : Int) else magnitude)
  else none

/-- The largest count of 64 bits. -/
def maxCount : Nat := 0xFFFFFFFFFFFFFFFF

/-- The number cut down to a count of 64 bits: a fraction is dropped, what is below zero or no
number counts as zero, and what is too large counts as the largest. -/
def toCount (x : Binary64) : Nat :=
  if x.isNaN then 0
  else if x.isNegative then 0
  else if x.isFinite then min (x.units / unitsPerOne) maxCount
  else maxCount

end Binary64

end CodeGraph

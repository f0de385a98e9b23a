import CodeGraph.Number.Shortest

/-!
# Numerals

A number in a document is kept as it is spelled: a sign, digits before the point, digits behind it,
and an exponent. Its value is a whole number of 64 bits where it is spelled as one and fits, and a
floating-point number otherwise. A floating-point value is worked out in a fixed way: as many
leading digits as fit 64 bits make a whole number, which is rounded and then multiplied or divided
by a power of ten; a value out of range is no value.

Floating-point numbers are written with the fewest digits that tell them apart: as decimals with a
point between `1e-5` and `1e16`, with an exponent elsewhere.
-/

namespace CodeGraph

/-- A number as it is spelled. -/
structure Numeral where
  negative : Bool := false
  whole : List Char
  /-- The digits behind the point, if there is a point. -/
  fraction : List Char := []
  /-- The sign and the digits of the exponent, if there is one. -/
  exponent : Option (Bool × List Char) := none
deriving DecidableEq, Repr

/-- The value of a numeral. -/
inductive NumeralValue where
  | natural (n : Nat)
  | negative (n : Int)
  | real (x : Binary64)
  | outOfRange
deriving DecidableEq, Repr

namespace Numeral

/-- The numeral of a natural number. -/
def ofNat (n : Nat) : Numeral := { whole := Nat.toDigits 10 n }

/-- The text of a numeral. -/
def text (numeral : Numeral) : List Char :=
  (if numeral.negative then ['-'] else []) ++ numeral.whole
    ++ (if numeral.fraction.isEmpty then [] else '.' :: numeral.fraction)
    ++ match numeral.exponent with
      | none => []
      | some (negative, digits) => 'e' :: ((if negative then ['-'] else []) ++ digits)

/-! ## Values -/

/-- The value of a digit. -/
def digit (c : Char) : Nat := c.toNat - '0'.toNat

/-- Append digits to a significand as long as it fits 64 bits; the rest of the digits is left. -/
def accumulate (significand : Nat) : List Char → Nat × List Char
  | [] => (significand, [])
  | c :: rest =>
    if 10 * significand + digit c ≤ Binary64.maxCount then accumulate (10 * significand + digit c) rest
    else (significand, c :: rest)

/-- The largest power of ten that a floating-point number can be. -/
def maxPower : Nat := 308

/-- A power of ten as a floating-point number. -/
def powerOfTen (n : Nat) : Binary64 := .ofDecimal false 1 n

/-- Whether a floating-point number is zero, of either sign. -/
def isZero (x : Binary64) : Bool := x.isFinite && x.units == 0

/-- Scale a magnitude down by a power of ten, `10 ^ 308` at a time. -/
def scaleDown (x : Binary64) (exponent : Nat) : Binary64 :=
  if exponent ≤ maxPower then x.overMagnitude (powerOfTen exponent)
  else if isZero x then x
  else scaleDown (x.overMagnitude (powerOfTen maxPower)) (exponent - maxPower)
termination_by exponent
decreasing_by simp_all [maxPower]; omega

/-- Scale a magnitude by a power of ten; nothing if that is out of range. -/
def scale (x : Binary64) (exponent : Int) : Option Binary64 :=
  if exponent < 0 then some (scaleDown x exponent.natAbs)
  else if isZero x then some x
  else if exponent.natAbs ≤ maxPower then
    let scaled := x.timesMagnitude (powerOfTen exponent.natAbs)
    if scaled.isFinite then some scaled else none
  else none

/-- The exponents that count; beyond them only the direction does. -/
def maxExponent : Nat := 0x7FFFFFFF

/-- The value of a numeral with a significand, the powers of ten that its digits amount to, and an
exponent. -/
def real (negative : Bool) (significand : Nat) (places : Int)
    (exponent : Option (Bool × List Char)) : NumeralValue :=
  let finish (total : Int) : NumeralValue :=
    match scale (.ofNat significand) total with
    | some x => .real (x.withSign negative)
    | none => .outOfRange
  match exponent with
  | none => finish places
  | some (below, digits) =>
    let size := digits.foldl (fun n c => 10 * n + digit c) 0
    if size ≤ maxExponent then
      let total := if below then places - size else places + size
      finish (max (min total maxExponent) (-(maxExponent + 1 : Int)))
    else if significand = 0 ∨ below then .real (Binary64.withSign negative (.ofNat 0))
    else .outOfRange

/-- The value of a numeral. -/
def value (numeral : Numeral) : NumeralValue :=
  let (whole, dropped) := accumulate 0 numeral.whole
  if numeral.fraction.isEmpty ∧ numeral.exponent = none ∧ dropped.isEmpty then
    if !numeral.negative then .natural whole
    else if 0 < whole ∧ whole ≤ 0x8000000000000000 then .negative (-(whole : Int))
    else .real (Binary64.withSign true (.ofNat whole))
  else
    let (significand, unread) := accumulate whole numeral.fraction
    let behind := numeral.fraction.length - unread.length
    real numeral.negative significand ((dropped.length : Int) - behind) numeral.exponent

/-- The floating-point number nearest to the value of a numeral, if that is in range. -/
def toBinary64? (numeral : Numeral) : Option Binary64 :=
  match numeral.value with
  | .natural n => some (.ofNat n)
  | .negative n => some (.ofInt n)
  | .real x => some x
  | .outOfRange => none

/-! ## Numerals of floating-point numbers -/

/-- The numeral of the digits `digits` with the point behind `point` of them, counted from the
left. -/
def ofDigits (negative : Bool) (digits : List Char) (point : Int) : Numeral :=
  let count := digits.length
  if count ≤ point ∧ point ≤ 16 then
    { negative, whole := digits ++ List.replicate (point.toNat - count) '0', fraction := ['0'] }
  else if 0 < point ∧ point ≤ 16 then
    { negative, whole := digits.take point.toNat, fraction := digits.drop point.toNat }
  else if -5 < point ∧ point ≤ 0 then
    { negative, whole := ['0'], fraction := List.replicate (-point).toNat '0' ++ digits }
  else
    let exponent := point - 1
    { negative, whole := digits.take 1, fraction := digits.drop 1
      exponent := some (exponent < 0, Nat.toDigits 10 exponent.natAbs) }

/-- The numeral of a finite floating-point number. -/
def ofBinary64 (x : Binary64) : Numeral :=
  if x.units = 0 then { negative := x.isNegative, whole := ['0'], fraction := ['0'] }
  else
    let shortest := x.shortest
    let digits := Nat.toDigits 10 shortest.coefficient
    ofDigits x.isNegative digits (digits.length + shortest.exponent)

end Numeral

end CodeGraph

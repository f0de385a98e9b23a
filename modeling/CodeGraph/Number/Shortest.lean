import CodeGraph.Number.Binary64

/-!
# The fewest digits that read back

The reals that round to a finite positive number form an interval around it, with its ends when the
significand is even. `Binary64.shortest` gives the decimal of fewest digits in that interval; of
several, the one nearest to the number, and of two equally near ones the even one.
-/

namespace CodeGraph

/-- The decimal `coefficient * 10 ^ exponent`. -/
structure Decimal where
  coefficient : Nat
  exponent : Int
deriving DecidableEq, Repr, Inhabited

namespace Binary64

/-- The decimal exponent of the leading digit of a positive number. -/
def leadingPlace (x : Binary64) : Int :=
  let scale : Nat := 340
  ((Nat.toDigits 10 (x.units * Nat.pow 10 scale / unitsPerOne)).length : Int) - 1 - scale

/-- Whether the decimal `c * 10 ^ k` rounds to a positive number. All is measured in quarters of a
unit, times the power of ten that makes it whole. -/
def admits (x : Binary64) (c : Nat) (k : Int) : Bool :=
  let up := Nat.pow 10 (-k).toNat
  let candidate := 4 * c * Nat.pow 10 k.toNat * unitsPerOne
  let gap := Nat.pow 2 x.place
  let below := if x.significand = fractionSize ∧ 1 < x.exponentField then gap else 2 * gap
  let low := (4 * x.units - below) * up
  let high := (4 * x.units + 2 * gap) * up
  if x.significand % 2 = 0 then low ≤ candidate && candidate ≤ high
  else low < candidate && candidate < high

/-- The point of the grid `10 ^ k` that stands for a positive number, if any point rounds to it. -/
def onGrid? (x : Binary64) (k : Int) : Option Nat :=
  let num := x.units * Nat.pow 10 (-k).toNat
  let den := unitsPerOne * Nat.pow 10 k.toNat
  let low := num / den
  let near := nearestQuotient num den
  let far := if near = low then low + 1 else low
  if x.admits near k then some near
  else if x.admits far k then some far
  else none

/-- The first grid, from `digits` digits on, that has a point for a positive number. -/
def shortestFrom (x : Binary64) (digits : Nat) : Nat → Decimal
  | 0 => ⟨x.units, 0⟩
  | more + 1 =>
    let k := x.leadingPlace + 1 - digits
    match x.onGrid? k with
    | some c => ⟨c, k⟩
    | none => x.shortestFrom (digits + 1) more

/-- The decimal of fewest digits that rounds to a positive number. A single digit rounded up to ten
is one of the next place. -/
def shortest (x : Binary64) : Decimal :=
  let found := x.shortestFrom 1 17
  if found.coefficient = 10 then ⟨1, found.exponent + 1⟩ else found

end Binary64

end CodeGraph

/-!
# Instants

An instant is a count of seconds since the start of 1970 in coordinated universal time, with
nanoseconds. The nanoseconds of a leap second run on past a thousand million, on its last regular
second. The library has no clock: what has to be stamped with the present is given the present.
-/

namespace CodeGraph

/-- A moment in time. -/
structure Instant where
  seconds : Int
  nanos : Nat
deriving DecidableEq, Repr, Inhabited

namespace Instant

/-- The start of 1970. -/
def epoch : Instant := ⟨0, 0⟩

/-- Whether an instant is earlier than another. -/
def before (a b : Instant) : Bool :=
  a.seconds < b.seconds || (a.seconds == b.seconds && a.nanos < b.nanos)

/-- The later of two instants. -/
def latest (a b : Instant) : Instant := if a.before b then b else a

end Instant

end CodeGraph

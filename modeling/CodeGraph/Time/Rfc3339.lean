import CodeGraph.Time.Instant
import CodeGraph.Time.Date
import CodeGraph.Part
import CodeGraph.Source.Text

/-!
# Instants as text

An instant is written as a date and a time of day in coordinated universal time, with as many
groups of three decimals as it needs. The reader takes that form and its relatives: any offset from
universal time, a blank or a small letter between date and time, single digits, and blanks around
the separators.
-/

namespace CodeGraph

namespace Instant

/-- A number with at least the given count of digits. -/
def padded (width n : Nat) : String :=
  let digits := Nat.toDigits 10 n
  String.ofList (List.replicate (width - digits.length) '0' ++ digits)

/-- The year of a date as text; one outside four digits bears its sign. -/
def yearText (year : Int) : String :=
  if 0 ≤ year ∧ year ≤ 9999 then padded 4 year.toNat
  else (if year < 0 then "-" else "+") ++ padded 4 year.natAbs

/-- The fraction of a second as text, in groups of three decimals. -/
def fractionText (nanos : Nat) : String :=
  if nanos = 0 then ""
  else if nanos % 1000000 = 0 then "." ++ padded 3 (nanos / 1000000)
  else if nanos % 1000 = 0 then "." ++ padded 6 (nanos / 1000)
  else "." ++ padded 9 nanos

/-- An instant as text. -/
def text (instant : Instant) : String :=
  let date := Date.ofDayNumber (instant.seconds / 86400)
  let inDay := (instant.seconds % 86400).toNat
  let leap := instant.nanos / 1000000000
  yearText date.year ++ "-" ++ padded 2 date.month ++ "-" ++ padded 2 date.day ++ "T"
    ++ padded 2 (inDay / 3600) ++ ":" ++ padded 2 (inDay / 60 % 60) ++ ":"
    ++ padded 2 (inDay % 60 + leap) ++ fractionText (instant.nanos % 1000000000) ++ "Z"

/-! ## Reading -/

/-- Drop the blanks at the start of a text. -/
def skipBlanks (text : List Char) : List Char := text.dropWhile isBlank

/-- Read a number of one digit up to `width` digits. -/
def number (width : Nat) : Part Nat := fun text =>
  match (text.take width).takeWhile Char.isDigit with
  | [] => none
  | digits => some (Part.digitsValue digits, text.drop digits.length)

/-- Read a number with blanks before it. -/
def field (width : Nat) : Part Nat := fun text => number width (skipBlanks text)

/-- Read a year: at most four digits, or any number of them behind a sign. -/
def yearPart : Part Int := fun text =>
  match skipBlanks text with
  | '-' :: rest => (number rest.length rest).map fun (n, rest) => (-(n : Int), rest)
  | '+' :: rest => (number rest.length rest).map fun (n, rest) => ((n : Int), rest)
  | text => (number 4 text).map fun (n, rest) => ((n : Int), rest)

/-- Read a character, with blanks before it. -/
def mark (c : Char) : Part Unit := fun text =>
  match skipBlanks text with
  | d :: rest => if d = c then some ((), rest) else none
  | [] => none

/-- Read a date. -/
def datePart : Part Date := fun text => do
  let (year, text) ← yearPart text
  let (_, text) ← mark '-' text
  let (month, text) ← field 2 text
  let (_, text) ← mark '-' text
  let (day, text) ← field 2 text
  return (⟨year, month, day⟩, text)

/-- Read a fraction of a second, if there is one; decimals behind the ninth count for nothing. -/
def nanosPart : Part Nat := fun text =>
  match text with
  | '.' :: rest =>
    match (rest.take 9).takeWhile Char.isDigit with
    | [] => none
    | digits =>
      some (Part.digitsValue digits * Nat.pow 10 (9 - digits.length), rest.dropWhile Char.isDigit)
  | text => some (0, text)

/-- A time of day: the second of the day and nanoseconds. -/
structure Clock where
  second : Nat
  nanos : Nat

/-- Read a time of day. Second 60 is a leap second. -/
def clockPart : Part Clock := fun text => do
  let (hour, text) ← field 2 text
  let (_, text) ← mark ':' text
  let (minute, text) ← field 2 text
  let (_, text) ← mark ':' text
  let (second, text) ← field 2 text
  let (nanos, text) ← nanosPart text
  guard (hour ≤ 23 && minute ≤ 59 && second ≤ 60)
  let start := hour * 3600 + minute * 60
  -- A leap second is told in the nanoseconds of the second before it.
  if second = 60 then return (⟨start + 59, nanos + 1000000000⟩, text)
  else return (⟨start + second, nanos⟩, text)

/-- Read hours and minutes of an offset, behind its sign. -/
def offsetMagnitude : Part Nat := fun text => do
  let (hours, text) ← Part.digits 2 text
  let (minutes, text) ← Part.digits 2 (text.dropWhile fun c => c == ':' || isBlank c)
  guard (minutes ≤ 59)
  return (hours * 3600 + minutes * 60, text)

/-- Read an offset from universal time, in seconds. -/
def offsetPart : Part Int := fun text =>
  match text with
  | 'Z' :: rest => some (0, rest)
  | 'z' :: rest => some (0, rest)
  | '+' :: rest => (offsetMagnitude rest).map fun (n, rest) => ((n : Int), rest)
  | '-' :: rest => (offsetMagnitude rest).map fun (n, rest) => (-(n : Int), rest)
  | '\u2212' :: rest => (offsetMagnitude rest).map fun (n, rest) => (-(n : Int), rest)
  | a :: b :: c :: rest =>
    if String.ofList [a.toUpper, b.toUpper, c.toUpper] = "UTC" then some (0, rest) else none
  | _ => none

/-- The largest year that an instant can have, to either side of zero. -/
def maxYear : Nat := 262142

/-- Read an instant. -/
def ofText? (text : String) : Option Instant := do
  let (date, rest) ← datePart text.toList
  let rest ←
    match rest with
    | 'T' :: rest => some rest
    | 't' :: rest => some rest
    | ' ' :: rest => some rest
    | _ => none
  let (clock, rest) ← clockPart rest
  let (offset, rest) ← offsetPart (skipBlanks rest)
  guard ((skipBlanks rest).isEmpty && date.isValid && offset.natAbs < 86400
    && date.year.natAbs ≤ maxYear)
  return ⟨date.dayNumber * 86400 + clock.second - offset, clock.nanos⟩

end Instant

end CodeGraph

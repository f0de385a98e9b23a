import CodeGraph.Number.Binary64
import CodeGraph.Part
import CodeGraph.Time.Date
import CodeGraph.Toml.Value

/-!
# Numbers and times of TOML

Whole numbers have 64 bits and a sign, in any of four bases; digits may be grouped by single
underscores. Other numbers and times are only looked over: a number must not be too large, a date
has to be on the calendar.
-/

namespace CodeGraph

namespace TomlNumber

/-- The value of a digit of any base. -/
def digitValue (c : Char) : Nat :=
  if c.isDigit then c.toNat - '0'.toNat
  else if 'a' ≤ c ∧ c ≤ 'z' then c.toNat - 'a'.toNat + 10
  else if 'A' ≤ c ∧ c ≤ 'Z' then c.toNat - 'A'.toNat + 10
  else 36

/-- The digits of a base at the start of a text behind a first one, without the underscores between
them, and the rest. -/
def moreDigits (base : Nat) : List Char → List Nat × List Char
  | '_' :: c :: rest =>
    if digitValue c < base then
      let (digits, rest) := moreDigits base rest
      (digitValue c :: digits, rest)
    else ([], '_' :: c :: rest)
  | c :: rest =>
    if digitValue c < base then
      let (digits, rest) := moreDigits base rest
      (digitValue c :: digits, rest)
    else ([], c :: rest)
  | [] => ([], [])

/-- Read digits of a base. -/
def digits (base : Nat) : Part (List Nat) := fun text =>
  match text with
  | c :: rest =>
    if digitValue c < base then
      let (digits, rest) := moreDigits base rest
      some (digitValue c :: digits, rest)
    else none
  | [] => none

/-- The value of digits of a base. -/
def valueOf (base : Nat) (digits : List Nat) : Nat :=
  digits.foldl (fun n digit => base * n + digit) 0

/-- Read a sign; the flag tells whether it is a minus. -/
def sign (text : List Char) : Bool × List Char :=
  match text with
  | '-' :: rest => (true, rest)
  | '+' :: rest => (false, rest)
  | text => (false, text)

/-- Read the digits of a decimal number before its point: a zero stands alone. -/
def whole : Part (List Nat) := fun text =>
  match text with
  | '0' :: rest => some ([0], rest)
  | text => digits 10 text

/-- The largest whole number. -/
def maxInteger : Nat := 0x7FFFFFFFFFFFFFFF

/-- The whole number of a sign and a magnitude, if it has 64 bits. -/
def integer? (negative : Bool) (magnitude : Nat) : Option TomlValue :=
  if negative then
    if magnitude ≤ maxInteger + 1 then some (.integer (-(magnitude : Int))) else none
  else if magnitude ≤ maxInteger then some (.integer magnitude)
  else none

/-- Read a whole number of a base behind its prefix. -/
def based (base : Nat) : Part TomlValue := fun text => do
  let (digits, rest) ← digits base text
  return (← integer? false (valueOf base digits), rest)

/-- Read a whole number. -/
def integer : Part TomlValue := fun text =>
  match text with
  | '0' :: 'x' :: rest => based 16 rest
  | '0' :: 'o' :: rest => based 8 rest
  | '0' :: 'b' :: rest => based 2 rest
  | text => do
    let (negative, text) := sign text
    let (digits, rest) ← whole text
    return (← integer? negative (valueOf 10 digits), rest)

/-- Read the digits behind a point, if there is a point. -/
def fraction (text : List Char) : Option (Option (List Nat) × List Char) :=
  match text with
  | '.' :: rest => (digits 10 rest).map fun (digits, rest) => (some digits, rest)
  | text => some (none, text)

/-- Read an exponent, if there is one. -/
def exponent (text : List Char) : Option (Option Int × List Char) :=
  match text with
  | [] => some (none, [])
  | c :: rest =>
    if c = 'e' ∨ c = 'E' then do
      let (negative, rest) := sign rest
      let (digits, rest) ← digits 10 rest
      let size : Int := valueOf 10 digits
      return (some (if negative then -size else size), rest)
    else some (none, c :: rest)

/-- Whether the number of significant digits, with the point before an exponent behind the last one,
is too large for a floating-point number. -/
def isTooLarge (digits : List Nat) (exponent : Int) : Bool :=
  let significant := digits.dropWhile (· == 0)
  let size := significant.length + exponent
  if significant.isEmpty ∨ size < 300 then false
  else if 320 < size then true
  else !(Binary64.ofDecimal false (valueOf 10 significant) exponent).isFinite

/-- Read a decimal number with a point or an exponent. -/
def decimal : Part TomlValue := fun text => do
  let (negative, text) := sign text
  let (whole, text) ← whole text
  let (fraction, text) ← fraction text
  let (exponent, text) ← exponent text
  guard (fraction.isSome || exponent.isSome)
  -- A number that is too large is refused above zero only.
  let places := fraction.getD []
  guard (negative || !isTooLarge (whole ++ places) (exponent.getD 0 - places.length))
  return (.real, text)

/-- Read the words for what is no finite number. -/
def special : Part TomlValue := fun text =>
  let (_, text) := sign text
  match text with
  | 'i' :: 'n' :: 'f' :: rest => some (.real, rest)
  | 'n' :: 'a' :: 'n' :: rest => some (.real, rest)
  | _ => none

/-! ## Times -/

/-- Read a number of exactly `count` digits that is at most `max`. -/
def bounded (count max : Nat) : Part Nat := fun text => do
  let (n, rest) ← Part.digits count text
  guard (n ≤ max)
  return (n, rest)

/-- Read a date. -/
def date : Part Unit := fun text => do
  let (year, text) ← Part.digits 4 text
  let (_, text) ← Part.word ['-'] text
  let (month, text) ← Part.digits 2 text
  let (_, text) ← Part.word ['-'] text
  let (day, text) ← Part.digits 2 text
  guard (Date.isValid ⟨year, month, day⟩)
  return ((), text)

/-- Read decimals of a second, if there are any. -/
def decimals : Part Unit := fun text =>
  match text with
  | '.' :: rest =>
    let after := rest.dropWhile Char.isDigit
    if after.length < rest.length then some ((), after) else none
  | text => some ((), text)

/-- Read a time of day. -/
def clock : Part Unit := fun text => do
  let (_, text) ← bounded 2 23 text
  let (_, text) ← Part.word [':'] text
  let (_, text) ← bounded 2 59 text
  let (_, text) ← Part.word [':'] text
  let (_, text) ← bounded 2 60 text
  decimals text

/-- Read hours and minutes. -/
def hoursAndMinutes : Part Unit := fun text => do
  let (_, text) ← bounded 2 23 text
  let (_, text) ← Part.word [':'] text
  let (_, text) ← bounded 2 59 text
  return ((), text)

/-- Read an offset from universal time, if there is one. -/
def offset : Part Unit := fun text =>
  match text with
  | 'Z' :: rest => some ((), rest)
  | 'z' :: rest => some ((), rest)
  | '+' :: rest => hoursAndMinutes rest
  | '-' :: rest => hoursAndMinutes rest
  | text => some ((), text)

/-- Read a time of day with an offset behind a date, if there is one. -/
def clockBehindDate : Part Unit := fun text =>
  match text with
  | c :: rest =>
    if c = 'T' ∨ c = 't' ∨ c = ' ' ∧ (rest.head?.any Char.isDigit) then do
      let (_, rest) ← clock rest
      offset rest
    else some ((), c :: rest)
  | [] => some ((), [])

/-- Read a date, a time of day, or both. -/
def time : Part TomlValue := fun text => do
  let (_, rest) ←
    match date text with
    | some (_, rest) => clockBehindDate rest
    | none => clock text
  return (.time, rest)

/-- Read a number or a time. -/
def read : Part TomlValue := fun text =>
  (time text).orElse fun _ => (decimal text).orElse fun _ =>
    (special text).orElse fun _ => integer text

end TomlNumber

end CodeGraph

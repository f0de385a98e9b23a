/-!
# Parts of a text

A part of a text is read off its start: the reader gives what it read and the rest of the text, or
nothing where the text does not start so.
-/

namespace CodeGraph

/-- A reader of a part of a text: what it reads, and the rest. -/
abbrev Part (α : Type) := List Char → Option (α × List Char)

namespace Part

/-- The value of a list of decimal digits. -/
def digitsValue (digits : List Char) : Nat :=
  digits.foldl (fun n c => 10 * n + (c.toNat - '0'.toNat)) 0

/-- Read exactly `count` decimal digits. -/
def digits (count : Nat) : Part Nat := fun text =>
  let read := text.take count
  if read.length = count ∧ read.all Char.isDigit then
    some (digitsValue read, text.drop count)
  else none

/-- Read a word. -/
def word (word : List Char) : Part Unit := fun text =>
  if word.isPrefixOf text then some ((), text.drop word.length) else none

end Part

end CodeGraph

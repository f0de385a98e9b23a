import CodeGraph.Json.Doc

/-!
# Reading documents

The grammar of JSON over a list of characters. Every reader gives what it read and the rest of the
text; no rest means that reading stopped at a fault.
-/

namespace CodeGraph

namespace Doc

/-- Whether a character may stand between the parts of a document. -/
def isSpace (c : Char) : Bool := c == ' ' || c == '\n' || c == '\t' || c == '\r'

/-- Drop the white space at the start of a text. -/
def skipSpace (text : List Char) : List Char := text.dropWhile isSpace

/-- The value of a hexadecimal digit. -/
def hexDigit? (c : Char) : Option Nat :=
  if c.isDigit then some (c.toNat - '0'.toNat)
  else if 'a' ≤ c ∧ c ≤ 'f' then some (c.toNat - 'a'.toNat + 10)
  else if 'A' ≤ c ∧ c ≤ 'F' then some (c.toNat - 'A'.toNat + 10)
  else none

/-- The number of bytes of a text. -/
def byteCount (text : List Char) : Nat := (String.ofList text).utf8ByteSize

/-- Read four hexadecimal digits. A text of fewer than four bytes has ended. -/
def readHex (text : List Char) : Except Fault (Nat × List Char) :=
  match text with
  | a :: b :: c :: d :: rest =>
    match hexDigit? a, hexDigit? b, hexDigit? c, hexDigit? d with
    | some a, some b, some c, some d => .ok (((a * 16 + b) * 16 + c) * 16 + d, rest)
    | _, _, _, _ => .error .malformed
  | short => .error (if byteCount short < 4 then .ended else .malformed)

/-- The character of a plain escape. -/
def plainEscape? (c : Char) : Option Char :=
  match c with
  | '"' => some '"'
  | '\\' => some '\\'
  | '/' => some '/'
  | 'b' => some '\x08'
  | 'f' => some '\x0c'
  | 'n' => some '\n'
  | 'r' => some '\r'
  | 't' => some '\t'
  | _ => none

/-- Read what follows the first four digits of a numeric escape: a high half needs its low half. -/
def readUnit (unit : Nat) (text : List Char) : Except Fault (Char × List Char) :=
  if unit < 0xD800 ∨ 0xDFFF < unit then .ok (Char.ofNat unit, text)
  else if 0xDC00 ≤ unit then .error .malformed
  else
    match text with
    | '\\' :: 'u' :: rest => do
      let (low, rest) ← readHex rest
      if low < 0xDC00 ∨ 0xDFFF < low then .error .malformed
      else .ok (Char.ofNat (0x10000 + (unit - 0xD800) * 0x400 + (low - 0xDC00)), rest)
    | ['\\'] => .error .ended
    | [] => .error .ended
    | _ => .error .malformed

/-- Read the characters of a text up to its closing quote, in at most `fuel` steps. -/
def readChars (fuel : Nat) (text read : List Char) : Except Fault (List Char × List Char) :=
  match fuel with
  | 0 => .error .ended
  | fuel + 1 =>
    match text with
    | [] => .error .ended
    | '"' :: rest => .ok (read.reverse, rest)
    | ['\\'] => .error .ended
    | '\\' :: 'u' :: rest =>
      match readHex rest with
      | .error fault => .error fault
      | .ok (unit, rest) =>
        match readUnit unit rest with
        | .error fault => .error fault
        | .ok (c, rest) => readChars fuel rest (c :: read)
    | '\\' :: c :: rest =>
      match plainEscape? c with
      | some c => readChars fuel rest (c :: read)
      | none => .error .malformed
    | c :: rest => if c.toNat < 0x20 then .error .malformed else readChars fuel rest (c :: read)

/-- Skip the characters of a text up to its closing quote, in at most `fuel` steps; numeric escapes
need not denote characters. -/
def skipChars (fuel : Nat) (text : List Char) : Except Fault (List Char) :=
  match fuel with
  | 0 => .error .ended
  | fuel + 1 =>
    match text with
    | [] => .error .ended
    | '"' :: rest => .ok rest
    | ['\\'] => .error .ended
    | '\\' :: 'u' :: rest =>
      match readHex rest with
      | .error fault => .error fault
      | .ok (_, rest) => skipChars fuel rest
    | '\\' :: c :: rest =>
      match plainEscape? c with
      | some _ => skipChars fuel rest
      | none => .error .malformed
    | c :: rest => if c.toNat < 0x20 then .error .malformed else skipChars fuel rest

/-- Read a text behind its opening quote: its content, and the rest behind its closing quote. -/
def readText (text : List Char) : Except Fault String × Except Fault (List Char) :=
  let fuel := text.length + 1
  let content :=
    match readChars fuel text [] with
    | .ok (chars, _) => .ok (String.ofList chars)
    | .error fault => .error fault
  (content, skipChars fuel text)

/-- Read the digits at the start of a text. -/
def readDigits (text : List Char) : List Char × List Char :=
  (text.takeWhile Char.isDigit, text.dropWhile Char.isDigit)

/-- The fault of a number that lacks a digit before a text. -/
def digitFault (text : List Char) : Fault := if text.isEmpty then .ended else .malformed

/-- Read the digits before the point: a zero stands alone. -/
def readWhole (text : List Char) : Except Fault (List Char × List Char) :=
  match readDigits text with
  | ([], rest) => .error (digitFault rest)
  | ('0' :: _ :: _, _) => .error .malformed
  | read => .ok read

/-- Read the digits behind the point, if there is a point. -/
def readFraction (text : List Char) : Except Fault (List Char × List Char) :=
  match text with
  | '.' :: rest =>
    match readDigits rest with
    | ([], rest) => .error (digitFault rest)
    | read => .ok read
  | text => .ok ([], text)

/-- Read the exponent, if there is one. -/
def readExponent (text : List Char) : Except Fault (Option (Bool × List Char) × List Char) :=
  let digits (negative : Bool) (text : List Char) :
      Except Fault (Option (Bool × List Char) × List Char) :=
    match readDigits text with
    | ([], rest) => .error (digitFault rest)
    | (digits, rest) => .ok (some (negative, digits), rest)
  match text with
  | 'e' :: rest => signed digits rest
  | 'E' :: rest => signed digits rest
  | text => .ok (none, text)
where
  /-- Read a sign before digits. -/
  signed (digits : Bool → List Char → Except Fault (Option (Bool × List Char) × List Char))
      (text : List Char) : Except Fault (Option (Bool × List Char) × List Char) :=
    match text with
    | '-' :: rest => digits true rest
    | '+' :: rest => digits false rest
    | text => digits false text

/-- Read a number behind its sign. -/
def readNumeral (negative : Bool) (text : List Char) : Except Fault (Numeral × List Char) := do
  let (whole, text) ← readWhole text
  let (fraction, text) ← readFraction text
  let (exponent, text) ← readExponent text
  return ({ negative, whole, fraction, exponent }, text)

/-- Read a number as a document. -/
def readNumber (negative : Bool) (text : List Char) : Doc × Option (List Char) :=
  match readNumeral negative text with
  | .ok (numeral, rest) => (number numeral, some rest)
  | .error fault => (broken fault .inNumber, none)

/-- Read the rest of a word that stands for a document. -/
def readWord (doc : Doc) : List Char → List Char → Doc × Option (List Char)
  | [], rest => (doc, some rest)
  | _ :: _, [] => (broken .ended .inWord, none)
  | w :: word, c :: rest =>
    if c = w then readWord doc word rest else (broken .malformed .inWord, none)

/-- The fault of a text in which something else was expected. -/
def faultAt (text : List Char) : Fault := if text.isEmpty then .ended else .malformed

mutual

/-- Read a document, in at most `fuel` steps. -/
def read (fuel : Nat) (text : List Char) : Doc × Option (List Char) :=
  match fuel with
  | 0 => (broken .ended .ahead, none)
  | fuel + 1 =>
    match skipSpace text with
    | [] => (broken .ended .ahead, none)
    | 'n' :: rest => readWord null ['u', 'l', 'l'] rest
    | 't' :: rest => readWord (bool true) ['r', 'u', 'e'] rest
    | 'f' :: rest => readWord (bool false) ['a', 'l', 's', 'e'] rest
    | '-' :: rest => readNumber true rest
    | '"' :: rest =>
      match readText rest with
      | (content, .ok rest) => (Doc.text content, some rest)
      | (.error fault, .error skipped) => (broken fault (.inText skipped), none)
      | (.ok _, .error fault) => (broken fault (.inText fault), none)
    | '[' :: rest =>
      match skipSpace rest with
      | ']' :: rest => (array [] .closed, some rest)
      | [] => (array [] (.unclosed .ended), none)
      | rest =>
        let (items, ending, rest) := readItems fuel rest
        (array items ending, rest)
    | '\x7b' :: rest =>
      match skipSpace rest with
      | '\x7d' :: rest => (object [] .closed, some rest)
      | '"' :: rest =>
        let (members, ending, rest) := readMembers fuel rest
        (object members ending, rest)
      | [] => (object [] (.unclosed .ended), none)
      | rest => (object [] (.unkeyed (read fuel rest).1.mismatch), none)
    | c :: rest =>
      if c.isDigit then readNumber false (c :: rest) else (broken .malformed .ahead, none)

/-- Read the items of an array from the first one on. -/
def readItems (fuel : Nat) (text : List Char) : List Doc × Ending × Option (List Char) :=
  match fuel with
  | 0 => ([], .unclosed .ended, none)
  | fuel + 1 =>
    match read fuel text with
    | (item, none) => ([item], .closed, none)
    | (item, some rest) =>
      match skipSpace rest with
      | ']' :: rest => ([item], .closed, some rest)
      | ',' :: rest =>
        match skipSpace rest with
        | [] => ([item], .afterComma .ended, none)
        | ']' :: _ => ([item], .afterComma .malformed, none)
        | rest =>
          let (items, ending, rest) := readItems fuel rest
          (item :: items, ending, rest)
      | rest => ([item], .unclosed (faultAt rest), none)

/-- Read the members of an object from the first key on, behind its opening quote. -/
def readMembers (fuel : Nat) (text : List Char) :
    List (Except Fault String × Doc) × Ending × Option (List Char) :=
  match fuel with
  | 0 => ([], .unclosed .ended, none)
  | fuel + 1 =>
    match readText text with
    | (key, .error skipped) => ([(key, broken skipped (.inText skipped))], .closed, none)
    | (key, .ok rest) =>
      match skipSpace rest with
      | ':' :: rest =>
        match read fuel rest with
        | (value, none) => ([(key, value)], .closed, none)
        | (value, some rest) =>
          match skipSpace rest with
          | '\x7d' :: rest => ([(key, value)], .closed, some rest)
          | ',' :: rest =>
            match skipSpace rest with
            | '"' :: rest =>
              let (members, ending, rest) := readMembers fuel rest
              ((key, value) :: members, ending, rest)
            | rest => ([(key, value)], .afterComma (faultAt rest), none)
          | rest => ([(key, value)], .unclosed (faultAt rest), none)
      | rest => ([(key, broken (faultAt rest) .ahead)], .closed, none)

end

/-- Read a text as a document: the document, and what follows it. -/
def parse (text : String) : Doc × Option (List Char) :=
  read (2 * text.length + 2) text.toList

end Doc

end CodeGraph

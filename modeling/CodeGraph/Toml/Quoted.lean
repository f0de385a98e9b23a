import CodeGraph.Part

/-!
# Texts of TOML

A text stands between double quotes, with escapes, or between single quotes, as it is; between three
quotes of either kind it may run over several lines. A line end is read as a line feed, whichever
way it is written.

Writing picks the form that shows the text most plainly (`TomlText.write`).
-/

namespace CodeGraph

namespace TomlText

/-! ## Reading -/

/-- Whether a character may stand in a comment. -/
def isCommentChar (c : Char) : Bool := c == '\t' || (0x20 ≤ c.toNat && c.toNat != 0x7f)

/-- The value of a hexadecimal digit. -/
def hexDigit? (c : Char) : Option Nat :=
  if c.isDigit then some (c.toNat - '0'.toNat)
  else if 'a' ≤ c ∧ c ≤ 'f' then some (c.toNat - 'a'.toNat + 10)
  else if 'A' ≤ c ∧ c ≤ 'F' then some (c.toNat - 'A'.toNat + 10)
  else none

/-- The value of hexadecimal digits. -/
def hexValue? (digits : List Char) : Option Nat :=
  digits.foldlM (fun n c => (hexDigit? c).map (16 * n + ·)) 0

/-- Read the character of exactly `count` hexadecimal digits. -/
def codePoint (count : Nat) : Part Char := fun text => do
  let digits := text.take count
  guard (digits.length = count)
  let n ← hexValue? digits
  guard (n.isValidChar)
  return (Char.ofNat n, text.drop count)

/-- Read what an escape stands for, behind its backslash. -/
def escaped : Part Char := fun text =>
  match text with
  | 'b' :: rest => some ('\x08', rest)
  | 't' :: rest => some ('\t', rest)
  | 'n' :: rest => some ('\n', rest)
  | 'f' :: rest => some ('\x0c', rest)
  | 'r' :: rest => some ('\r', rest)
  | '"' :: rest => some ('"', rest)
  | '\\' :: rest => some ('\\', rest)
  | 'u' :: rest => codePoint 4 rest
  | 'U' :: rest => codePoint 8 rest
  | _ => none

/-- Read the rest of a text on one line up to its closing quote, in at most `fuel` steps. -/
def line (quote : Char) (fuel : Nat) (read : List Char) : Part String := fun text =>
  match fuel with
  | 0 => none
  | fuel + 1 =>
    match text with
    | [] => none
    | c :: rest =>
      if c = quote then some (String.ofList read.reverse, rest)
      else if c = '\\' ∧ quote = '"' then do
        let (c, rest) ← escaped rest
        line quote fuel (c :: read) rest
      else if isCommentChar c then line quote fuel (c :: read) rest
      else none

/-- Drop spaces and tabs. -/
def skipSpaces (text : List Char) : List Char := text.dropWhile fun c => c == ' ' || c == '\t'

/-- Read a line end. -/
def lineEnd : Part Unit := fun text =>
  match text with
  | '\n' :: rest => some ((), rest)
  | '\r' :: '\n' :: rest => some ((), rest)
  | _ => none

/-- Drop spaces, tabs and line ends, in at most `fuel` steps. -/
def skipLines (fuel : Nat) (text : List Char) : List Char :=
  match fuel with
  | 0 => text
  | fuel + 1 =>
    match lineEnd (skipSpaces text) with
    | some (_, rest) => skipLines fuel rest
    | none => skipSpaces text

/-- Read the rest of a text over several lines up to its closing quotes, in at most `fuel` steps. Of
more than three quotes at the end up to two belong to the text. -/
def lines (quote : Char) (fuel : Nat) (read : List Char) : Part String := fun text =>
  match fuel with
  | 0 => none
  | fuel + 1 =>
    match text with
    | [] => none
    | c :: rest =>
      if c = quote then
        let run := (text.takeWhile (· = quote)).length
        if 3 ≤ run then
          let inside := min (run - 3) 2
          some (String.ofList (List.replicate inside quote ++ read).reverse, text.drop (inside + 3))
        else if run < text.length then
          lines quote fuel (List.replicate run quote ++ read) (text.drop run)
        else none
      else if c = '\\' ∧ quote = '"' then
        match lineEnd (skipSpaces rest) with
        | some (_, rest) => lines quote fuel read (skipLines rest.length rest)
        | none => do
          let (c, rest) ← escaped rest
          lines quote fuel (c :: read) rest
      else
        match lineEnd text with
        | some (_, rest) => lines quote fuel ('\n' :: read) rest
        | none => if isCommentChar c then lines quote fuel (c :: read) rest else none

/-- Read a text on one line. -/
def short : Part String := fun text =>
  match text with
  | '"' :: rest => line '"' text.length [] rest
  | '\'' :: rest => line '\'' text.length [] rest
  | _ => none

/-- Read a text. A line end right behind three quotes does not count. -/
def read : Part String := fun text =>
  let long (quote : Char) (rest : List Char) : Option (String × List Char) :=
    let rest := match lineEnd rest with
      | some (_, rest) => rest
      | none => rest
    lines quote text.length [] rest
  match text with
  | '"' :: '"' :: '"' :: rest => long '"' rest
  | '\'' :: '\'' :: '\'' :: rest => long '\'' rest
  | text => short text

/-! ## Writing -/

/-- Whether a character is a control character that has to be escaped: tabs and line feeds need not
be everywhere. -/
def isControl (c : Char) : Bool :=
  (c.toNat < 0x20 && c != '\t' && c != '\n') || c == '\x7f'

/-- The length of the longest run of a character. -/
def longestRun (c : Char) (text : List Char) : Nat :=
  (text.foldl
    (fun (run, longest) d =>
      let run := if d = c then run + 1 else 0
      (run, max longest run))
    (0, 0)).2

/-- The ways to write a text. -/
inductive Style where
  /-- Between double quotes. -/
  | escaped
  /-- Between single quotes. -/
  | plain
  /-- Between three double quotes. -/
  | longEscaped
  /-- Between three single quotes. -/
  | longPlain
deriving DecidableEq, Repr

/-- The way in which a text is written: without escapes if that is possible, and as short as
possible. -/
def style (text : List Char) : Style :=
  let controls := text.any isControl
  let newline := text.contains '\n'
  let backslash := text.contains '\\'
  let doubles := longestRun '"' text
  let singles := longestRun '\'' text
  if !controls ∧ !newline ∧ !backslash ∧ doubles = 0 then .escaped
  else if !controls ∧ !newline ∧ singles = 0 then .plain
  else if !controls ∧ !backslash ∧ doubles ≤ 2 then .longEscaped
  else if !controls ∧ singles ≤ 2 then .longPlain
  else if newline then .longEscaped
  else .escaped

/-- A hexadecimal digit. -/
def hexDigit (n : Nat) : Char := if n < 10 then Char.ofNat (48 + n) else Char.ofNat (55 + n)

/-- The escape of a character that has one. -/
def escape? (c : Char) : Option (List Char) :=
  if c = '\\' then some ['\\', '\\']
  else if c = '\x08' then some ['\\', 'b']
  else if c = '\t' then some ['\\', 't']
  else if c = '\x0c' then some ['\\', 'f']
  else if c = '\r' then some ['\\', 'r']
  else if c.toNat < 0x20 ∨ c = '\x7f' then
    some ['\\', 'u', '0', '0', hexDigit (c.toNat / 16), hexDigit (c.toNat % 16)]
  else none

/-- The content of a text between double quotes. -/
def escapeLine (text : List Char) : List Char :=
  text.flatMap fun c =>
    if c = '"' then ['\\', '"']
    else if c = '\n' then ['\\', 'n']
    else (escape? c).getD [c]

/-- The content of a text between three double quotes: every third quote in a row is escaped. `run`
counts the quotes before. -/
def escapeLines (run : Nat) : List Char → List Char
  | [] => []
  | c :: rest =>
    if c = '"' then
      if run = 2 then '\\' :: '"' :: escapeLines 0 rest else '"' :: escapeLines (run + 1) rest
    else if c = '\n' then '\n' :: escapeLines 0 rest
    else (escape? c).getD [c] ++ escapeLines 0 rest

/-- The written form of a text. -/
def write (value : String) : List Char :=
  let text := value.toList
  let start := if text.contains '\n' then ['\n'] else []
  match style text with
  | .escaped => '"' :: escapeLine text ++ ['"']
  | .plain => '\'' :: text ++ ['\'']
  | .longEscaped => ['"', '"', '"'] ++ start ++ escapeLines 0 text ++ ['"', '"', '"']
  | .longPlain => ['\'', '\'', '\''] ++ start ++ text ++ ['\'', '\'', '\'']

end TomlText

end CodeGraph

import CodeGraph.Toml.Number
import CodeGraph.Toml.Quoted

/-!
# Reading TOML

A document is a sequence of lines: headers, each of which opens a table, and pairs of a key and a
value, which belong to the table opened last. It is read into its lines first, then the tables are
put together (`Toml.ofText?`).
-/

namespace CodeGraph

namespace Toml

open TomlText (skipSpaces lineEnd)

/-! ## Values -/

/-- Drop a comment at the start of a text. -/
def skipComment (text : List Char) : List Char :=
  match text with
  | '#' :: rest => rest.dropWhile TomlText.isCommentChar
  | text => text

/-- Drop white space, line ends and comments, in at most `fuel` steps. A comment has to end with a
line end. -/
def skipBetween (fuel : Nat) (text : List Char) : List Char :=
  match fuel with
  | 0 => text
  | fuel + 1 =>
    match lineEnd (skipComment (skipSpaces text)) with
    | some (_, rest) => skipBetween fuel rest
    | none => skipSpaces text

/-- Whether a character may stand in a key without quotes. -/
def isKeyChar (c : Char) : Bool := c.isAlphanum || c == '_' || c == '-'

/-- Read one part of a key. -/
def keyPart : Part String := fun text =>
  match text with
  | '"' :: _ => TomlText.short text
  | '\'' :: _ => TomlText.short text
  | text =>
    match text.takeWhile isKeyChar with
    | [] => none
    | name => some (String.ofList name, text.drop name.length)

/-- Read a dotted key, in at most `fuel` steps. White space around its parts does not count. -/
def key (fuel : Nat) : Part (List String) := fun text =>
  match fuel with
  | 0 => none
  | fuel + 1 => do
    let (name, rest) ← keyPart (skipSpaces text)
    match skipSpaces rest with
    | '.' :: rest =>
      let (names, rest) ← key fuel rest
      return (name :: names, rest)
    | rest => return ([name], rest)

/-- How deep values may stand inside each other, and how many parts a key may have. -/
def maxDepth : Nat := 80

/-- Read a dotted key of less than the greatest number of parts. -/
def boundedKey : Part (List String) := fun text => do
  let (names, rest) ← key text.length text
  guard (names.length < maxDepth)
  return (names, rest)

/-- Put the pairs between braces together. -/
def inlineTable? (pairs : List (List String × TomlValue)) : Option TomlValue :=
  (TomlEntries.insertAll? [] pairs).map (.table .inline)

mutual

/-- Read a value, in at most `fuel` steps. -/
def value (fuel depth : Nat) : Part TomlValue := fun text =>
  match fuel with
  | 0 => none
  | fuel + 1 =>
    match text with
    | 't' :: 'r' :: 'u' :: 'e' :: rest => some (.flag true, rest)
    | 'f' :: 'a' :: 'l' :: 's' :: 'e' :: rest => some (.flag false, rest)
    | '[' :: rest => do
      guard (1 < depth)
      let (values, rest) ← items fuel (depth - 1) rest
      return (.array values, rest)
    | '\x7b' :: rest => do
      guard (1 < depth)
      match skipSpaces rest with
      | '\x7d' :: rest => return (.table .inline [], rest)
      | rest =>
        let (pairs, rest) ← pairs fuel (depth - 1) rest
        return (← inlineTable? pairs, rest)
    | text =>
      match TomlText.read text with
      | some (content, rest) => some (.text content, rest)
      | none => TomlNumber.read text

/-- Read the items of an array up to its closing bracket. -/
def items (fuel depth : Nat) : Part (List TomlValue) := fun text =>
  match fuel with
  | 0 => none
  | fuel + 1 =>
    match skipBetween text.length text with
    | ']' :: rest => some ([], rest)
    | text => do
      let (item, rest) ← value fuel depth text
      match skipBetween rest.length rest with
      | ',' :: rest =>
        let (others, rest) ← items fuel depth rest
        return (item :: others, rest)
      | ']' :: rest => return ([item], rest)
      | _ => none

/-- Read the pairs of an inline table up to its closing brace. -/
def pairs (fuel depth : Nat) : Part (List (List String × TomlValue)) := fun text =>
  match fuel with
  | 0 => none
  | fuel + 1 => do
    let (path, rest) ← boundedKey text
    let (_, rest) ← Part.word ['='] rest
    let (found, rest) ← value fuel depth (skipSpaces rest)
    match skipSpaces rest with
    | ',' :: rest =>
      let (others, rest) ← pairs fuel depth rest
      return ((path, found) :: others, rest)
    | '\x7d' :: rest => return ([(path, found)], rest)
    | _ => none

end

/-! ## Lines -/

/-- A line that says something. -/
inductive Line where
  | header (repeated : Bool) (path : List String)
  | pair (path : List String) (value : TomlValue)
deriving Repr

/-- Read a header behind its first bracket. -/
def header : Part Line := fun text =>
  match text with
  | '[' :: rest => do
    let (path, rest) ← boundedKey rest
    let (_, rest) ← Part.word [']', ']'] rest
    return (.header true path, rest)
  | text => do
    let (path, rest) ← boundedKey text
    let (_, rest) ← Part.word [']'] rest
    return (.header false path, rest)

/-- Read a pair of a key and a value. -/
def pair : Part Line := fun text => do
  let (path, rest) ← boundedKey text
  let (_, rest) ← Part.word ['='] rest
  let (found, rest) ← value (2 * rest.length + 2) maxDepth (skipSpaces rest)
  return (.pair path found, rest)

/-- Drop the rest of a line: white space, a comment, and the line end or the end of the text. -/
def finishLine (text : List Char) : Option (List Char) :=
  match skipComment (skipSpaces text) with
  | [] => some []
  | rest => (lineEnd rest).map Prod.snd

/-- Read the lines of a document, in at most `fuel` steps. -/
def lines (fuel : Nat) (text : List Char) : Option (List Line) :=
  match fuel with
  | 0 => none
  | fuel + 1 =>
    match skipSpaces text with
    | [] => some []
    | '#' :: rest => (finishLine ('#' :: rest)).bind (lines fuel)
    | '\n' :: rest => lines fuel rest
    | '\r' :: '\n' :: rest => lines fuel rest
    | '[' :: rest => do
      let (line, rest) ← header rest
      return line :: (← lines fuel (← finishLine rest))
    | rest => do
      let (line, rest) ← pair rest
      return line :: (← lines fuel (← finishLine rest))

/-! ## Documents -/

/-- The pairs above the first header, and the sections of the headers. -/
def sections : List Line → List (List String × TomlValue) × List TomlSection
  | [] => ([], [])
  | .pair path value :: rest =>
    let (pairs, others) := sections rest
    ((path, value) :: pairs, others)
  | .header repeated path :: rest =>
    let (pairs, others) := sections rest
    ([], ⟨repeated, path, pairs⟩ :: others)

/-- The entries of the table that a document is. -/
def ofText? (text : String) : Option TomlEntries := do
  let text := match text.toList with
    | '\ufeff' :: rest => rest
    | text => text
  let (pairs, others) := sections (← lines (text.length + 1) text)
  others.foldlM (fun entries part => part.addTo? entries) (← TomlEntries.insertAll? [] pairs)

end Toml

end CodeGraph

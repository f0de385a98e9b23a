import CodeGraph.Files.IgnorePattern
import CodeGraph.Source.Text

/-!
# Ignore rules

A rule file holds one rule a line. A rule tells of the paths that match its pattern that they are to
be passed over or, after `!`, that they are to be kept; after a final slash it tells so of
directories only. A pattern with a slash inside is for paths relative to the directory of the file,
any other for names at any depth below it. Of the rules that match, the last one decides
(`IgnoreRule.verdict?`).
-/

namespace CodeGraph

/-- What a rule says of a path. -/
inductive Verdict where
  | pass
  | keep
deriving DecidableEq, Repr

/-- An ignore rule. -/
structure IgnoreRule where
  /-- The sequences of elements that the pattern stands for. -/
  patterns : List (List Wildcard)
  verdict : Verdict
  directoriesOnly : Bool
deriving DecidableEq, Repr

namespace IgnoreRule

/-! ## Reading -/

/-- A text without the white space at its end. -/
def trimEnd (text : List Char) : List Char := (text.reverse.dropWhile isBlank).reverse

/-- Whether a text ends with another one. -/
def endsWith (text tail : List Char) : Bool := tail.isSuffixOf text

/-- A line without the white space at its end, unless that is a space behind a backslash. -/
def significant (line : List Char) : List Char :=
  if endsWith line ['\\', ' '] then line else trimEnd line

/-- The marks before a pattern: what the rule says, whether the pattern is for paths relative to the
directory, and the pattern. -/
def marks (line : List Char) : Verdict × Bool × List Char :=
  match line with
  | '\\' :: '!' :: rest => (.pass, false, '!' :: rest)
  | '\\' :: '#' :: rest => (.pass, false, '#' :: rest)
  | '!' :: '/' :: rest => (.keep, true, rest)
  | '!' :: rest => (.keep, false, rest)
  | '/' :: rest => (.pass, true, rest)
  | rest => (.pass, false, rest)

/-- A pattern without the slash at its end, and whether there is one. A backslash before that slash
goes too. -/
def dropFinalSlash (pattern : List Char) : Bool × List Char :=
  match pattern.reverse with
  | '/' :: '\\' :: back => (true, back.reverse)
  | '/' :: back => (true, back.reverse)
  | _ => (false, pattern)

/-- A pattern that is for names at any depth. -/
def anywhere (pattern : List Char) : List Char :=
  if pattern = ['*', '*'] ∨ ['*', '*', '/'].isPrefixOf pattern then pattern
  else '*' :: '*' :: '/' :: pattern

/-- A pattern for all that is in a directory, made to leave the directory itself out. -/
def insideOnly (pattern : List Char) : List Char :=
  if endsWith pattern ['/', '*', '*'] then pattern ++ ['/', '*'] else pattern

/-- The rule of a line; nothing if the line is blank, a comment, or malformed. -/
def ofLine? (line : List Char) : Option IgnoreRule :=
  if line.head? = some '#' then none
  else
    match significant line with
    | [] => none
    | line =>
      let (verdict, relative, pattern) := marks line
      let (directoriesOnly, pattern) := dropFinalSlash pattern
      let pattern := insideOnly (if relative ∨ '/' ∈ pattern then pattern else anywhere pattern)
      (IgnorePart.ofText? (String.ofList pattern)).map fun parts =>
        { patterns := IgnorePart.elements parts, verdict, directoriesOnly }

/-- The lines of a file as bytes, without their ends. -/
def lines (content : List UInt8) : List (List UInt8) :=
  let pieces := content.splitOn 10
  let ended (line : List UInt8) : List UInt8 :=
    if line.getLast? = some 13 then line.dropLast else line
  pieces.dropLast.map ended ++ pieces.drop (pieces.length - 1)

/-- The texts of lines, up to the first one that is no text. -/
def texts (lines : List (List UInt8)) : List (List Char) :=
  let read := lines.map fun line => String.fromUTF8? ⟨line.toArray⟩
  (read.takeWhile Option.isSome).filterMap fun text => text.map String.toList

/-- The rules of a rule file. A mark of the byte order at its start does not count. -/
def ofContent (content : ByteArray) : List IgnoreRule :=
  match texts (lines content.toList) with
  | [] => []
  | first :: rest => (first.dropWhile (· == '\ufeff') :: rest).filterMap ofLine?

/-! ## Meaning -/

/-- Whether a rule is about a path, given as its bytes relative to the directory of the rule. -/
def concerns (rule : IgnoreRule) (path : List Nat) (isDirectory : Bool) : Bool :=
  (isDirectory || !rule.directoriesOnly) &&
    rule.patterns.any fun elements => Wildcard.accepts elements path

/-- What the rules of one file say of a path: what the last rule about it says. -/
def verdict? (rules : List IgnoreRule) (path : List Nat) (isDirectory : Bool) : Option Verdict :=
  (rules.reverse.find? fun rule => rule.concerns path isDirectory).map IgnoreRule.verdict

end IgnoreRule

end CodeGraph

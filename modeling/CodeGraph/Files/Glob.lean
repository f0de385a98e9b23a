import CodeGraph.Files.Wildcard

/-!
# Globs

The patterns that select files by their path. `?` stands for one character and `*` for any number of
them, slashes included; `[...]` stands for one of the characters listed, `[!...]` for one of the
others. `**` has to be a whole component: it stands for any number of directories, or for all the
rest at the end. Everything else stands for itself; there is no escape.
-/

namespace CodeGraph

/-- A part of a glob. -/
inductive GlobPart where
  /-- One character of a set. -/
  | one (set : SymbolSet)
  | anyNumber
  /-- Any number of directories, with the slash behind each. -/
  | directories
deriving DecidableEq, Repr

/-- A glob. -/
structure Glob where
  parts : List GlobPart
deriving DecidableEq, Repr

namespace Glob

/-- The ranges that are listed between brackets. -/
def ranges : List Char → List (Nat × Nat)
  | low :: '-' :: high :: rest => (low.toNat, high.toNat) :: ranges rest
  | c :: rest => (c.toNat, c.toNat) :: ranges rest
  | [] => []

/-- Read a list of characters behind its opening bracket: its set, and the rest of the pattern. The
first character listed may be a closing bracket. -/
def set? (text : List Char) : Option (SymbolSet × List Char) :=
  match text with
  | '!' :: first :: rest => listed true first rest
  | first :: rest => if first = '!' then none else listed false first rest
  | [] => none
where
  /-- The set of the characters up to the closing bracket. -/
  listed (negated : Bool) (first : Char) (rest : List Char) : Option (SymbolSet × List Char) :=
    let inside := rest.takeWhile (· ≠ ']')
    match rest.drop inside.length with
    | _ :: after => some (⟨ranges (first :: inside), negated⟩, after)
    | [] => none

/-- Read the parts of a pattern behind a given character, in at most `fuel` steps. -/
def parts? (fuel : Nat) (before : Option Char) (text : List Char) : Option (List GlobPart) :=
  match fuel with
  | 0 => none
  | fuel + 1 =>
    match text with
    | [] => some []
    | '*' :: '*' :: rest =>
      if before = none ∨ before = some '/' then
        match rest with
        | [] => some [.directories]
        | '/' :: rest => (GlobPart.directories :: ·) <$> parts? fuel (some '/') rest
        | _ => none
      else none
    | '*' :: rest => (GlobPart.anyNumber :: ·) <$> parts? fuel (some '*') rest
    | '?' :: rest => (GlobPart.one .all :: ·) <$> parts? fuel (some '?') rest
    | '[' :: rest =>
      match set? rest with
      | some (set, rest) => (GlobPart.one set :: ·) <$> parts? fuel (some ']') rest
      | none => none
    | c :: rest => (GlobPart.one (.only c.toNat) :: ·) <$> parts? fuel (some c) rest

/-- The glob of a pattern, if it is well formed. -/
def ofText? (pattern : String) : Option Glob :=
  let text := pattern.toList
  Glob.mk <$> parts? (text.length + 1) none text

/-- The sequences of elements that parts of a glob stand for. -/
def alternatives : List GlobPart → List (List Wildcard)
  | [] => [[]]
  | .one set :: rest => (alternatives rest).map (.one set :: ·)
  | .anyNumber :: rest => (alternatives rest).map (.anything :: ·)
  | [.directories] => [[.anything]]
  | .directories :: rest =>
    let after := alternatives rest
    after ++ after.map ([.anything, .separator] ++ ·)

/-- Whether a glob selects a path, given relative to the directory that is searched. -/
def accepts (glob : Glob) (path : String) : Bool :=
  (alternatives glob.parts).any fun elements =>
    Wildcard.accepts elements (path.toList.map Char.toNat)

end Glob

end CodeGraph

import CodeGraph.Files.Wildcard

/-!
# Patterns of ignore rules

The patterns of the rules that tell which files to pass over. They work on the bytes of a path. `?`
stands for one byte and `*` for any number of bytes, but not for a slash. `**` as a whole component
stands for any number of directories; elsewhere it is two `*`. `[...]` lists bytes, after `!` or `^`
the bytes that may not stand; `{…,…}` holds alternatives; a backslash takes the meaning of the
next character away. A bracket that is never closed stands for itself.
-/

namespace CodeGraph

/-- A part of the pattern of an ignore rule. -/
inductive IgnorePart where
  | literal (c : Char)
  /-- One byte of a set. -/
  | one (set : SymbolSet)
  /-- Any number of bytes within a name. -/
  | anyNumber
  /-- Any directories before a name. -/
  | leading
  /-- A slash and all that follows. -/
  | trailing
  /-- Any directories between two names, with the slashes around them. -/
  | between
  | alternatives (branches : List (List IgnorePart))
deriving Repr, Inhabited

namespace IgnorePart

/-- The symbols of a character: its bytes. -/
def bytesOf (c : Char) : List Nat :=
  (String.singleton c).toUTF8.toList.map UInt8.toNat

/-! ## Lists of characters in brackets -/

/-- What follows an opening bracket. -/
inductive Listed where
  /-- A list of ranges, and the rest of the pattern. -/
  | closed (ranges : List (Char × Char)) (rest : List Char)
  | unclosed
  /-- A range that ends before it starts. -/
  | inverted
deriving Repr

/-- Read the characters listed in brackets. The ranges so far are given with the latest first;
`pending` tells that a hyphen after the latest one was read. -/
def readListed (ranges : List (Char × Char)) (pending : Bool) : List Char → Listed
  | [] => .unclosed
  | c :: rest =>
    match ranges with
    | [] => readListed [(c, c)] false rest
    | latest :: earlier =>
      if c = ']' then
        .closed (if pending then ('-', '-') :: ranges else ranges).reverse rest
      else if pending then
        if c < latest.1 then .inverted else readListed ((latest.1, c) :: earlier) false rest
      else if c = '-' then readListed ranges true rest
      else readListed ((c, c) :: ranges) false rest

/-- The ranges of bytes that a range of characters amounts to. -/
def byteRanges (range : Char × Char) : List (Nat × Nat) :=
  let single (bytes : List Nat) := bytes.map fun byte => (byte, byte)
  let low := bytesOf range.1
  let high := bytesOf range.2
  if range.1 = range.2 then single low
  else single low.dropLast ++ (low.getLastD 0, high.headD 0) :: single high.tail

/-! ## Reading -/

/-- A pattern as far as it is read: the parts of the branch that is open, the latest first, and for
every group that is open its finished branches and the parts before it. -/
structure Draft where
  parts : List IgnorePart := []
  groups : List (List (List IgnorePart) × List IgnorePart) := []
  /-- Whether an opening bracket was never closed; all others stand for themselves then. -/
  plainBrackets : Bool := false

namespace Draft

/-- Append a part. -/
def push (draft : Draft) (part : IgnorePart) : Draft :=
  { draft with parts := part :: draft.parts }

/-- Append two stars that are no component of their own. -/
def pushStars (draft : Draft) : Draft := (draft.push .anyNumber).push .anyNumber

/-- Put a part that covers the slash before it in place of that slash. What covers any directories
already stays. -/
def cover (draft : Draft) (part : IgnorePart) : Draft :=
  match draft.parts with
  | .leading :: _ => draft
  | .trailing :: _ => draft
  | _ :: earlier => { draft with parts := part :: earlier }
  | [] => draft

/-- Open a group. -/
def openGroup (draft : Draft) : Draft :=
  { draft with parts := [], groups := ([], draft.parts) :: draft.groups }

/-- Start another branch of the group that is open; without one a comma stands for itself. -/
def nextBranch (draft : Draft) : Draft :=
  match draft.groups with
  | [] => draft.push (.literal ',')
  | (branches, before) :: outer =>
    { draft with parts := [], groups := (draft.parts.reverse :: branches, before) :: outer }

/-- Close the group that is open, if there is one. -/
def closeGroup? (draft : Draft) : Option Draft :=
  match draft.groups with
  | [] => none
  | (branches, before) :: outer =>
    let group := alternatives (draft.parts.reverse :: branches).reverse
    some { draft with parts := group :: before, groups := outer }

end Draft

/-- Append what two stars stand for between a given character and the rest of the pattern. The flag
tells whether the slash behind them belongs to them. -/
def readStars (draft : Draft) (before : Option Char) (rest : List Char) : Draft × Bool :=
  let inGroup := !draft.groups.isEmpty
  if draft.parts.isEmpty then
    match rest with
    | [] => (draft.push .leading, false)
    | '/' :: _ => (draft.push .leading, true)
    | _ => (draft.pushStars, false)
  else if before ≠ some '/' ∧ (!inGroup ∨ before ≠ some ',' ∧ before ≠ some '\x7b') then
    (draft.pushStars, false)
  else
    match rest with
    | [] => (draft.cover .trailing, false)
    | '/' :: _ => (draft.cover .between, true)
    | c :: _ =>
      if inGroup ∧ (c = ',' ∨ c = '\x7d') then (draft.cover .trailing, false)
      else (draft.pushStars, false)

/-- Read a pattern behind a given character, in at most `fuel` steps. -/
def read? (fuel : Nat) (draft : Draft) (before : Option Char) (text : List Char) : Option Draft :=
  match fuel with
  | 0 => none
  | fuel + 1 =>
    match text with
    | [] => some draft
    | '?' :: rest => read? fuel (draft.push (.one (.allBut Wildcard.slash))) (some '?') rest
    | '*' :: '*' :: rest =>
      let (draft, slashToo) := readStars draft before rest
      if slashToo then read? fuel draft (some '/') rest.tail
      else read? fuel draft (some '*') rest
    | '*' :: rest => read? fuel (draft.push .anyNumber) (some '*') rest
    | '[' :: rest =>
      if draft.plainBrackets then read? fuel (draft.push (.literal '[')) (some '[') rest
      else
        let (negated, listed) :=
          match rest with
          | '!' :: listed => (true, listed)
          | '^' :: listed => (true, listed)
          | listed => (false, listed)
        match readListed [] false listed with
        | .closed ranges rest =>
          read? fuel (draft.push (.one ⟨ranges.flatMap byteRanges, negated⟩)) (some ']') rest
        | .unclosed =>
          read? fuel { draft.push (.literal '[') with plainBrackets := true } (some '[') rest
        | .inverted => none
    | '\x7b' :: rest => read? fuel draft.openGroup (some '\x7b') rest
    | '\x7d' :: rest =>
      match draft.closeGroup? with
      | some draft => read? fuel draft (some '\x7d') rest
      | none => none
    | ',' :: rest => read? fuel draft.nextBranch (some ',') rest
    | '\\' :: c :: rest => read? fuel (draft.push (.literal c)) (some c) rest
    | ['\\'] => none
    | c :: rest => read? fuel (draft.push (.literal c)) (some c) rest

/-- The parts of a pattern, if it is well formed. -/
def ofText? (pattern : String) : Option (List IgnorePart) :=
  let text := pattern.toList
  (read? (text.length + 1) {} none text).bind fun draft =>
    if draft.groups.isEmpty then some draft.parts.reverse else none

/-! ## Meaning -/

mutual

/-- Whether a part stands for nothing at all: a group without a branch that stands for something. -/
def isVoid : IgnorePart → Bool
  | alternatives branches => areVoid branches
  | _ => false

/-- Whether every part of a branch stands for nothing. -/
def isVoidBranch : List IgnorePart → Bool
  | [] => true
  | part :: rest => part.isVoid && isVoidBranch rest

/-- Whether every branch of a group stands for nothing. -/
def areVoid : List (List IgnorePart) → Bool
  | [] => true
  | branch :: rest => isVoidBranch branch && areVoid rest

end

mutual

/-- The sequences of elements that a part stands for. -/
def expand : IgnorePart → List (List Wildcard)
  | literal c => [(bytesOf c).map fun byte => .one (.only byte)]
  | one set => [[.one set]]
  | anyNumber => [[.many (.allBut Wildcard.slash)]]
  | leading => [[], [.separator], [.anything, .separator]]
  | trailing => [[.separator, .anything]]
  | between => [[.separator], [.separator, .anything, .separator]]
  | alternatives branches => if areVoid branches then [[]] else expandBranches branches

/-- The sequences of elements that a branch stands for. -/
def expandAll : List IgnorePart → List (List Wildcard)
  | [] => [[]]
  | part :: rest => part.expand.flatMap fun before => (expandAll rest).map (before ++ ·)

/-- The sequences of elements that the branches of a group stand for, void ones left out. -/
def expandBranches : List (List IgnorePart) → List (List Wildcard)
  | [] => []
  | branch :: rest =>
    (if isVoidBranch branch then [] else expandAll branch) ++ expandBranches rest

end

/-- The sequences of elements that a pattern stands for. -/
def elements : List IgnorePart → List (List Wildcard)
  | [leading] => [[.anything]]
  | parts => expandAll parts

end IgnorePart

end CodeGraph

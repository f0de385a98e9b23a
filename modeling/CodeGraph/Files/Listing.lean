import CodeGraph.Files.FileTree
import CodeGraph.Files.Glob
import CodeGraph.Files.IgnoreRule

/-!
# Finding source files

The files below a directory that some glob selects. Names that start with a dot are passed over
unless an ignore rule keeps them, and so are files and directories that a rule tells to pass over,
directories of names that never hold sources, and links.

There are three kinds of rule files, and a rule of one kind counts only where those of the kinds
before are silent (`ruleFiles`). Within a kind, rules of the directory at hand come before those of
the directories above, up to the root of the tree.
-/

namespace CodeGraph

/-- The names of directories that are never entered. -/
def alwaysExcluded : List String :=
  ["node_modules", "dist", "build", "out", "coverage", ".next"]

/-- The rule files that a directory can have, by precedence. -/
def ruleFiles : List (List String) :=
  [[".ignore"], [".gitignore"], [".git", "info", "exclude"]]

/-- The rules of one rule file, and the directory that they are for. -/
structure PlacedRules where
  place : List String
  rules : List IgnoreRule
deriving DecidableEq, Repr

/-- The rules in force in a directory: for each kind of rule file those of the directory and of the
directories above it, the nearest first. No list at all if rules do not count. -/
abbrev RulesInForce := List (List PlacedRules)

/-- Names as they are written relative to a directory. -/
def relativeText (names : List String) : String := String.intercalate "/" names

namespace PlacedRules

/-- What the rules say of a place below their directory. -/
def verdict? (placed : PlacedRules) (place : List String) (isDirectory : Bool) : Option Verdict :=
  let text := relativeText (place.drop placed.place.length)
  IgnoreRule.verdict? placed.rules (text.toUTF8.toList.map UInt8.toNat) isDirectory

end PlacedRules

namespace RulesInForce

/-- The rules in force before any directory is entered. -/
def start (respected : Bool) : RulesInForce :=
  if respected then ruleFiles.map fun _ => [] else []

/-- The rules in force in a directory, given those in force in the directory above. -/
def enter (rules : RulesInForce) (tree : FileTree) (place : List String) : RulesInForce :=
  (ruleFiles.zip rules).map fun (name, chain) =>
    match tree.readBytes (FileTree.pathOf (place ++ name)) with
    | .ok content => ⟨place, IgnoreRule.ofContent content⟩ :: chain
    | .error _ => chain

/-- What the rules in force say of a place. -/
def verdict? (rules : RulesInForce) (place : List String) (isDirectory : Bool) : Option Verdict :=
  rules.findSome? fun chain => chain.findSome? fun placed => placed.verdict? place isDirectory

end RulesInForce

/-- What to look for. -/
structure Selection where
  /-- Globs that select files by their path relative to the directory that is searched. Malformed
  ones select nothing. -/
  globs : List String
  /-- Names of directories that are not entered, beside those that never are. -/
  excludedDirectories : List String := []
  /-- Whether ignore rules count. -/
  respectRules : Bool := true
deriving DecidableEq, Repr

namespace FileTree

/-- Whether a name is hidden. -/
def isHidden (name : String) : Bool := name.toList.head? == some '.'

/-- Whether an entry of a directory is passed over. -/
def isPassedOver (rules : RulesInForce) (place : List String) (name : String)
    (isDirectory : Bool) : Bool :=
  match rules.verdict? (place ++ [name]) isDirectory with
  | some .pass => true
  | some .keep => false
  | none => isHidden name

mutual

/-- The places of the files at and below an entry of a directory. -/
def filesAt (tree : FileTree) (excluded : List String) (rules : RulesInForce) (place : List String)
    (name : String) : FileTree → List (List String)
  | file _ => if isPassedOver rules place name false then [] else [place ++ [name]]
  | link _ => []
  | directory entries =>
    -- What is passed over is not entered, so no rule can keep a file below it.
    if isPassedOver rules place name true || excluded.contains name then []
    else
      let inside := place ++ [name]
      filesAmong tree excluded (rules.enter tree inside) inside entries

/-- The places of the files at and below the entries of a directory. -/
def filesAmong (tree : FileTree) (excluded : List String) (rules : RulesInForce)
    (place : List String) : List (String × FileTree) → List (List String)
  | [] => []
  | (name, entry) :: rest =>
    filesAt tree excluded rules place name entry ++ filesAmong tree excluded rules place rest

end

/-- The rules in force at a place: those of its directory and of all above it. -/
def rulesAt (tree : FileTree) (respected : Bool) (place : List String) : RulesInForce :=
  let above := (List.range (place.length + 1)).map place.take
  above.foldl (fun rules directory => rules.enter tree directory) (.start respected)

/-- The places of the files at and below a place. -/
def filesBelow (tree : FileTree) (selection : Selection) (place : List String) :
    List (List String) :=
  match tree.get? place with
  | some (directory entries) =>
    let excluded := selection.excludedDirectories ++ alwaysExcluded
    filesAmong tree excluded (tree.rulesAt selection.respectRules place) place entries
  | some (file _) => [place]
  | _ => []

/-- The files to read below a directory, in the order of their paths. -/
def discover (tree : FileTree) (root : Path) (selection : Selection) :
    Except FileError (List Path) := do
  let place ← tree.locate root
  let globs := selection.globs.filterMap Glob.ofText?
  let selected := (tree.filesBelow selection place).filter fun found =>
    globs.any fun glob => glob.accepts (relativeText (found.drop place.length))
  return (selected.map pathOf).mergeSort fun a b => !b.before a

end FileTree

end CodeGraph

import CodeGraph.Files.FileTree
import CodeGraph.Graph.Query

/-!
# Settings

What a user can say about builds and queries. The settings for a directory are those of the file
`.cpg.toml` in it or in the nearest directory above it that has one.
-/

namespace CodeGraph

/-- Which files are built, and how. -/
structure BuildSettings where
  /-- Globs that select source files by their path relative to the directory that is built. -/
  globs : List String := ["**/*.ts", "**/*.tsx", "**/*.mts", "**/*.cts"]
  /-- Names of directories that are not entered. -/
  excludedDirectories : List String := []
  /-- Whether files are built at the same time; the graph is the same either way. -/
  parallel : Bool := true
  /-- Whether ignore rules count. -/
  respectRules : Bool := true
deriving DecidableEq, Repr, Inhabited

/-- How far queries go. -/
structure QuerySettings where
  /-- How many paths a query collects at most. -/
  maxPaths : Nat := defaultMaxPaths
deriving DecidableEq, Repr, Inhabited

/-- All settings. -/
structure Settings where
  build : BuildSettings := {}
  query : QuerySettings := {}
deriving DecidableEq, Repr, Inhabited

namespace Settings

/-- The name of a file of settings. -/
def fileName : String := ".cpg.toml"

/-- A directory and the directories above it, as their components, the nearest first. -/
def directoriesUpward (path : Path) : List (List Path.Component) :=
  let components := path.components
  let upward := ((List.range (components.length + 1)).map components.take).reverse
  if path.isAbsolute then upward.dropLast else upward

/-- The path of a file of settings in a directory that is given by its components. -/
def fileIn (directory : List Path.Component) : Path :=
  let names := directory.filterMap fun component =>
    match component with
    | .root => none
    | other => some other.text
  let start := if directory.head? = some .root then "/" else ""
  ⟨start ++ String.intercalate "/" (names ++ [fileName])⟩

/-- The file of settings for a directory, if there is one. -/
def fileFor? (tree : FileTree) (directory : Path) : Option Path :=
  ((directoriesUpward directory).map fileIn).find? tree.holds

end Settings

end CodeGraph

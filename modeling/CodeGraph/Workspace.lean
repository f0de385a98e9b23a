import CodeGraph.Build
import CodeGraph.Files.Listing
import CodeGraph.Settings
import CodeGraph.Source.Dialect

/-!
# Graphs of files and directories

A workspace is a tree of files together with a grammar, by which the syntax tree of a text is found.
Building never fails: what cannot be read has no nodes.
-/

namespace CodeGraph

/-- How the syntax tree of a text comes about. -/
abbrev Grammar := Dialect → SourceText → Tree

/-- Files, and what is needed to build them. -/
structure Workspace where
  files : FileTree
  grammar : Grammar
  /-- The time at which graphs are made. -/
  present : Instant

namespace Workspace

/-- Read a file and find its syntax tree. -/
def parse (workspace : Workspace) (path : Path) : Except FileError SourceFile := do
  let source := SourceText.ofString (← workspace.files.readText path)
  return { path, source, tree := workspace.grammar (Dialect.ofPath path) source }

/-- The graph of a file; empty if the file cannot be read. -/
def buildFile (workspace : Workspace) (path : Path) : Graph :=
  match workspace.parse path with
  | .ok file => .ofFile workspace.present file
  | .error _ => Graph.empty.stamped workspace.present

/-- The graph of some files, with the calls between them. -/
def buildFiles (workspace : Workspace) (paths : List Path) : Graph :=
  .ofFiles workspace.present paths (paths.map workspace.buildFile)

/-- The graph of the source files below a directory, with the calls between them. Globs that are
given take the place of those in the settings. -/
def buildDirectory (workspace : Workspace) (settings : BuildSettings) (root : Path)
    (globs : Option (List String) := none) : Graph :=
  let selection : Selection :=
    { globs := globs.getD settings.globs
      excludedDirectories := settings.excludedDirectories
      respectRules := settings.respectRules }
  match workspace.files.discover root selection with
  | .ok paths => workspace.buildFiles paths
  | .error _ => Graph.empty.stamped workspace.present

end Workspace

end CodeGraph

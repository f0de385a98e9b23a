import CodeGraph.Path

/-!
# Dialects

Which grammar a file is read with, by the extension of its name.
-/

namespace CodeGraph

/-- A flavour of the grammar. -/
inductive Dialect where
  | typeScript
  /-- With elements of markup in expressions. -/
  | tsx
deriving DecidableEq, Repr

/-- The name of a dialect. -/
def Dialect.name : Dialect → String
  | typeScript => "TypeScript"
  | tsx => "Tsx"

/-- The dialect of a file: markup for `.tsx` and `.jsx`, plain for all else. -/
def Dialect.ofPath (path : Path) : Dialect :=
  match path.extension? with
  | some "tsx" => tsx
  | some "jsx" => tsx
  | _ => typeScript

/-- The extensions of the files that are read. -/
def sourceExtensions : List String :=
  [".ts", ".tsx", ".mts", ".cts", ".js", ".jsx", ".mjs", ".cjs"]

end CodeGraph

import CodeGraph.Source.Text
import CodeGraph.Source.Tree

/-!
# Syntax problems

A parser that recovers from faults leaves two traces in the tree: nodes for text that fits nowhere,
and nodes that it supplied. Each is a problem, reported in the order of the text. The walk enters
only what is marked as holding an error or is itself supplied, so trees without faults cost nothing.
-/

namespace CodeGraph

/-- What is wrong at a place. -/
inductive ProblemCause where
  /-- A node of a kind is missing. -/
  | missing (kind : String)
  /-- The text fits nowhere. -/
  | unexpected
deriving DecidableEq, Repr

/-- The wording of a problem. -/
def ProblemCause.message : ProblemCause → String
  | missing kind => "missing `" ++ kind ++ "`"
  | unexpected => "unexpected syntax"

/-- A syntax problem and its place. -/
structure Problem where
  line : Nat
  column : Nat
  cause : ProblemCause
deriving DecidableEq, Repr

namespace Shape

/-- Whether a node is a problem. -/
def isProblem (shape : Shape) : Bool := shape.isError || shape.isMissing

/-- Whether the walk for problems enters a node. -/
def isSuspect (shape : Shape) : Bool := shape.hasError || shape.isMissing

/-- The problem that a node is, if it is one. -/
def problem? (source : SourceText) (shape : Shape) : Option Problem :=
  if shape.isProblem then
    some
      { line := source.line shape.start
        column := source.column shape.start
        cause := if shape.isMissing then .missing shape.kind else .unexpected }
  else none

end Shape

namespace Tree

/-- The children that the walk for problems enters. -/
def suspects (tree : Tree) : List Tree := tree.children.filter fun child => child.shape.isSuspect

/-- What is entered below the tree on top of a stack is less than that tree. -/
theorem sizeAll_suspects_lt {stack : Array Tree} {tree : Tree} (top : stack.back? = some tree) :
    sizeAll (stack.pop ++ tree.suspects.reverse).toList < sizeAll stack.toList := by
  obtain ⟨rest, rfl⟩ := Array.back?_eq_some_iff.1 top
  have less : sizeAll tree.suspects < tree.size := by
    cases tree with
    | node shape children =>
      have : sizeAll (node shape children).suspects ≤ sizeAll children :=
        sizeAll_filter_le _ children
      rw [size]
      omega
  simp only [Array.pop_push, Array.toList_appendList, Array.toList_push, sizeAll_append,
    sizeAll_reverse, sizeAll]
  omega

/-- Report the problems of the trees on a stack, that on its top first, behind those that have been
found. -/
def report (source : SourceText) (stack : Array Tree) (found : Array Problem) : Array Problem :=
  match top : stack.back? with
  | none => found
  | some tree =>
    -- The first child that is entered goes onto the stack last, so that it comes next.
    report source (stack.pop ++ tree.suspects.reverse)
      (found ++ (tree.shape.problem? source).toArray)
termination_by sizeAll stack.toList
decreasing_by exact sizeAll_suspects_lt top

/-- The problems of a tree. -/
def problems (source : SourceText) (tree : Tree) : List Problem :=
  if tree.shape.hasError then (report source #[tree] #[]).toList else []

/-- Whether a tree has problems. -/
def hasProblems (source : SourceText) (tree : Tree) : Bool := !(tree.problems source).isEmpty

end Tree

end CodeGraph

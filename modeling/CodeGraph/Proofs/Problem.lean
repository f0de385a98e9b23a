import Mathlib.Data.List.Forall2
import Mathlib.Data.List.TakeWhile
import CodeGraph.Proofs.Tree
import CodeGraph.Source.Problem

/-!
# Problems in the order of the text

The walk for problems goes over a stack and enters only what is suspect. Where a parser marks as holding
an error just what has a problem at or below it (`Tree.Marked`), there is nothing to be found in what is
passed over. So the walk reports every problem of the tree once, in the order of the text
(`Tree.problems_exact`): on the way it has reported what it found so far, and what is left to report is
the problems of the trees on the stack (`Tree.report_eq`).
-/

namespace CodeGraph

/-! ## Places -/

/-- In front of an offset are whole lines, and the rest of the line of the offset. -/
theorem SourceText.exists_lines (source : SourceText) (offset : Nat) : ∃ lines rest,
    source.upTo offset = lines ++ rest ∧ (∀ byte ∈ lines.getLast?, byte = 10) ∧ 10 ∉ rest ∧
      source.line offset = lines.count 10 + 1 ∧ source.column offset = rest.length + 1 := by
  let back := (source.upTo offset).reverse
  have parts : source.upTo offset =
      (back.dropWhile (· ≠ 10)).reverse ++ (back.takeWhile (· ≠ 10)).reverse := by
    rw [← List.reverse_append, List.takeWhile_append_dropWhile, List.reverse_reverse]
  have clear : 10 ∉ (back.takeWhile (· ≠ 10)).reverse := by
    intro inside
    simpa using List.mem_takeWhile_imp (List.mem_reverse.1 inside)
  refine ⟨_, _, parts, fun byte last => ?_, clear, ?_, ?_⟩
  · rw [List.getLast?_reverse] at last
    have first := List.head?_dropWhile_not (fun byte => decide (byte ≠ 10)) back
    rw [Option.mem_def.1 last] at first
    simpa using first
  · rw [line, parts, List.count_append, List.count_eq_zero.2 clear]
  · rw [column, List.length_reverse]

namespace Problem

/-- `problem.Tells source shape`: what a problem says of a node. -/
structure Tells (problem : Problem) (source : SourceText) (shape : Shape) : Prop where
  /-- The line is one more than the lines in front of that of the node, and the column is one more
  than the bytes in front of the node on its line. -/
  place : ∃ lines rest, source.upTo shape.start = lines ++ rest ∧
    (∀ byte ∈ lines.getLast?, byte = 10) ∧ 10 ∉ rest ∧
    problem.line = lines.count 10 + 1 ∧ problem.column = rest.length + 1
  missing : shape.isMissing = true → problem.cause.message = "missing `" ++ shape.kind ++ "`"
  unexpected : shape.isMissing = false → problem.cause.message = "unexpected syntax"

end Problem

namespace Shape

theorem problem?_eq_none_iff {source : SourceText} {shape : Shape} :
    shape.problem? source = none ↔ shape.isProblem = false := by
  unfold problem?
  split
  · next yes => simp [yes]
  · next no => simp [no]

theorem tells_of_problem? {source : SourceText} {shape : Shape} {problem : Problem}
    (found : shape.problem? source = some problem) : problem.Tells source shape := by
  unfold problem? at found
  split at found
  · obtain rfl := Option.some.inj found
    refine ⟨source.exists_lines shape.start, fun yes => ?_, fun no => ?_⟩
    · simp [yes, ProblemCause.message]
    · simp [no, ProblemCause.message]
  · cases found

end Shape

namespace Tree

/-! ## Marks -/

/-- The nodes of a tree that are marked as holding an error are those that have a problem at or below
them. -/
def Marked (tree : Tree) : Prop :=
  ∀ part ∈ tree.nodes, part.shape.hasError = true ↔ ∃ low ∈ part.nodes, low.shape.isProblem = true

/-- The problems of all nodes of a tree. -/
def allProblems (source : SourceText) (tree : Tree) : List Problem :=
  tree.nodes.filterMap fun part => part.shape.problem? source

variable {source : SourceText} {tree : Tree}

theorem Marked.child {child : Tree} (marked : tree.Marked) (inside : child ∈ tree.children) :
    child.Marked := fun part there => marked part (nodes_subset_of_mem inside there)

theorem allProblems_eq (source : SourceText) (tree : Tree) : tree.allProblems source =
    (tree.shape.problem? source).toList ++ tree.children.flatMap (allProblems source) := by
  rw [allProblems, nodes_eq, List.filterMap_cons, List.filterMap_flatMap]
  cases tree.shape.problem? source <;> rfl

/-- What is not marked has no problems. -/
theorem Marked.allProblems_eq_nil (marked : tree.Marked) (clear : tree.shape.hasError = false) :
    tree.allProblems source = [] := by
  refine List.filterMap_eq_nil_iff.2 fun part inside => Shape.problem?_eq_none_iff.2 ?_
  by_contra yes
  have marks := (marked tree tree.mem_nodes_self).2 ⟨part, inside, by simpa using yes⟩
  rw [clear] at marks
  cases marks

/-- Nothing is lost in what is not entered. -/
theorem Marked.suspects_allProblems (marked : tree.Marked) :
    tree.suspects.flatMap (allProblems source) = tree.children.flatMap (allProblems source) := by
  have each : ∀ children : List Tree, (∀ child ∈ children, child.Marked) →
      (children.filter fun child => child.shape.isSuspect).flatMap (allProblems source) =
        children.flatMap (allProblems source) := by
    intro children
    induction children with
    | nil => exact fun _ => rfl
    | cons child rest ih =>
      intro all
      have later := ih fun other there => all other (List.mem_cons_of_mem _ there)
      rw [List.filter_cons, List.flatMap_cons]
      split
      · rw [List.flatMap_cons, later]
      · next innocent =>
        have clear : child.shape.hasError = false := by
          simp only [Shape.isSuspect, Bool.or_eq_true, not_or] at innocent
          simpa using innocent.1
        rw [(all child List.mem_cons_self).allProblems_eq_nil clear, List.nil_append, later]
  exact each tree.children fun child inside => marked.child inside

/-! ## The walk -/

/-- The walk adds the problems of the trees on the stack, from its top down. -/
theorem report_eq (source : SourceText) (stack : Array Tree) (found : Array Problem)
    (marked : ∀ tree ∈ stack, tree.Marked) : (report source stack found).toList =
      found.toList ++ stack.toList.reverse.flatMap (allProblems source) := by
  fun_induction report source stack found with
  | case1 stack found top =>
    obtain rfl := Array.back?_eq_none_iff.1 top
    simp
  | case2 stack found tree top ih =>
    obtain ⟨rest, rfl⟩ := Array.back?_eq_some_iff.1 top
    have here : tree.Marked := marked tree (by simp)
    have onward : ∀ other ∈ (rest.push tree).pop ++ tree.suspects.reverse, other.Marked := by
      intro other inside
      rw [Array.pop_push, ← Array.mem_toList_iff, Array.toList_appendList, List.mem_append] at inside
      rcases inside with old | new
      · exact marked other (by simp [Array.mem_toList_iff.1 old])
      · exact here.child (List.mem_of_mem_filter (List.mem_reverse.1 new))
    rw [ih onward]
    simp [allProblems_eq source tree, here.suspects_allProblems]

theorem Marked.problems_eq (marked : tree.Marked) : tree.problems source = tree.allProblems source := by
  unfold problems
  split
  · rw [report_eq source #[tree] #[] (by simpa using marked)]
    simp
  · next clear => exact (marked.allProblems_eq_nil (by simpa using clear)).symm

/-- Of the nodes of a list those that are problems tell what they are, one after another. -/
theorem forall₂_tells (source : SourceText) (parts : List Tree) :
    List.Forall₂ (fun problem part => Problem.Tells problem source part.shape)
      (parts.filterMap fun part => part.shape.problem? source)
      (parts.filter fun part => part.shape.isProblem) := by
  induction parts with
  | nil => exact .nil
  | cons part rest ih =>
    rw [List.filterMap_cons]
    cases found : part.shape.problem? source with
    | none =>
      have fine := Shape.problem?_eq_none_iff.1 found
      rw [List.filter_cons, fine, if_neg Bool.false_ne_true]
      exact ih
    | some problem =>
      have bad : part.shape.isProblem = true := by
        by_contra no
        rw [Shape.problem?_eq_none_iff.2 (by simpa using no)] at found
        cases found
      rw [List.filter_cons, if_pos bad]
      exact .cons (Shape.tells_of_problem? found) ih

/-- The problems that are reported are those of all nodes of the tree that are errors or missing, one
for each, in the order of the text, and each tells the place of its node and what is wrong. There are
some just if there is such a node. -/
theorem Marked.problems_exact (marked : tree.Marked) (source : SourceText) :
    List.Forall₂ (fun problem part => Problem.Tells problem source part.shape) (tree.problems source)
        (tree.nodes.filter fun part => part.shape.isError || part.shape.isMissing) ∧
      (tree.hasProblems source = true ↔
        ∃ part ∈ tree.nodes, part.shape.isError = true ∨ part.shape.isMissing = true) := by
  have same : tree.problems source = tree.nodes.filterMap fun part => part.shape.problem? source :=
    marked.problems_eq
  refine ⟨same ▸ forall₂_tells source tree.nodes, ?_⟩
  rw [hasProblems, same, Bool.not_eq_true', List.isEmpty_eq_false_iff, Ne, List.filterMap_eq_nil_iff]
  simp only [Shape.problem?_eq_none_iff, Shape.isProblem, not_forall, Bool.not_eq_false,
    Bool.or_eq_true, exists_prop]

/-! ## A broken text -/

/-- A text that stops in the middle of a call. -/
def brokenText : SourceText := .ofString "f((\n"

/-- What a parser may make of that text: text that fits nowhere inside such text, and behind that a
bracket that is missing. -/
def broken : Tree :=
  let mark (kind : String) (start stop : Nat) : Shape := { kind, start, stop, hasError := true }
  .node (mark "program" 0 4)
    [.node { kind := "identifier", start := 0, stop := 1, named := true } [],
     .node { mark "ERROR" 1 3 with isError := true }
      [.node { kind := "(", start := 1, stop := 2 } [],
       .node { mark "ERROR" 2 3 with isError := true } [],
       .node { mark ")" 3 3 with isMissing := true } []]]

/-- A problem inside another one is reported after it. -/
theorem problems_broken : broken.Marked ∧
    (broken.problems brokenText).map (fun problem => problem.cause.message) =
      ["unexpected syntax", "unexpected syntax", "missing `)`"] := by
  have marked : broken.Marked := by
    unfold Marked
    decide
  refine ⟨marked, ?_⟩
  obtain ⟨told, -⟩ := marked.problems_exact brokenText
  have messages : List.Forall₂ Eq
      ((broken.problems brokenText).map fun problem => problem.cause.message)
      ((broken.nodes.filter fun part => part.shape.isError || part.shape.isMissing).map fun part =>
        if part.shape.isMissing then "missing `" ++ part.shape.kind ++ "`" else "unexpected syntax") := by
    refine List.forall₂_map_left_iff.2 (List.forall₂_map_right_iff.2 (told.imp ?_))
    intro problem part tells
    split
    · next yes => exact tells.missing yes
    · next no => exact tells.unexpected (by simpa using no)
  rw [List.forall₂_eq_eq_eq] at messages
  rw [messages]
  decide

end Tree

end CodeGraph

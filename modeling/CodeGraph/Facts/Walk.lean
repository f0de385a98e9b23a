import CodeGraph.Facts.Pattern
import CodeGraph.Facts.Statement

/-!
# The walk

The walk over the syntax tree of a file: every task is done by one step and then by the tasks that
the step leaves, in order and each to its end. Since a step leaves lighter tasks only
(`Facts.weight_lt_of_mem_step`), the walk ends on every tree.
-/

namespace CodeGraph

namespace Facts

/-- Do one task, and tell what it leaves to do. -/
def step (file : SourceFile) (facts : Facts) : Task → Facts × List Task
  | .statement cursor context => facts.statement file cursor context
  | .loopHeader cursor context => facts.addLoopHeader file cursor context
  | .bind cursor context mode => facts.bind file cursor context mode
  | .expression cursor context hint => facts.expression file cursor context hint

/-- A step puts tasks in place of a task that follow it. -/
theorem follows_of_mem_step {file : SourceFile} {facts : Facts} {task next : Task}
    (inside : next ∈ (facts.step file task).2) : next.Follows task := by
  cases task with
  | statement cursor context => exact follows_of_mem_statement inside
  | loopHeader cursor context => exact .inl (below_addLoopHeader _ _ _ _ next inside)
  | bind cursor context mode => exact follows_of_mem_bind inside
  | expression cursor context hint => exact .inl (below_expression _ _ _ _ _ next inside)

theorem weight_lt_of_mem_step {file : SourceFile} {facts : Facts} {task next : Task}
    (inside : next ∈ (facts.step file task).2) : next.weight < task.weight :=
  (follows_of_mem_step inside).weight_lt

/-- Do a task and all that it leaves to do. -/
def run (file : SourceFile) (facts : Facts) (task : Task) : Facts :=
  let stepped := facts.step file task
  stepped.2.attach.foldl (fun facts next => run file facts next.1) stepped.1
termination_by task.weight
decreasing_by exact weight_lt_of_mem_step next.2

/-- Do a list of tasks in order. -/
def runAll (file : SourceFile) (facts : Facts) (tasks : List Task) : Facts :=
  tasks.foldl (run file) facts

theorem run_eq (file : SourceFile) (facts : Facts) (task : Task) :
    run file facts task = runAll file (facts.step file task).1 (facts.step file task).2 := by
  rw [run, runAll]
  exact List.foldl_attach

/-- The facts about a file. -/
def of (file : SourceFile) : Facts :=
  let root : Cursor := { tree := file.tree }
  (runAll file {} (statementTasks root {})).resolveNames

end Facts

end CodeGraph

import CodeGraph.Facts.Basic
import CodeGraph.Facts.Form

/-!
# Tasks of the walk

The walk over a syntax tree is a matter of tasks: look at a node as a statement, as the header of a
loop, as a pattern, or as an expression. A task is heavier than another when it is about a larger
tree, or about the same tree at a higher rank in this order (`Task.weight`). Every step of the walk
puts lighter tasks in place of a task, and so the walk ends.
-/

namespace CodeGraph

/-- The name that the surroundings suggest for a function or class without one of its own. -/
structure Hint where
  name : String
  /-- Whether the function can then be called by that name. -/
  bindable : Bool
deriving DecidableEq, Repr

/-- What a pattern does with the names in it. -/
inductive BindMode where
  /-- Declares them as variables, defined at a site; `kind` is the word of the declaration. -/
  | declare (kind : String) (site : Nat)
  /-- Writes them at a site. -/
  | assign (site : Nat)
  /-- Declares them as parameters at a position. -/
  | param (position : Nat) (rest optional hasDefault : Bool)
deriving DecidableEq, Repr

/-- Something that the walk has to do. -/
inductive Task where
  | statement (cursor : Cursor) (context : Context)
  /-- The header of a loop whose initialiser is in place already. -/
  | loopHeader (cursor : Cursor) (context : Context)
  | bind (cursor : Cursor) (context : Context) (mode : BindMode)
  | expression (cursor : Cursor) (context : Context) (hint : Option Hint)

namespace Task

/-- The node that a task is about. -/
def cursor : Task → Cursor
  | statement cursor _ => cursor
  | loopHeader cursor _ => cursor
  | bind cursor _ _ => cursor
  | expression cursor _ _ => cursor

/-- The rank of a task among those about one node. -/
def rank : Task → Nat
  | statement _ _ => 3
  | loopHeader _ _ => 2
  | bind _ _ _ => 1
  | expression _ _ _ => 0

/-- The weight of a task: first the size of its tree, then its rank. -/
def weight (task : Task) : Nat := 4 * task.cursor.size + task.rank

theorem rank_le (task : Task) : task.rank ≤ 3 := by
  cases task <;> simp [rank]

end Task

/-- All tasks of a list are about nodes below a node. -/
def TasksBelow (cursor : Cursor) (tasks : List Task) : Prop :=
  ∀ task ∈ tasks, task.cursor.Below cursor

namespace TasksBelow

theorem nil {cursor : Cursor} : TasksBelow cursor [] := by
  intro task inside
  simp at inside

theorem cons {cursor : Cursor} {task : Task} {tasks : List Task} (head : task.cursor.Below cursor)
    (tail : TasksBelow cursor tasks) : TasksBelow cursor (task :: tasks) := by
  intro other inside
  rcases List.mem_cons.1 inside with rfl | later
  · exact head
  · exact tail other later

theorem append {cursor : Cursor} {tasks others : List Task} (left : TasksBelow cursor tasks)
    (right : TasksBelow cursor others) : TasksBelow cursor (tasks ++ others) := by
  intro task inside
  rcases List.mem_append.1 inside with here | there
  · exact left task here
  · exact right task there

/-- Tasks about some of a list of nodes below. -/
theorem map {cursor : Cursor} {cursors : List Cursor} {make : Cursor → Task}
    (below : ∀ child ∈ cursors, child.Below cursor)
    (about : ∀ child, (make child).cursor = child) : TasksBelow cursor (cursors.map make) := by
  intro task inside
  obtain ⟨child, there, rfl⟩ := List.mem_map.1 inside
  rw [about]
  exact below child there

/-- A task about a node that may be missing. -/
theorem option {cursor : Cursor} {found : Option Cursor} {make : Cursor → Task}
    (below : ∀ child, found = some child → child.Below cursor)
    (about : ∀ child, (make child).cursor = child) :
    TasksBelow cursor (found.map make).toList := by
  intro task inside
  rw [Option.mem_toList, Option.map_eq_some_iff] at inside
  obtain ⟨child, found, rfl⟩ := inside
  rw [about]
  exact below child found

/-- A task about a field of a node. -/
theorem field {cursor : Cursor} {name : String} {make : Cursor → Task}
    (about : ∀ child, (make child).cursor = child) :
    TasksBelow cursor ((cursor.field? name).map make).toList :=
  option (fun _ => Cursor.below_of_field?) about

theorem trans {cursor higher : Cursor} {tasks : List Task} (low : TasksBelow cursor tasks)
    (below : cursor.Below higher) : TasksBelow higher tasks :=
  fun task inside => (low task inside).trans below

end TasksBelow

/-- A task follows another one: it is about a node below, or about the same node at a lower rank. -/
def Task.Follows (next task : Task) : Prop :=
  next.cursor.Below task.cursor ∨ next.cursor = task.cursor ∧ next.rank < task.rank

/-- A task that follows another one is lighter. -/
theorem Task.Follows.weight_lt {next task : Task} (follows : next.Follows task) :
    next.weight < task.weight := by
  have := next.rank_le
  unfold Task.weight
  rcases follows with below | ⟨same, less⟩
  · have := below.size_lt
    omega
  · rw [same]
    omega

end CodeGraph

import CodeGraph.Proofs.Facts.Sound
import CodeGraph.Proofs.Facts.StepStatement

/-!
# Runs of the walk

A task is done by one step and then by doing what the step leaves, so a whole run is made of the same
operations as its steps (`Facts.makes_run`). The moments of the walk over a file are the facts made so
far together with the tasks still to be done (`Facts.Visits`). At each of them the facts are sound and
know all tasks, and doing what is left gives the facts about the file (`Facts.Visits.of_eq`).
-/

namespace CodeGraph

namespace Facts

variable {file : SourceFile} {facts : Facts} {task : Task} {tasks rest : List Task}

/-! ## What a run makes -/

/-- What follows a task about a node of a file is about a node of the file. -/
theorem has_of_follows {next : Task} (follows : next.Follows task) (has : file.Has task.cursor) :
    file.Has next.cursor := by
  rcases follows with below | ⟨same, -⟩
  · exact below.trans has
  · exact same ▸ has

/-- Doing a task and all that it leaves is made of operations in the context of the task. -/
theorem makes_run (sound : Sound file facts) (known : task.Known facts)
    (has : file.Has task.cursor) : Makes file facts task.context task.adds (run file facts task) := by
  induction weight : task.weight using Nat.strongRecOn generalizing facts task with
  | ind weight ih =>
    subst weight
    -- What the step has made so far grows task by task, each of them lighter than this one.
    have each : ∀ (left : List Task) (middle : Facts), (∀ next ∈ left, next.Follows task) →
        (∀ next ∈ left, next.Fits facts task.context task.adds middle) →
        Makes file facts task.context task.adds middle →
        Makes file facts task.context task.adds (runAll file middle left) := by
      intro left
      induction left with
      | nil => exact fun middle _ _ made => made
      | cons next left further =>
        intro middle follow fits made
        have here := fits next List.mem_cons_self
        have follows := follow next List.mem_cons_self
        have inner : Makes file middle next.context next.adds (run file middle next) :=
          ih _ follows.weight_lt (made.sound sound) here.known (has_of_follows follows has) rfl
        exact further (run file middle next)
          (fun other there => follow other (List.mem_cons_of_mem _ there))
          (fun other there => (fits other (List.mem_cons_of_mem _ there)).later inner.extends)
          (made.inner here.within here.allowed inner)
    have proceeds : Proceeds file facts task.context task.adds facts (facts.step file task) :=
      proceeds_step sound known has
    rw [run_eq]
    exact each _ _ (fun next there => follows_of_mem_step there) proceeds.fits proceeds.made

/-- A task can be done with the facts that are there: it is known to them, and about a node of the
file. -/
def Ready (file : SourceFile) (facts : Facts) (tasks : List Task) : Prop :=
  ∀ task ∈ tasks, task.Known facts ∧ file.Has task.cursor

theorem Ready.later {after : Facts} (ready : Ready file facts tasks) (extend : facts.Extends after) :
    Ready file after tasks :=
  fun task there => ⟨(ready task there).1.later extend, (ready task there).2⟩

theorem Ready.tail (ready : Ready file facts (task :: tasks)) : Ready file facts tasks :=
  fun other there => ready other (List.mem_cons_of_mem _ there)

/-- Doing a list of tasks keeps the facts sound and loses nothing. -/
theorem sound_runAll (sound : Sound file facts) (ready : Ready file facts tasks) :
    Sound file (runAll file facts tasks) ∧ facts.Extends (runAll file facts tasks) := by
  induction tasks generalizing facts with
  | nil => exact ⟨sound, .refl facts⟩
  | cons next tasks ih =>
    obtain ⟨known, has⟩ := ready next List.mem_cons_self
    have made : Makes file facts next.context next.adds (run file facts next) :=
      makes_run sound known has
    obtain ⟨whole, further⟩ := ih (made.sound sound) (ready.tail.later made.extends)
    exact ⟨whole, made.extends.trans further⟩

/-- What each task of a list does to a region, the whole list does to it, if doing it again and again
comes to the same. -/
theorem region_runAll {number : Nat} {relates : Region → Region → Prop}
    (refl : ∀ region, relates region region)
    (trans : ∀ {first second third}, relates first second → relates second third →
      relates first third)
    (sound : Sound file facts) (ready : Ready file facts tasks)
    (each : ∀ next ∈ tasks, next.context.region = number → ∀ {before after : Region},
      before.Spares next.context.statement next.adds after → relates before after)
    {before : Region} (found : facts.regions[number]? = some before) :
    ∃ after, (runAll file facts tasks).regions[number]? = some after ∧ relates before after := by
  induction tasks generalizing facts before with
  | nil => exact ⟨before, found, refl before⟩
  | cons next tasks ih =>
    obtain ⟨known, has⟩ := ready next List.mem_cons_self
    have made : Makes file facts next.context next.adds (run file facts next) :=
      makes_run sound known has
    have step : ∃ middle, (run file facts next).regions[number]? = some middle ∧
        relates before middle := by
      by_cases here : next.context.region = number
      · subst here
        obtain ⟨middle, held, spares⟩ := made.own_region found
        exact ⟨middle, held, each next List.mem_cons_self rfl spares⟩
      · have old := (Array.getElem?_eq_some_iff.1 found).1
        exact ⟨before, (made.other_region old (Ne.symm here)).trans found, refl before⟩
    obtain ⟨middle, held, first⟩ := step
    obtain ⟨after, there, second⟩ := ih (made.sound sound) (ready.tail.later made.extends)
      (fun other inside => each other (List.mem_cons_of_mem _ inside)) held
    exact ⟨after, there, trans first second⟩

/-! ## The moments of the walk -/

/-- `Visits file facts tasks`: the walk over a file comes by the facts `facts` with the tasks `tasks`
still to be done.

* `start`: it begins with the statements of the module.
* `step`: the first task is done by a step, and what the step leaves comes before the other tasks. -/
inductive Visits (file : SourceFile) : Facts → List Task → Prop
  | start : Visits file {} (statementTasks { tree := file.tree } {})
  | step {facts : Facts} {task : Task} {rest : List Task} : Visits file facts (task :: rest) →
      Visits file (facts.step file task).1 ((facts.step file task).2 ++ rest)

/-- The context in which the walk begins is known to the facts with which it begins. -/
theorem known_start : Context.Known {} {} := by
  refine ⟨?block, ?scope, ?statement, ?site, ?parent, ?inside, ?around, ?body,
    fun _ given => nomatch given⟩
  case block => decide
  case scope => decide
  case statement => exact fun _ given => nomatch given
  case site => exact fun _ given => nomatch given
  case parent => exact fun _ given => nomatch given
  case inside => exact fun no => nomatch no
  case around => exact fun _ given => nomatch given
  case body =>
    have bodies : Scopes.initial.bodies = [Scopes.moduleScope] := by decide
    show Scopes.initial.bodies[0]? = some (Scopes.initial.hoistTarget Scopes.moduleScope)
    rw [bodies, Scopes.hoistTarget_of_hoists (by decide)]
    rfl

namespace Visits

/-- The walk goes on with what a step gives. -/
theorem next {after : Facts} (visits : Visits file facts (task :: rest))
    (stepped : facts.step file task = (after, tasks)) : Visits file after (tasks ++ rest) := by
  have further := visits.step
  rw [stepped] at further
  exact further

/-- At every moment the facts are sound and all tasks can be done with them. -/
theorem sound (visits : Visits file facts tasks) : Sound file facts ∧ Ready file facts tasks := by
  induction visits with
  | start =>
    refine ⟨sound_start file, fun task there => ?_⟩
    obtain ⟨child, inside, rfl⟩ := List.mem_map.1 there
    exact ⟨⟨known_start, (fun _ given => nomatch given), fun no => nomatch no⟩,
      Cursor.below_of_mem_named inside⟩
  | @step facts task rest _ ih =>
    obtain ⟨sound, ready⟩ := ih
    obtain ⟨known, has⟩ := ready task List.mem_cons_self
    have proceeds : Proceeds file facts task.context task.adds facts (facts.step file task) :=
      proceeds_step sound known has
    refine ⟨proceeds.made.sound sound, fun other there => ?_⟩
    rcases List.mem_append.1 there with new | old
    · exact ⟨(proceeds.fits other new).known, has_of_follows (follows_of_mem_step new) has⟩
    · exact ready.tail.later proceeds.extend other old

/-- The walk comes by what a task and all that it leaves have made. -/
theorem run (visits : Visits file facts (task :: rest)) :
    Visits file (Facts.run file facts task) rest := by
  induction weight : task.weight using Nat.strongRecOn generalizing facts task rest with
  | ind weight ih =>
    subst weight
    have each : ∀ (left : List Task) (middle : Facts), (∀ next ∈ left, next.weight < task.weight) →
        Visits file middle (left ++ rest) → Visits file (Facts.runAll file middle left) rest := by
      intro left
      induction left with
      | nil => exact fun middle _ visits => visits
      | cons next left further =>
        intro middle lighter visits
        exact further _ (fun other there => lighter other (List.mem_cons_of_mem _ there))
          (ih _ (lighter next List.mem_cons_self) visits rfl)
    rw [run_eq]
    exact each _ _ (fun next there => weight_lt_of_mem_step there) visits.step

theorem runAll (visits : Visits file facts (tasks ++ rest)) :
    Visits file (Facts.runAll file facts tasks) rest := by
  induction tasks generalizing facts with
  | nil => exact visits
  | cons next tasks ih => exact ih visits.run

/-- The walk comes to its end. -/
theorem last (file : SourceFile) :
    Visits file (Facts.runAll file {} (statementTasks { tree := file.tree } {})) [] := by
  have visits : Visits file {} (statementTasks { tree := file.tree } {} ++ []) := by
    rw [List.append_nil]
    exact .start
  exact visits.runAll

/-- Doing what is left to do at any moment gives the facts about the file. -/
theorem of_eq (visits : Visits file facts tasks) :
    Facts.of file = (Facts.runAll file facts tasks).resolveNames := by
  induction visits with
  | start => rfl
  | @step facts task rest _ ih =>
    rw [ih, Facts.runAll, Facts.runAll, List.foldl_cons, List.foldl_append, run_eq, Facts.runAll]

end Visits

/-- The facts about a file are sound. -/
theorem sound_of (file : SourceFile) : Sound file (Facts.of file) := by
  obtain ⟨sound, ready⟩ := (Visits.start : Visits file _ _).sound
  exact (sound_runAll sound ready).1.resolveNames

end Facts

end CodeGraph

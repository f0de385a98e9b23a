import CodeGraph.Proofs.Facts.Recorded
import CodeGraph.Proofs.Facts.Steady

/-!
# What tasks declare and record

Two kinds of tasks are told apart here: those at which the walk comes to a function that is no method, and
those at which it comes to a call (`Task.function?`, `Task.call?`). The former declare functions, the latter
record calls, and no other task does either (`Facts.book_step`).
-/

namespace CodeGraph

/-- The function to which the walk comes by a task, unless it is a method. -/
def Task.function? : Task → Option (Cursor × Context × Option Hint)
  | statement cursor context =>
    if StatementForm.ofKind cursor.kind = .function then some (cursor, context, none) else none
  | expression cursor context hint =>
    if ExpressionForm.ofKind cursor.kind = .function then some (cursor, context, hint) else none
  | _ => none

/-- The call to which the walk comes by a task. -/
def Task.call? : Task → Option (Cursor × Context)
  | expression cursor context _ =>
    if ExpressionForm.ofKind cursor.kind = .call then some (cursor, context) else none
  | _ => none

namespace Facts

variable {file : SourceFile} {facts : Facts} {task : Task}

/-- The calls that are recorded, and the functions that scopes declare. -/
def book (facts : Facts) : Array CallFact × (Nat → String → Option Nat) :=
  (facts.calls, facts.scopes.functionIn?)

theorem steady_book : Steady book where
  place := fun _ _ _ => rfl
  record := fun _ _ _ => rfl
  pushScope := fun facts parent hoists =>
    Prod.ext rfl (funext fun _ => funext fun _ => Scopes.functionIn?_push _ _ _ _ _)
  pushStatement := fun _ _ _ _ => by
    rw [pushStatement_eq]
    rfl
  pushArm := fun _ _ _ _ => by
    rw [pushArm_eq]
    rfl
  recordReturn := fun _ function _ => by cases function <;> rfl

section Book

variable (facts : Facts) (cursor : Cursor) (context : Context)

theorem book_bind (mode : BindMode) : (facts.bind file cursor context mode).1.book = facts.book := by
  unfold bind
  split
  · refine Prod.ext (by cases mode <;> rfl) (funext fun scope => funext fun name => ?_)
    cases mode with
    | declare word site => exact Scopes.functionIn?_declareVariable _ _ _ _ _ _
    | assign site => rfl
    | param position rest optional hasDefault => exact Scopes.functionIn?_declareVariable _ _ _ _ _ _
  · rfl

theorem book_method (hint : Option Hint) (plain : StatementForm.ofKind cursor.kind ≠ .function) :
    (facts.addFunction file cursor context hint true).facts.book = facts.book := by
  have entered : (facts.enterFunction file cursor context hint true).facts.book =
      (((facts.place (functionNode file cursor (givenName file cursor hint) true
        (Parameter.ofFunction cursor).length) context.parent).1.pushScope context.scope
          true).1.declareFunction cursor context.scope facts.scopes.list.size
            ((cursor.field? "name").map file.textOf) hint true
            (facts.enterFunction file cursor context hint true).node).book := rfl
  rw [steady_book.addFunction, entered, declareFunction_method _ _ _ _ _ plain, steady_book.pushScope]
  rfl

theorem book_addClass (hint : Option Hint) :
    (facts.addClass file cursor context hint).1.book = facts.book :=
  steady_book.addClass file facts (fun _ _ => rfl) (fun _ _ => rfl) book_method cursor context hint

end Book

/-- A task at which the walk comes neither to a function nor to a call declares no functions and records
no calls. -/
theorem book_step (plain : task.function? = none) (quiet : task.call? = none) :
    (facts.step file task).1.book = facts.book := by
  by_cases enters : task.Enters
  swap
  · exact steady_book.step file facts enters
  cases task with
  | statement cursor context =>
    simp only [Task.Enters, List.mem_cons, List.not_mem_nil, or_false] at enters
    rcases enters with function | classLike
    · simp [Task.function?, function] at plain
    · show (facts.statement file cursor context).1.book = _
      simp only [statement, classLike, book_addClass]
  | loopHeader cursor context => exact enters.elim
  | bind cursor context mode => exact book_bind facts cursor context mode
  | expression cursor context hint =>
    show (facts.expression file cursor context hint).1.book = _
    simp only [Task.Enters, List.mem_cons, List.not_mem_nil, or_false] at enters
    rcases enters with function | method | classLike | call
    · simp [Task.function?, function] at plain
    · simp only [expression, method]
      exact book_method facts cursor context none (form_of_method method)
    · simp only [expression, classLike, book_addClass]
    · simp [Task.call?, call] at quiet

/-- A function that is no method is entered, and then its body is looked at. -/
theorem step_function {cursor : Cursor} {context : Context} {hint : Option Hint}
    (comes : task.function? = some (cursor, context, hint)) :
    (facts.step file task).1 = (facts.addFunction file cursor context hint false).facts := by
  cases task with
  | statement other place =>
    simp only [Task.function?, Option.ite_none_right_eq_some, Option.some.injEq,
      Prod.mk.injEq] at comes
    obtain ⟨form, rfl, rfl, rfl⟩ := comes
    simp only [step, statement, form]
  | loopHeader other place => cases comes
  | bind other place mode => cases comes
  | expression other place given =>
    simp only [Task.function?, Option.ite_none_right_eq_some, Option.some.injEq,
      Prod.mk.injEq] at comes
    obtain ⟨form, rfl, rfl, rfl⟩ := comes
    simp only [step, expression, form]

/-- What a function that is no method declares, it declares when it is entered. -/
theorem book_step_function (file : SourceFile) (facts : Facts) {cursor : Cursor} {context : Context}
    {hint : Option Hint} (comes : task.function? = some (cursor, context, hint)) :
    (facts.step file task).1.book =
      (facts.enterFunction file cursor context hint false).facts.book := by
  rw [step_function comes]
  exact steady_book.addFunction file facts cursor context hint false

/-- A task that declares a function does so in one scope, unless its name is declared there already. -/
theorem functionIn?_step_of_some {cursor : Cursor} {context : Context} {hint : Option Hint}
    (there : context.scope < facts.scopes.list.size)
    (comes : task.function? = some (cursor, context, hint)) (scope : Nat) (name : String) :
    (facts.step file task).1.scopes.functionIn? scope name =
      (facts.scopes.functionIn? scope name).or
        (if declaredIn? file cursor context.scope facts.scopes.list.size hint = some (scope, name) then
          some (facts.enterFunction file cursor context hint false).node
        else none) := by
  have method : false = true → StatementForm.ofKind cursor.kind ≠ .function := fun no => nomatch no
  have booked : (facts.step file task).1.scopes.functionIn? =
      (facts.enterFunction file cursor context hint false).facts.scopes.functionIn? :=
    congrArg Prod.snd (book_step_function file facts comes)
  rw [booked, functionIn?_enterFunction cursor there hint method]
  simp only [true_and]

/-- A task at which the walk does not come to a call records none. -/
theorem calls_step (quiet : task.call? = none) : (facts.step file task).1.calls = facts.calls := by
  cases comes : task.function? with
  | none => exact congrArg Prod.fst (book_step comes quiet)
  | some entered =>
    obtain ⟨cursor, context, hint⟩ := entered
    refine (congrArg Prod.fst (book_step_function file facts comes)).trans ?_
    exact calls_enterFunction facts file cursor context hint false

theorem context_of_function? {cursor : Cursor} {context : Context} {hint : Option Hint}
    (comes : task.function? = some (cursor, context, hint)) :
    task.cursor = cursor ∧ task.context = context := by
  cases task with
  | statement other place =>
    simp only [Task.function?, Option.ite_none_right_eq_some, Option.some.injEq,
      Prod.mk.injEq] at comes
    exact ⟨comes.2.1, comes.2.2.1⟩
  | loopHeader other place => cases comes
  | bind other place mode => cases comes
  | expression other place given =>
    simp only [Task.function?, Option.ite_none_right_eq_some, Option.some.injEq,
      Prod.mk.injEq] at comes
    exact ⟨comes.2.1, comes.2.2.1⟩

/-- A call is added, and nothing else happens yet. -/
theorem step_call (file : SourceFile) (facts : Facts) {cursor : Cursor} {context : Context}
    (comes : task.call? = some (cursor, context)) :
    (facts.step file task).1 = (facts.addCall file cursor context).1 ∧ task.cursor = cursor ∧
      task.context = context ∧ task.adds = false ∧ ExpressionForm.ofKind cursor.kind = .call := by
  cases task with
  | statement other place => cases comes
  | loopHeader other place => cases comes
  | bind other place mode => cases comes
  | expression other place given =>
    simp only [Task.call?, Option.ite_none_right_eq_some, Option.some.injEq, Prod.mk.injEq] at comes
    obtain ⟨form, rfl, rfl⟩ := comes
    refine ⟨?_, rfl, rfl, rfl, form⟩
    simp only [step, expression, form]

/-- Other tasks declare nothing. -/
theorem functionIn?_step_of_none (plain : task.function? = none) :
    (facts.step file task).1.scopes.functionIn? = facts.scopes.functionIn? := by
  cases called : task.call? with
  | some made =>
    obtain ⟨cursor, context⟩ := made
    rw [(step_call file facts called).1]
    rfl
  | none => exact congrArg Prod.snd (book_step plain called)

end Facts

end CodeGraph

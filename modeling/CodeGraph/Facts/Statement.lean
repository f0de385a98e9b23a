import CodeGraph.Facts.Expression

/-!
# Statements

What the walk does with a statement: it adds the statement to the block where it is, adds the arms
that the statement owns, and goes on with the expressions and the statements inside. Every arm is
added at once; what is in the arms comes later, in the order of the text.
-/

namespace CodeGraph

namespace Facts

/-- The tasks of the statements below a node. -/
def statementTasks (cursor : Cursor) (context : Context) : List Task :=
  cursor.named.map fun child => .statement child context

/-- The tasks of the expressions below a node. -/
def expressionTasks (cursor : Cursor) (context : Context) : List Task :=
  cursor.named.map fun child => .expression child context none

/-- The task of an expression that fills a field. -/
def fieldExpression (cursor : Cursor) (name : String) (context : Context) : List Task :=
  ((cursor.field? name).map fun child => Task.expression child context none).toList

/-- The task of a statement that fills a field. -/
def fieldStatement (cursor : Cursor) (name : String) (context : Context) : List Task :=
  ((cursor.field? name).map fun child => Task.statement child context).toList

/-- Add a block, which has a scope of its own. -/
def addBlock (facts : Facts) (cursor : Cursor) (context : Context) : Facts × List Task :=
  let opened := facts.pushScope context.scope false
  (opened.1, statementTasks cursor { context with scope := opened.2 })

/-- The word of a declaration. -/
def declarationWord (cursor : Cursor) : String :=
  match cursor.children.head?.map Cursor.kind with
  | some "const" => "const"
  | some "let" => "let"
  | _ => "var"

/-- The tasks of one declarator: its value, which a plain name lends its name, then its pattern. -/
def declaratorTasks (file : SourceFile) (context : Context) (word : String) (site : Nat)
    (declarator : Cursor) : List Task :=
  if declarator.kind = "variable_declarator" then
    match declarator.field? "name" with
    | none => []
    | some name =>
      let hint : Option Hint :=
        if name.kind = "identifier" then some { name := file.textOf name, bindable := true }
        else none
      ((declarator.field? "value").map fun value => Task.expression value context hint).toList
        ++ [.bind name context (.declare word site)]
  else []

/-- Add a declaration of variables. -/
def addDeclaration (facts : Facts) (file : SourceFile) (cursor : Cursor) (context : Context) :
    Facts × List Task :=
  let opened := facts.openStatement file cursor context .simple
  (opened.facts,
    cursor.named.flatMap
      (declaratorTasks file opened.context (declarationWord cursor) opened.site))

/-- Add a statement that is one expression. A module in its place is entered. -/
def addExpressionStatement (facts : Facts) (file : SourceFile) (cursor : Cursor)
    (context : Context) : Facts × List Task :=
  match cursor.firstNamed? with
  | none => (facts, [])
  | some inner =>
    if inner.kind = "internal_module" ∨ inner.kind = "module" then
      (facts, fieldStatement inner "body" context)
    else
      let opened := facts.openStatement file cursor context .simple
      (opened.facts, [.expression inner opened.context none])

/-- Add a statement that leaves the function with a value. -/
def addReturn (facts : Facts) (file : SourceFile) (cursor : Cursor) (context : Context) :
    Facts × List Task :=
  let opened := facts.openStatement file cursor context .returns
  (opened.facts.recordReturn context.function opened.site,
    expressionTasks cursor opened.context)

/-- Add a statement that throws. -/
def addThrow (facts : Facts) (file : SourceFile) (cursor : Cursor) (context : Context) :
    Facts × List Task :=
  let opened := facts.openStatement file cursor context .throws
  (opened.facts, expressionTasks cursor opened.context)

/-- Add an arm for the body of a loop, if the loop has a body. -/
def addLoopBody (facts : Facts) (cursor : Cursor) (context : Context) (statement site : Nat) :
    Facts × List Task :=
  match cursor.field? "body" with
  | none => (facts, [])
  | some body =>
    let arm := facts.pushArm context statement .loopBody
    (arm.1, [.statement body (context.enter arm.2 site)])

/-- Add a loop that has nothing but a condition and a body. -/
def addLoop (facts : Facts) (file : SourceFile) (cursor : Cursor) (context : Context) :
    Facts × List Task :=
  let opened := facts.openStatement file cursor context .loop
  let body := opened.facts.addLoopBody cursor context opened.statement opened.site
  (body.1, fieldExpression cursor "condition" opened.context ++ body.2)

/-- Add the scope of a loop with a header, and put the initialiser before the header. -/
def addForLoop (facts : Facts) (cursor : Cursor) (context : Context) : Facts × List Task :=
  let opened := facts.pushScope context.scope false
  let inner := { context with scope := opened.2 }
  (opened.1,
    (((cursor.field? "initializer").filter Cursor.isNamed).map fun child =>
        Task.statement child inner).toList
      ++ [.loopHeader cursor inner])

/-- The expression of a loop condition, which may come as a statement. -/
def loopCondition? (cursor : Cursor) : Option Cursor :=
  match cursor.field? "condition" with
  | none => none
  | some condition =>
    if !condition.isNamed then none
    else if condition.kind = "empty_statement" then none
    else if condition.kind = "expression_statement" then condition.firstNamed?
    else some condition

/-- Add the header of a loop: it evaluates the condition and the increment. -/
def addLoopHeader (facts : Facts) (file : SourceFile) (cursor : Cursor) (context : Context) :
    Facts × List Task :=
  let opened := facts.openStatement file cursor context .loop
  let body := opened.facts.addLoopBody cursor context opened.statement opened.site
  (body.1,
    ((loopCondition? cursor).map fun child => Task.expression child opened.context none).toList
      ++ fieldExpression cursor "increment" opened.context ++ body.2)

/-- Add a loop over the elements of a value. It defines what is on its left side. -/
def addForEach (facts : Facts) (file : SourceFile) (cursor : Cursor) (context : Context) :
    Facts × List Task :=
  let scope := facts.pushScope context.scope false
  let outer := { context with scope := scope.2 }
  let opened := scope.1.openStatement file cursor outer .loop
  let mode :=
    match ["const", "let", "var"].find? cursor.hasToken with
    | some word => BindMode.declare word opened.site
    | none => .assign opened.site
  let left := ((cursor.field? "left").map fun child => Task.bind child opened.context mode).toList
  let body := opened.facts.addLoopBody cursor outer opened.statement opened.site
  (body.1, fieldExpression cursor "right" opened.context ++ left ++ body.2)

/-- Add a conditional statement with its two arms. -/
def addConditional (facts : Facts) (file : SourceFile) (cursor : Cursor) (context : Context) :
    Facts × List Task :=
  let opened := facts.openStatement file cursor context .conditional
  let whenTrue : Facts × List Task :=
    match cursor.field? "consequence" with
    | none => (opened.facts, [])
    | some consequence =>
      let arm := opened.facts.pushArm context opened.statement .whenTrue
      (arm.1, [.statement consequence (context.enter arm.2 opened.site)])
  let whenFalse : Facts × List Task :=
    match cursor.field? "alternative" with
    | none => (whenTrue.1, [])
    | some alternative =>
      let arm := whenTrue.1.pushArm context opened.statement .whenFalse
      let body :=
        if alternative.kind = "else_clause" then alternative.firstNamed? else some alternative
      (arm.1,
        (body.map fun body => Task.statement body (context.enter arm.2 opened.site)).toList)
  (whenFalse.1, fieldExpression cursor "condition" opened.context ++ whenTrue.2 ++ whenFalse.2)

/-- Add one case of a switch: its test belongs to the switch, its statements to an arm. -/
def addCase (opened : Opened) (context body : Context) (state : Facts × List Task)
    (entry : Cursor) : Facts × List Task :=
  let isDefault? : Option Bool :=
    if entry.kind = "switch_case" then some false
    else if entry.kind = "switch_default" then some true
    else none
  match isDefault? with
  | none => state
  | some isDefault =>
    let arm := state.1.pushArm context opened.statement (.case isDefault)
    let inner := body.enter arm.2 opened.site
    (arm.1,
      state.2 ++ fieldExpression entry "value" opened.context
        ++ (entry.fields "body").map fun child => .statement child inner)

/-- Add a switch with its cases, which share a scope. -/
def addSwitch (facts : Facts) (file : SourceFile) (cursor : Cursor) (context : Context) :
    Facts × List Task :=
  let opened := facts.openStatement file cursor context .switch
  let scope := opened.facts.pushScope context.scope false
  let body := { context with scope := scope.2 }
  let entries := ((cursor.field? "body").map Cursor.named).getD []
  let cases := entries.foldl (addCase opened context body) (scope.1, [])
  (cases.1, fieldExpression cursor "value" opened.context ++ cases.2)

/-- Add the handler of a guarded statement. The clause itself is the first statement of the arm: it
defines the name that is caught. -/
def addHandler (facts : Facts) (file : SourceFile) (cursor : Cursor) (context : Context)
    (statement site : Nat) : Facts × List Task :=
  match cursor.field? "handler" with
  | none => (facts, [])
  | some handler =>
    let arm := facts.pushArm context statement .handler
    let scope := arm.1.pushScope context.scope false
    let inner := { context with scope := scope.2 }.enter arm.2 site
    let clause := scope.1.openStatement file handler inner .simple
    let caught := (handler.field? "parameter").map fun param =>
      Task.bind param clause.context (.declare "catch" clause.site)
    -- The body is contained in the clause, but its statements follow the clause in one block.
    (clause.facts,
      caught.toList
        ++ fieldStatement handler "body" { inner with parent := some clause.site })

/-- Add the cleanup of a guarded statement. -/
def addCleanup (facts : Facts) (cursor : Cursor) (context : Context) (statement site : Nat) :
    Facts × List Task :=
  match (cursor.field? "finalizer").bind fun finalizer => finalizer.field? "body" with
  | none => (facts, [])
  | some body =>
    let arm := facts.pushArm context statement .cleanup
    (arm.1, [.statement body (context.enter arm.2 site)])

/-- Add a guarded statement. -/
def addGuarded (facts : Facts) (file : SourceFile) (cursor : Cursor) (context : Context) :
    Facts × List Task :=
  let opened := facts.openStatement file cursor context .guarded
  let body : Facts × List Task :=
    match cursor.field? "body" with
    | none => (opened.facts, [])
    | some body =>
      let arm := opened.facts.pushArm context opened.statement .guardedBody
      (arm.1, [.statement body (context.enter arm.2 opened.site)])
  let handler := body.1.addHandler file cursor context opened.statement opened.site
  let cleanup := handler.1.addCleanup cursor context opened.statement opened.site
  (cleanup.1, body.2 ++ handler.2 ++ cleanup.2)

/-- Add an export: of a declaration, or of a value. -/
def addExport (facts : Facts) (file : SourceFile) (cursor : Cursor) (context : Context) :
    Facts × List Task :=
  match cursor.field? "declaration", cursor.field? "value" with
  | some declaration, _ => (facts, [.statement declaration context])
  | none, some value =>
    let opened := facts.openStatement file cursor context .simple
    (opened.facts, [.expression value opened.context none])
  | none, none => (facts, [])

/-- Look at a statement. -/
def statement (facts : Facts) (file : SourceFile) (cursor : Cursor) (context : Context) :
    Facts × List Task :=
  match StatementForm.ofKind cursor.kind with
  | .block => facts.addBlock cursor context
  | .declaration => facts.addDeclaration file cursor context
  | .expression => facts.addExpressionStatement file cursor context
  | .returns => facts.addReturn file cursor context
  | .throws => facts.addThrow file cursor context
  | .conditional => facts.addConditional file cursor context
  | .forLoop => facts.addForLoop cursor context
  | .forEach => facts.addForEach file cursor context
  | .loop => facts.addLoop file cursor context
  | .switch => facts.addSwitch file cursor context
  | .guarded => facts.addGuarded file cursor context
  | .breaks => ((facts.openStatement file cursor context .breaks).facts, [])
  | .continues => ((facts.openStatement file cursor context .continues).facts, [])
  | .labelled => (facts, fieldStatement cursor "body" context)
  | .exported => facts.addExport file cursor context
  | .function =>
    let added := facts.addFunction file cursor context none false
    (added.facts, added.tasks)
  | .classLike => facts.addClass file cursor context none
  | .module => (facts, fieldStatement cursor "body" context)
  | .faulty => (facts, statementTasks cursor context)
  | .inert => (facts, [])
  | .plain =>
    let opened := facts.openStatement file cursor context .simple
    (opened.facts, [.expression cursor opened.context none])

/-! ## What is left to do follows -/

theorem below_fieldExpression (cursor : Cursor) (name : String) (context : Context) :
    TasksBelow cursor (fieldExpression cursor name context) :=
  .field fun _ => rfl

theorem below_fieldStatement (cursor : Cursor) (name : String) (context : Context) :
    TasksBelow cursor (fieldStatement cursor name context) :=
  .field fun _ => rfl

theorem below_statementTasks (cursor : Cursor) (context : Context) :
    TasksBelow cursor (statementTasks cursor context) :=
  .map (fun _ => Cursor.below_of_mem_named) fun _ => rfl

theorem below_expressionTasks (cursor : Cursor) (context : Context) :
    TasksBelow cursor (expressionTasks cursor context) :=
  .map (fun _ => Cursor.below_of_mem_named) fun _ => rfl

theorem below_declaratorTasks (file : SourceFile) (context : Context) (word : String)
    (site : Nat) (declarator : Cursor) :
    TasksBelow declarator (declaratorTasks file context word site declarator) := by
  unfold declaratorTasks
  split
  · split
    · exact .nil
    · rename_i name held
      exact .append (.field fun _ => rfl) (.cons (Cursor.below_of_field? held) .nil)
  · exact .nil

theorem below_addDeclaration (facts : Facts) (file : SourceFile) (cursor : Cursor)
    (context : Context) : TasksBelow cursor (facts.addDeclaration file cursor context).2 := by
  intro task inside
  obtain ⟨declarator, there, here⟩ := List.mem_flatMap.1 inside
  exact (below_declaratorTasks _ _ _ _ _ task here).trans (Cursor.below_of_mem_named there)

theorem below_addExpressionStatement (facts : Facts) (file : SourceFile) (cursor : Cursor)
    (context : Context) :
    TasksBelow cursor (facts.addExpressionStatement file cursor context).2 := by
  unfold addExpressionStatement
  split
  · exact .nil
  · rename_i inner held
    have low := Cursor.below_of_firstNamed? held
    split
    · exact (below_fieldStatement _ _ _).trans low
    · exact .cons low .nil

theorem below_addLoopBody (facts : Facts) (cursor : Cursor) (context : Context)
    (statement site : Nat) :
    TasksBelow cursor (facts.addLoopBody cursor context statement site).2 := by
  unfold addLoopBody
  split
  · exact .nil
  · rename_i body held
    exact .cons (Cursor.below_of_field? held) .nil

theorem below_addLoop (facts : Facts) (file : SourceFile) (cursor : Cursor)
    (context : Context) : TasksBelow cursor (facts.addLoop file cursor context).2 :=
  .append (below_fieldExpression _ _ _) (below_addLoopBody _ _ _ _ _)

theorem below_of_loopCondition? {cursor child : Cursor}
    (found : loopCondition? cursor = some child) : child.Below cursor := by
  unfold loopCondition? at found
  split at found
  · simp at found
  · rename_i condition held
    have low := Cursor.below_of_field? held
    split at found
    · simp at found
    · split at found
      · simp at found
      · split at found
        · exact (Cursor.below_of_firstNamed? found).trans low
        · exact Option.some.inj found ▸ low

theorem below_addLoopHeader (facts : Facts) (file : SourceFile) (cursor : Cursor)
    (context : Context) : TasksBelow cursor (facts.addLoopHeader file cursor context).2 :=
  .append (.append (.option (fun _ => below_of_loopCondition?) fun _ => rfl)
    (below_fieldExpression _ _ _)) (below_addLoopBody _ _ _ _ _)

theorem below_addForEach (facts : Facts) (file : SourceFile) (cursor : Cursor)
    (context : Context) : TasksBelow cursor (facts.addForEach file cursor context).2 :=
  .append (.append (below_fieldExpression _ _ _) (.field fun _ => rfl))
    (below_addLoopBody _ _ _ _ _)

theorem below_addConditional (facts : Facts) (file : SourceFile) (cursor : Cursor)
    (context : Context) : TasksBelow cursor (facts.addConditional file cursor context).2 := by
  unfold addConditional
  refine .append (.append (below_fieldExpression _ _ _) ?_) ?_
  · split
    · exact .nil
    · rename_i consequence held
      exact .cons (Cursor.below_of_field? held) .nil
  · simp only
    split
    · exact .nil
    · rename_i alternative held
      have low := Cursor.below_of_field? held
      refine .option (fun body found => ?_) fun _ => rfl
      split at found
      · exact (Cursor.below_of_firstNamed? found).trans low
      · exact Option.some.inj found ▸ low

theorem below_addCase {cursor : Cursor} {opened : Opened} {context body : Context}
    {state : Facts × List Task} {entry : Cursor} (below : TasksBelow cursor state.2)
    (low : entry.Below cursor) : TasksBelow cursor (addCase opened context body state entry).2 := by
  unfold addCase
  simp only
  split
  · exact below
  · exact .append (.append below ((below_fieldExpression _ _ _).trans low))
      (.map (fun child inside => (Cursor.below_of_mem_fields inside).trans low) fun _ => rfl)

theorem below_addSwitch (facts : Facts) (file : SourceFile) (cursor : Cursor)
    (context : Context) : TasksBelow cursor (facts.addSwitch file cursor context).2 := by
  have all : ∀ (list : List Cursor) (state : Facts × List Task) (opened : Opened)
      (inner : Context), (∀ entry ∈ list, entry.Below cursor) → TasksBelow cursor state.2 →
        TasksBelow cursor (list.foldl (addCase opened context inner) state).2 := by
    intro list
    induction list with
    | nil => intro state _ _ _ below; exact below
    | cons head rest ih =>
      intro state opened inner low below
      exact ih _ _ _ (fun entry there => low entry (List.mem_cons_of_mem _ there))
        (below_addCase below (low head List.mem_cons_self))
  exact .append (below_fieldExpression _ _ _)
    (all _ _ _ _ (fun _ => below_of_mem_named_field) .nil)

theorem below_addHandler (facts : Facts) (file : SourceFile) (cursor : Cursor)
    (context : Context) (statement site : Nat) :
    TasksBelow cursor (facts.addHandler file cursor context statement site).2 := by
  unfold addHandler
  split
  · exact .nil
  · rename_i handler held
    exact (TasksBelow.append (.field fun _ => rfl) (below_fieldStatement _ _ _)).trans
      (Cursor.below_of_field? held)

theorem below_addCleanup (facts : Facts) (cursor : Cursor) (context : Context)
    (statement site : Nat) :
    TasksBelow cursor (facts.addCleanup cursor context statement site).2 := by
  unfold addCleanup
  split
  · exact .nil
  · rename_i body held
    obtain ⟨finalizer, first, second⟩ := Option.bind_eq_some_iff.1 held
    exact .cons ((Cursor.below_of_field? second).trans (Cursor.below_of_field? first)) .nil

theorem below_addGuarded (facts : Facts) (file : SourceFile) (cursor : Cursor)
    (context : Context) : TasksBelow cursor (facts.addGuarded file cursor context).2 := by
  refine .append (.append ?_ (below_addHandler _ _ _ _ _ _)) (below_addCleanup _ _ _ _ _)
  split
  · exact .nil
  · rename_i body held
    exact .cons (Cursor.below_of_field? held) .nil

theorem below_addExport (facts : Facts) (file : SourceFile) (cursor : Cursor)
    (context : Context) : TasksBelow cursor (facts.addExport file cursor context).2 := by
  unfold addExport
  split
  · rename_i declaration held
    exact .cons (Cursor.below_of_field? held) .nil
  · rename_i value _ held
    exact .cons (Cursor.below_of_field? held) .nil
  · exact .nil

theorem follows_of_mem_addForLoop {facts : Facts} {cursor : Cursor} {context : Context}
    {task : Task} (inside : task ∈ (facts.addForLoop cursor context).2) :
    task.Follows (.statement cursor context) := by
  simp only [addForLoop, List.mem_append, Option.mem_toList, Option.map_eq_some_iff,
    Option.filter_eq_some_iff, List.mem_singleton] at inside
  rcases inside with ⟨child, ⟨held, -⟩, rfl⟩ | rfl
  · exact .inl (Cursor.below_of_field? held)
  · exact .inr ⟨rfl, Nat.lt_succ_self 2⟩

theorem follows_of_mem_statement {facts : Facts} {file : SourceFile} {cursor : Cursor}
    {context : Context} {task : Task}
    (inside : task ∈ (facts.statement file cursor context).2) :
    task.Follows (.statement cursor context) := by
  have below : ∀ {tasks : List Task}, TasksBelow cursor tasks → task ∈ tasks →
      task.Follows (.statement cursor context) := fun low there => .inl (low task there)
  unfold statement at inside
  split at inside
  · exact below (below_statementTasks _ _) inside
  · exact below (below_addDeclaration _ _ _ _) inside
  · exact below (below_addExpressionStatement _ _ _ _) inside
  · exact below (below_expressionTasks _ _) inside
  · exact below (below_expressionTasks _ _) inside
  · exact below (below_addConditional _ _ _ _) inside
  · exact follows_of_mem_addForLoop inside
  · exact below (below_addForEach _ _ _ _) inside
  · exact below (below_addLoop _ _ _ _) inside
  · exact below (below_addSwitch _ _ _ _) inside
  · exact below (below_addGuarded _ _ _ _) inside
  · simp at inside
  · simp at inside
  · exact below (below_fieldStatement _ _ _) inside
  · exact below (below_addExport _ _ _ _) inside
  · exact below (below_addFunction _ _ _ _ _ _) inside
  · exact below (below_addClass _ _ _ _ _) inside
  · exact below (below_fieldStatement _ _ _) inside
  · exact below (below_statementTasks _ _) inside
  · simp at inside
  · obtain rfl := List.mem_singleton.1 inside
    exact .inr ⟨rfl, Nat.zero_lt_succ 2⟩

end Facts

end CodeGraph

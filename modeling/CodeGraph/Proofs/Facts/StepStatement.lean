import CodeGraph.Proofs.Facts.StepExpression

/-!
# Steps of statements

What one step of the walk does at a statement or at the header of a loop. A statement is opened first
(`Facts.Opens`); its arms are added to it at once, and the tasks of what it holds fit them.
-/

namespace CodeGraph

namespace Facts

variable {file : SourceFile} {base begun facts : Facts} {outer context : Context} {adds : Bool}

/-- A statement is open: the walk can go on inside it and beside it, and it is new. -/
structure Opens (file : SourceFile) (base : Facts) (outer : Context) (adds : Bool)
    (begun facts : Facts) (context : Context) (opened : Opened) : Prop where
  inner : Inside file base outer adds begun facts opened.context
  beside : Inside file base outer adds begun facts context
  site : facts.graph.KindIn opened.site [.stmt]
  fresh : Fresh base facts context.region opened.statement
  same : opened.context.site = some opened.site
  around : context.Around facts opened.site

namespace Opens

variable {opened : Opened}

theorem later (opens : Opens file base outer adds begun facts context opened) {after : Facts}
    {other : Context} (inside : Inside file base outer adds facts after other) :
    Opens file base outer adds begun after context opened :=
  ⟨opens.inner.later inside.made inside.extend, opens.beside.later inside.made inside.extend,
    opens.site.kept inside.extend.graph, opens.fresh.later inside.extend, opens.same,
    opens.around.later inside.extend⟩

theorem sited (opens : Opens file base outer adds begun facts context opened) :
    opened.context.Sited := by
  rw [Context.Sited, opens.same]
  rfl

theorem seat (opens : Opens file base outer adds begun facts context opened) :
    opened.context.parent = some opened.site := opens.inner.known.seat _ opens.same

/-- Names can be written at an open statement. -/
theorem writer (opens : Opens file base outer adds begun facts context opened) :
    facts.graph.KindIn opened.site NodeKind.writers := opens.site.mono (by decide)

/-- An arm is added to an open statement, and then more statements can be looked at there. -/
theorem arm (opens : Opens file base outer adds begun facts context opened)
    (may : base.regions.size ≤ context.region ∨ adds = true) (role : Role) :
    Opens file base outer adds begun (facts.pushArm context opened.statement role).1 context opened ∧
      facts.Extends (facts.pushArm context opened.statement role).1 ∧
      Inside file base outer adds begun (facts.pushArm context opened.statement role).1
        (context.enter (facts.pushArm context opened.statement role).2 opened.site) := by
  obtain ⟨pushed, there⟩ := opens.beside.restart.pushArm may opens.fresh role
  have still := opens.later pushed
  exact ⟨still, pushed.extend, still.beside.enter there still.site.lt still.around⟩

end Opens

theorem Inside.openStatement (inside : Inside file base outer adds begun facts context)
    (may : base.regions.size ≤ context.region ∨ adds = true) (cursor : Cursor)
    (kind : StatementKind) :
    Opens file base outer adds begun (facts.openStatement file cursor context kind).facts context
      (facts.openStatement file cursor context kind) := by
  have draws : file.Draws ((file.nodeOf cursor .stmt none).set "kind" (.text cursor.kind)) :=
    file.draws_nodeOf cursor fun binding => by cases binding
  obtain ⟨placed, handle⟩ := inside.place .stmt draws rfl (by decide) inside.known.parent
  obtain ⟨pushed, fresh⟩ := placed.pushStatement may (handle.mono (by decide)) kind
  have still := handle
  rw [← graph_pushStatement _ context _ kind] at still
  have around : context.Around (facts.openStatement file cursor context kind).facts
      (facts.openStatement file cursor context kind).site :=
    (inside.sound.around_place inside.known .stmt draws rfl (by decide)).later
      (extends_pushStatement _ context _ kind)
  exact ⟨(pushed.atSite (still.mono (by decide)) around).atStatement fresh, pushed, still, fresh, rfl,
    around⟩

/-- A statement is opened, and nothing but tasks inside it are left. -/
theorem Opens.leave {opened : Opened}
    (opens : Opens file base outer adds begun facts context opened) {tasks : List Task}
    (fits : ∀ task ∈ tasks, task.Fits base outer adds facts) :
    Proceeds file base outer adds begun (facts, tasks) :=
  opens.beside.leave fits

theorem fits_declaratorTasks (inside : Inside file base outer adds begun facts context)
    (sited : context.Sited) (word : String) {site : Nat} (there : facts.graph.KindIn site NodeKind.writers)
    (seat : context.parent = some site) (declarator : Cursor) :
    ∀ task ∈ declaratorTasks file context word site declarator, task.Fits base outer adds facts := by
  unfold declaratorTasks
  split
  · split
    · exact fits_none
    · exact fits_append (inside.expression? sited _ _)
        (fits_one (inside.bind sited _ (.declare word site) fun _ given =>
          Option.some.inj given ▸ ⟨there, seat⟩))
  · exact fits_none

theorem proceeds_addDeclaration (inside : Inside file base outer adds begun facts context)
    (may : base.regions.size ≤ context.region ∨ adds = true) (cursor : Cursor) :
    Proceeds file base outer adds begun (facts.addDeclaration file cursor context) := by
  have opens := inside.openStatement may cursor .simple
  refine opens.leave fun task there => ?_
  obtain ⟨declarator, -, here⟩ := List.mem_flatMap.1 there
  exact fits_declaratorTasks opens.inner opens.sited _ opens.writer opens.seat declarator task here

theorem proceeds_addExpressionStatement (inside : Inside file base outer adds begun facts context)
    (may : base.regions.size ≤ context.region ∨ adds = true) (cursor : Cursor) :
    Proceeds file base outer adds begun (facts.addExpressionStatement file cursor context) := by
  unfold addExpressionStatement
  split
  · exact inside.stop
  · split
    · exact inside.leave (inside.statement? may _)
    · have opens := inside.openStatement may cursor .simple
      exact opens.leave (fits_one (opens.inner.expression opens.sited _ none))

theorem proceeds_addReturn (inside : Inside file base outer adds begun facts context)
    (may : base.regions.size ≤ context.region ∨ adds = true) (cursor : Cursor) :
    Proceeds file base outer adds begun (facts.addReturn file cursor context) := by
  have opens := inside.openStatement may cursor .returns
  have returned := opens.inner.recordReturn (opens.site.mono (by decide)) context.function
  exact returned.leave (returned.expressions opens.sited _)

theorem proceeds_addThrow (inside : Inside file base outer adds begun facts context)
    (may : base.regions.size ≤ context.region ∨ adds = true) (cursor : Cursor) :
    Proceeds file base outer adds begun (facts.addThrow file cursor context) := by
  have opens := inside.openStatement may cursor .throws
  exact opens.leave (opens.inner.expressions opens.sited _)

theorem Opens.loopBody {opened : Opened}
    (opens : Opens file base outer adds begun facts context opened)
    (may : base.regions.size ≤ context.region ∨ adds = true) (cursor : Cursor) :
    Opens file base outer adds begun
        (facts.addLoopBody cursor context opened.statement opened.site).1 context opened ∧
      ∀ task ∈ (facts.addLoopBody cursor context opened.statement opened.site).2,
        task.Fits base outer adds
          (facts.addLoopBody cursor context opened.statement opened.site).1 := by
  unfold addLoopBody
  split
  · exact ⟨opens, fits_none⟩
  · obtain ⟨still, -, entered⟩ := opens.arm may .loopBody
    exact ⟨still, fits_one (entered.statement may _)⟩

theorem proceeds_addLoop (inside : Inside file base outer adds begun facts context)
    (may : base.regions.size ≤ context.region ∨ adds = true) (cursor : Cursor) :
    Proceeds file base outer adds begun (facts.addLoop file cursor context) := by
  obtain ⟨opens, body⟩ := (inside.openStatement may cursor .loop).loopBody may cursor
  exact opens.leave (fits_append (opens.inner.expression? opens.sited _ none) body)

theorem proceeds_addForLoop (inside : Inside file base outer adds begun facts context)
    (may : base.regions.size ≤ context.region ∨ adds = true) (cursor : Cursor) :
    Proceeds file base outer adds begun (facts.addForLoop cursor context) := by
  have pushed := inside.pushScope
  exact pushed.leave (fits_append (pushed.statement? may _) (fits_one (pushed.loopHeader may _)))

theorem proceeds_addLoopHeader (inside : Inside file base outer adds begun facts context)
    (may : base.regions.size ≤ context.region ∨ adds = true) (cursor : Cursor) :
    Proceeds file base outer adds begun (facts.addLoopHeader file cursor context) := by
  obtain ⟨opens, body⟩ := (inside.openStatement may cursor .loop).loopBody may cursor
  exact opens.leave (fits_append (fits_append (opens.inner.expression? opens.sited _ none)
    (opens.inner.expression? opens.sited _ none)) body)

theorem proceeds_addForEach (inside : Inside file base outer adds begun facts context)
    (may : base.regions.size ≤ context.region ∨ adds = true) (cursor : Cursor) :
    Proceeds file base outer adds begun (facts.addForEach file cursor context) := by
  have pushed := inside.pushScope
  obtain ⟨opens, body⟩ := (pushed.openStatement may cursor .loop).loopBody may cursor
  refine opens.leave (fits_append (fits_append (opens.inner.expression? opens.sited _ none)
    (opens.inner.bind? opens.sited _ fun site given => ?_)) body)
  split at given
  · exact Option.some.inj given ▸ ⟨opens.writer, opens.seat⟩
  · exact Option.some.inj given ▸ ⟨opens.writer, opens.seat⟩

theorem proceeds_addConditional (inside : Inside file base outer adds begun facts context)
    (may : base.regions.size ≤ context.region ∨ adds = true) (cursor : Cursor) :
    Proceeds file base outer adds begun (facts.addConditional file cursor context) := by
  have opens := inside.openStatement may cursor .conditional
  unfold addConditional
  cases cursor.field? "consequence" with
  | none =>
    cases cursor.field? "alternative" with
    | none =>
      exact opens.leave (fits_append (fits_append (opens.inner.expression? opens.sited _ none) fits_none)
        fits_none)
    | some alternative =>
      obtain ⟨both, -, whenFalse⟩ := opens.arm may .whenFalse
      exact both.leave (fits_append (fits_append (both.inner.expression? both.sited _ none) fits_none)
        (whenFalse.statement? may _))
  | some consequence =>
    obtain ⟨first, -, whenTrue⟩ := opens.arm may .whenTrue
    cases cursor.field? "alternative" with
    | none =>
      exact first.leave (fits_append (fits_append (first.inner.expression? first.sited _ none)
        (fits_one (whenTrue.statement may _))) fits_none)
    | some alternative =>
      obtain ⟨both, extend, whenFalse⟩ := first.arm may .whenFalse
      exact both.leave (fits_append (fits_append (both.inner.expression? both.sited _ none)
        (fits_one ((whenTrue.statement may _).later extend))) (whenFalse.statement? may _))

theorem Opens.case {opened : Opened} {body : Context} {state : Facts × List Task}
    (opens : Opens file base outer adds begun state.1 context opened)
    (may : base.regions.size ≤ context.region ∨ adds = true)
    (within : Inside file base outer adds begun state.1 body)
    (same : body.region = context.region) (alike : body.function = context.function)
    (fits : ∀ task ∈ state.2, task.Fits base outer adds state.1) (entry : Cursor) :
    Opens file base outer adds begun (addCase opened context body state entry).1 context opened ∧
      Inside file base outer adds begun (addCase opened context body state entry).1 body ∧
      ∀ task ∈ (addCase opened context body state entry).2,
        task.Fits base outer adds (addCase opened context body state entry).1 := by
  unfold addCase
  simp only
  split
  · exact ⟨opens, within, fits⟩
  · next isDefault _ =>
    obtain ⟨pushed, there⟩ := opens.beside.restart.pushArm may opens.fresh (.case isDefault)
    have still := opens.later pushed
    have stays := within.later pushed.made pushed.extend
    have entered := stays.enter (same ▸ there) still.site.lt
      fun number given => still.around number (alike ▸ given)
    exact ⟨still, stays, fits_append (fits_append (fits_later fits pushed.extend)
      (still.inner.expression? still.sited _ none)) (entered.statements (same ▸ may) _)⟩

theorem Opens.cases {opened : Opened} {body : Context} (state : Facts × List Task)
    (opens : Opens file base outer adds begun state.1 context opened)
    (may : base.regions.size ≤ context.region ∨ adds = true)
    (within : Inside file base outer adds begun state.1 body)
    (same : body.region = context.region) (alike : body.function = context.function)
    (fits : ∀ task ∈ state.2, task.Fits base outer adds state.1) (entries : List Cursor) :
    Opens file base outer adds begun (entries.foldl (addCase opened context body) state).1 context
        opened ∧
      ∀ task ∈ (entries.foldl (addCase opened context body) state).2,
        task.Fits base outer adds (entries.foldl (addCase opened context body) state).1 := by
  induction entries generalizing state with
  | nil => exact ⟨opens, fits⟩
  | cons entry rest ih =>
    obtain ⟨still, stays, more⟩ := opens.case may within same alike fits entry
    exact ih _ still stays more

theorem proceeds_addSwitch (inside : Inside file base outer adds begun facts context)
    (may : base.regions.size ≤ context.region ∨ adds = true) (cursor : Cursor) :
    Proceeds file base outer adds begun (facts.addSwitch file cursor context) := by
  have opens := inside.openStatement may cursor .switch
  have pushed := opens.beside.restart.pushScope
  have still := opens.later pushed
  have body := still.beside.inScope pushed.known.scope pushed.known.body
  obtain ⟨done, fits⟩ := Opens.cases (_, []) still may body rfl rfl fits_none
    (((cursor.field? "body").map Cursor.named).getD [])
  exact done.leave (fits_append (done.inner.expression? done.sited _ none) fits)

theorem Opens.handler {opened : Opened}
    (opens : Opens file base outer adds begun facts context opened)
    (may : base.regions.size ≤ context.region ∨ adds = true) (cursor : Cursor) :
    Opens file base outer adds begun
        (facts.addHandler file cursor context opened.statement opened.site).1 context opened ∧
      facts.Extends (facts.addHandler file cursor context opened.statement opened.site).1 ∧
      ∀ task ∈ (facts.addHandler file cursor context opened.statement opened.site).2,
        task.Fits base outer adds
          (facts.addHandler file cursor context opened.statement opened.site).1 := by
  unfold addHandler
  split
  · exact ⟨opens, .refl facts, fits_none⟩
  · next handler _ =>
    obtain ⟨pushed, there⟩ := opens.beside.restart.pushArm may opens.fresh .handler
    have inScope := pushed.pushScope
    have inner := inScope.enter
      (Nat.lt_of_lt_of_le there (extends_pushScope _ context.scope false |>.blocks _))
      (Nat.lt_of_lt_of_le opens.site.lt inScope.extend.graph.size_le)
      (opens.around.later inScope.extend)
    have clause := inner.openStatement may handler .simple
    refine ⟨opens.later clause.beside, clause.beside.extend, fits_append ?_ ?_⟩
    · exact clause.inner.bind? clause.sited _ fun _ given => Option.some.inj given ▸ ⟨clause.writer, clause.seat⟩
    · exact (clause.beside.below clause.site.lt clause.around rfl).statement? may _

theorem Opens.cleanup {opened : Opened}
    (opens : Opens file base outer adds begun facts context opened)
    (may : base.regions.size ≤ context.region ∨ adds = true) (cursor : Cursor) :
    Opens file base outer adds begun
        (facts.addCleanup cursor context opened.statement opened.site).1 context opened ∧
      facts.Extends (facts.addCleanup cursor context opened.statement opened.site).1 ∧
      ∀ task ∈ (facts.addCleanup cursor context opened.statement opened.site).2,
        task.Fits base outer adds
          (facts.addCleanup cursor context opened.statement opened.site).1 := by
  unfold addCleanup
  split
  · exact ⟨opens, .refl facts, fits_none⟩
  · obtain ⟨still, extend, entered⟩ := opens.arm may .cleanup
    exact ⟨still, extend, fits_one (entered.statement may _)⟩

theorem proceeds_addGuarded (inside : Inside file base outer adds begun facts context)
    (may : base.regions.size ≤ context.region ∨ adds = true) (cursor : Cursor) :
    Proceeds file base outer adds begun (facts.addGuarded file cursor context) := by
  have opens := inside.openStatement may cursor .guarded
  unfold addGuarded
  cases cursor.field? "body" with
  | none =>
    obtain ⟨handled, extend, handler⟩ := opens.handler may cursor
    obtain ⟨done, extend', cleanup⟩ := handled.cleanup may cursor
    exact done.leave (fits_append (fits_append fits_none (fits_later handler extend')) cleanup)
  | some body =>
    obtain ⟨armed, -, entered⟩ := opens.arm may .guardedBody
    obtain ⟨handled, extend, handler⟩ := armed.handler may cursor
    obtain ⟨done, extend', cleanup⟩ := handled.cleanup may cursor
    exact done.leave (fits_append (fits_append
      (fits_one ((entered.statement may _).later (extend.trans extend')))
      (fits_later handler extend')) cleanup)

theorem proceeds_addExport (inside : Inside file base outer adds begun facts context)
    (may : base.regions.size ≤ context.region ∨ adds = true) (cursor : Cursor) :
    Proceeds file base outer adds begun (facts.addExport file cursor context) := by
  unfold addExport
  split
  · exact inside.leave (fits_one (inside.statement may _))
  · have opens := inside.openStatement may cursor .simple
    exact opens.leave (fits_one (opens.inner.expression opens.sited _ none))
  · exact inside.stop

/-- A step at a statement. -/
theorem proceeds_statement (inside : Inside file base outer adds begun facts context)
    (may : base.regions.size ≤ context.region ∨ adds = true) (cursor : Cursor) :
    Proceeds file base outer adds begun (facts.statement file cursor context) := by
  unfold Facts.statement
  split
  · have pushed := inside.pushScope
    exact pushed.leave (pushed.statements may _)
  · exact proceeds_addDeclaration inside may cursor
  · exact proceeds_addExpressionStatement inside may cursor
  · exact proceeds_addReturn inside may cursor
  · exact proceeds_addThrow inside may cursor
  · exact proceeds_addConditional inside may cursor
  · exact proceeds_addForLoop inside may cursor
  · exact proceeds_addForEach inside may cursor
  · exact proceeds_addLoop inside may cursor
  · exact proceeds_addSwitch inside may cursor
  · exact proceeds_addGuarded inside may cursor
  · exact (inside.openStatement may cursor .breaks).leave fits_none
  · exact (inside.openStatement may cursor .continues).leave fits_none
  · exact inside.leave (inside.statement? may _)
  · exact proceeds_addExport inside may cursor
  · exact proceeds_addFunction inside cursor none fun no => nomatch no
  · exact proceeds_addClass inside cursor none
  · exact inside.leave (inside.statement? may _)
  · exact inside.leave (inside.statements may _)
  · exact inside.stop
  · have opens := inside.openStatement may cursor .simple
    exact opens.leave (fits_one (opens.inner.expression opens.sited _ none))

/-- A step at any task that is known to the facts and about a node of the file. It is made of the
operations, in the context of the task, and leaves tasks that fit. -/
theorem proceeds_step {task : Task} (sound : Sound file facts) (known : task.Known facts)
    (has : file.Has task.cursor) :
    Proceeds file facts task.context task.adds facts (facts.step file task) := by
  have inside : Inside file facts task.context task.adds facts facts task.context :=
    ⟨sound, .start, .refl facts, .refl facts task.context, known.context⟩
  cases task with
  | statement cursor context => exact proceeds_statement inside (.inr rfl) cursor
  | loopHeader cursor context => exact proceeds_addLoopHeader inside (.inr rfl) cursor
  | bind cursor context mode => exact proceeds_bind inside (known.sited rfl) cursor known.binds
  | expression cursor context hint => exact proceeds_expression inside (known.sited rfl) has hint

end Facts

end CodeGraph

import CodeGraph.Proofs.Facts.Run
import CodeGraph.Proofs.Facts.Sight
import CodeGraph.Proofs.Facts.StepExpression

/-!
# Steps by a chart

What one step of the walk does at a task is what the scheme of the look says (`Facts.plays_step`): if the
chart has what the scheme yields, the walk places it and stays within the chart, and the tasks that it
leaves stand for the looks of the scheme, one by one and in order (`Facts.Plays`).
-/

namespace CodeGraph

namespace Facts

/-- `Plays file chart begun function result scheme`: inside a function, the walk stays within the chart on
its way from the facts `begun` to those of the result, has placed what the scheme yields and entered the
functions of the scheme, and the tasks of the result stand for what follows in the scheme. -/
structure Plays (file : SourceFile) (chart : List Yield) (begun : Facts) (function : Option Nat)
    (result : Facts × List Task) (scheme : Scheme) : Prop where
  charts : Charts file chart result.1
  extend : begun.Extends result.1
  size : result.1.functions.size = begun.functions.size + scheme.functions.length
  noted : begun.Remembers result.1
  placed : ∀ yield ∈ scheme.yields, result.1.graph.Bears yield
  entered : ∀ (place : Nat) (entry : Entry), scheme.functions[place]? = some entry →
    result.1.Enters file (begun.functions.size + place) entry
  stands : AllStand chart result.1 result.2 (scheme.sights file function begun.functions.size)

variable {file : SourceFile} {chart : List Yield} {begun facts : Facts} {count : Nat}
  {context : Context} {home : Home}

/-- Nothing more is made, no function is entered, and what is left stands for looks. -/
theorem On.leave (on : On file chart begun 0 facts context home) {tasks : List Task}
    {scheme : Scheme} (placed : ∀ yield ∈ scheme.yields, facts.graph.Bears yield)
    (none : scheme.functions = [])
    (stands : AllStand chart facts tasks
      (sightsIn context.function scheme.next ++ sightsIn context.function scheme.again)) :
    Plays file chart begun context.function (facts, tasks) scheme := by
  refine ⟨on.charts, on.extend, none ▸ on.size, on.noted, placed, ?_, ?_⟩
  · rw [none]
    exact nofun
  · rw [Scheme.sights, Entry.sights, none, List.zipIdx_nil, List.reverse_nil, List.flatMap_nil,
      List.append_nil]
    exact stands

/-- Nothing more is made, no function is entered, and what is left stands for looks, none of which comes
to a node again. -/
theorem On.finish (on : On file chart begun 0 facts context home) {tasks : List Task}
    {scheme : Scheme} (placed : ∀ yield ∈ scheme.yields, facts.graph.Bears yield)
    (stands : AllStand chart facts tasks (sightsIn context.function scheme.next))
    (none : scheme.functions = []) (once : scheme.again = []) :
    Plays file chart begun context.function (facts, tasks) scheme := by
  refine on.leave placed none ?_
  rw [once, sightsIn, sightsIn, List.map_nil, List.append_nil]
  exact stands

/-- Nothing more is made or left. -/
theorem On.stop (on : On file chart begun 0 facts context home) :
    Plays file chart begun context.function (facts, []) {} :=
  on.leave (List.forall_mem_nil _) rfl .nil

/-- Nothing more is made, and what is left is in the same home. -/
theorem On.pass (on : On file chart begun 0 facts context home) {tasks plain : List Task}
    (alike : AllAlike context home tasks plain) :
    Plays file chart begun context.function (facts, tasks) (.passes home plain) :=
  on.finish (List.forall_mem_nil _) (on.stands.all_stand alike) rfl rfl

namespace Opening

variable {node : Node} {site : Nat}

/-- Tasks right below the node stand for the looks there. -/
theorem stand (opening : Opening file chart begun count facts context home node site) (other : Context)
    (parent : other.parent = some site) (function : other.function = context.function)
    (region : other.region = context.region) {tasks plain : List Task}
    (alike : AllAlike other (home.below node) tasks plain) :
    AllStand chart facts tasks (sightsIn context.function ((home.below node).looks plain)) := by
  rw [← function]
  exact (opening.stands_below other parent function region).all_stand alike

/-- All that is left is right below the node of a statement. -/
theorem plays {cursor : Cursor}
    (opening : Opening file chart begun 0 facts context home (statementNode file cursor) site)
    {tasks plain : List Task}
    (stand : AllStand chart facts tasks
      (sightsIn context.function ((home.below (statementNode file cursor)).looks plain))) :
    Plays file chart begun context.function (facts, tasks) (.opens file cursor home plain) :=
  opening.toOn.finish (Graph.bears_singleton opening.spot) stand rfl rfl

/-- An arm is added to the statement, right below it. -/
theorem arm (opening : Opening file chart begun count facts context home node site) (statement : Nat)
    (role : Role) :
    Opening file chart begun count (facts.pushArm context statement role).1 context home node site ∧
      (context.enter (facts.pushArm context statement role).2 site).At chart
        (facts.pushArm context statement role).1 (home.below node) := by
  have armed : Opening file chart begun count (facts.pushArm context statement role).1 context home node
      site := opening.later (opening.toOn.restart.pushArm statement role)
  exact ⟨armed, armed.stands_below (context.enter _ site) rfl rfl rfl⟩

theorem pushScope (opening : Opening file chart begun count facts context home node site) (parent : Nat)
    (hoists : Bool) :
    Opening file chart begun count (facts.pushScope parent hoists).1 context home node site :=
  opening.later (opening.toOn.restart.pushScope parent hoists)

end Opening

theorem looks_append (function : Option Nat) (home : Home) (tasks others : List Task) :
    sightsIn function (home.looks (tasks ++ others)) =
      sightsIn function (home.looks tasks) ++ sightsIn function (home.looks others) := by
  rw [← sightsIn_append, Home.looks, List.map_append]
  rfl

/-! ## Statements -/

section Statements

variable (on : On file chart begun 0 facts context home) {cursor : Cursor}
  (inside : { cursor, node := statementNode file cursor, home : Yield } ∈ chart)

include on inside

theorem plays_addDeclaration :
    Plays file chart begun context.function (facts.addDeclaration file cursor context)
      (.opens file cursor home
        (cursor.named.flatMap (declaratorTasks file {} (declarationWord cursor) 0))) := by
  have opening := on.openStatement inside (by decide : StatementKind.simple ≠ .returns)
  exact opening.plays (opening.stand (facts.openStatement file cursor context .simple).context
    rfl rfl rfl (.flatMap _ fun declarator => alike_declaratorTasks file _ _ declarator))

/-- A statement with a single expression. -/
theorem plays_single (value : Cursor) :
    Plays file chart begun context.function
      ((facts.openStatement file cursor context .simple).facts,
        [.expression value (facts.openStatement file cursor context .simple).context none])
      (.opens file cursor home [.expression value {} none]) := by
  have opening := on.openStatement inside (by decide : StatementKind.simple ≠ .returns)
  exact opening.plays (opening.stand (facts.openStatement file cursor context .simple).context
    rfl rfl rfl (.one (alike_expression value none)))

/-- A statement with nothing inside. -/
theorem plays_bare {kind : StatementKind} (stays : kind ≠ .returns) :
    Plays file chart begun context.function ((facts.openStatement file cursor context kind).facts, [])
      (.opens file cursor home []) :=
  (on.openStatement inside stays).plays .nil

theorem plays_addThrow :
    Plays file chart begun context.function (facts.addThrow file cursor context)
      (.opens file cursor home (expressionTasks cursor {})) := by
  have opening := on.openStatement inside (by decide : StatementKind.throws ≠ .returns)
  exact opening.plays (opening.stand (facts.openStatement file cursor context .throws).context
    rfl rfl rfl (alike_expressionTasks cursor))

end Statements

theorem plays_addReturn (on : On file chart begun 0 facts context home) {cursor : Cursor}
    (inside : { cursor, node := statementNode file cursor, home, returns := true : Yield } ∈ chart) :
    Plays file chart begun context.function (facts.addReturn file cursor context)
      (.answers file cursor home) := by
  have opening := on.openReturn inside
  exact opening.toOn.finish (Graph.bears_singleton opening.spot) (opening.stand
    (facts.openStatement file cursor context .returns).context rfl rfl rfl
    (alike_expressionTasks cursor)) rfl rfl

/-- The body of a loop is right below the loop. -/
theorem Opening.loopBody {node : Node} {site : Nat}
    (opening : Opening file chart begun count facts context home node site) (cursor : Cursor)
    (statement : Nat) :
    Opening file chart begun count (facts.addLoopBody cursor context statement site).1 context home node
        site ∧
      AllStand chart (facts.addLoopBody cursor context statement site).1
        (facts.addLoopBody cursor context statement site).2
        (sightsIn context.function ((home.below node).looks (fieldStatement cursor "body" {}))) := by
  unfold addLoopBody fieldStatement
  cases cursor.field? "body" with
  | none => exact ⟨opening, .nil⟩
  | some body =>
    obtain ⟨armed, entered⟩ := opening.arm statement .loopBody
    exact ⟨armed, entered.all_stand (.one (alike_statement body))⟩

section Statements

variable (on : On file chart begun 0 facts context home) {cursor : Cursor}
  (inside : { cursor, node := statementNode file cursor, home : Yield } ∈ chart)

include on inside

theorem plays_addLoop :
    Plays file chart begun context.function (facts.addLoop file cursor context) (.opens file cursor home
      (fieldExpression cursor "condition" {} ++ fieldStatement cursor "body" {})) := by
  obtain ⟨opening, body⟩ := (on.openStatement inside
    (by decide : StatementKind.loop ≠ .returns)).loopBody cursor
      (facts.openStatement file cursor context .loop).statement
  refine opening.plays ?_
  rw [looks_append]
  exact (opening.stand (facts.openStatement file cursor context .loop).context rfl rfl rfl
    (alike_fieldExpression cursor "condition")).append body

theorem plays_addLoopHeader :
    Plays file chart begun context.function (facts.addLoopHeader file cursor context)
      (.opens file cursor home
        (((loopCondition? cursor).map fun child => Task.expression child {} none).toList
          ++ fieldExpression cursor "increment" {} ++ fieldStatement cursor "body" {})) := by
  obtain ⟨opening, body⟩ := (on.openStatement inside
    (by decide : StatementKind.loop ≠ .returns)).loopBody cursor
      (facts.openStatement file cursor context .loop).statement
  refine opening.plays ?_
  rw [looks_append]
  exact (opening.stand (facts.openStatement file cursor context .loop).context rfl rfl rfl
    (.append (.option _ fun child => alike_expression child none)
      (alike_fieldExpression cursor "increment"))).append body

theorem plays_addForEach :
    Plays file chart begun context.function (facts.addForEach file cursor context)
      (.opens file cursor home (Scheme.forEachTasks cursor)) := by
  let outer := { context with scope := (facts.pushScope context.scope false).2 }
  have pushed := (on.pushScope context.scope false).go outer rfl rfl rfl
  obtain ⟨opening, body⟩ := (pushed.openStatement inside
    (by decide : StatementKind.loop ≠ .returns)).loopBody cursor _
  refine opening.plays ?_
  rw [Scheme.forEachTasks, looks_append]
  refine (opening.stand ((facts.pushScope context.scope false).1.openStatement file cursor outer
    .loop).context rfl rfl rfl (.append (alike_fieldExpression cursor "right")
    (.option _ fun child => alike_bind child ?_ ?_))).append body
  · cases ["const", "let", "var"].find? cursor.hasToken <;> rfl
  · cases ["const", "let", "var"].find? cursor.hasToken <;> trivial

theorem plays_addConditional :
    Plays file chart begun context.function (facts.addConditional file cursor context)
      (.opens file cursor home (fieldExpression cursor "condition" {} ++ Scheme.armTasks cursor)) := by
  have opening := on.openStatement inside (by decide : StatementKind.conditional ≠ .returns)
  have test := opening.stand (facts.openStatement file cursor context .conditional).context
    rfl rfl rfl (alike_fieldExpression cursor "condition")
  unfold addConditional Scheme.armTasks fieldStatement
  cases cursor.field? "consequence" with
  | none =>
    cases cursor.field? "alternative" with
    | none =>
      refine opening.plays ?_
      rw [looks_append, looks_append, ← List.append_assoc]
      exact (test.append .nil).append .nil
    | some alternative =>
      obtain ⟨armed, whenFalse⟩ := opening.arm
        (facts.openStatement file cursor context .conditional).statement .whenFalse
      refine armed.plays ?_
      rw [looks_append, looks_append, ← List.append_assoc]
      exact ((test.later (extends_pushArm _ _ _ _)).append .nil).append
        (whenFalse.all_stand (.option _ alike_statement))
  | some consequence =>
    obtain ⟨first, whenTrue⟩ := opening.arm
      (facts.openStatement file cursor context .conditional).statement .whenTrue
    have tested := (test.later (extends_pushArm _ _ _ _)).append
      (whenTrue.all_stand (.one (alike_statement consequence)))
    cases cursor.field? "alternative" with
    | none =>
      refine first.plays ?_
      rw [looks_append, looks_append, ← List.append_assoc]
      exact tested.append .nil
    | some alternative =>
      obtain ⟨both, whenFalse⟩ := first.arm
        (facts.openStatement file cursor context .conditional).statement .whenFalse
      refine both.plays ?_
      rw [looks_append, looks_append, ← List.append_assoc]
      exact (tested.later (extends_pushArm _ _ _ _)).append
        (whenFalse.all_stand (.option _ alike_statement))

end Statements

/-- One case of a switch is right below the switch. -/
theorem Opening.case {node : Node} {opened : Opened} {body : Context} {state : Facts × List Task}
    (opening : Opening file chart begun count state.1 context home node opened.site)
    (tested : opened.context.At chart state.1 (home.below node))
    (around : opened.context.function = context.function)
    (function : body.function = context.function) (region : body.region = context.region)
    {plain : List Task} (stand : AllStand chart state.1 state.2
      (sightsIn context.function ((home.below node).looks plain)))
    (entry : Cursor) :
    Opening file chart begun count (addCase opened context body state entry).1 context home node
        opened.site ∧
      opened.context.At chart (addCase opened context body state entry).1 (home.below node) ∧
      AllStand chart (addCase opened context body state entry).1
        (addCase opened context body state entry).2
        (sightsIn context.function ((home.below node).looks (plain ++ Scheme.caseTasks entry))) := by
  have armed : ∀ isDefault : Bool,
      Opening file chart begun count (state.1.pushArm context opened.statement (.case isDefault)).1 context
          home node opened.site ∧
        opened.context.At chart (state.1.pushArm context opened.statement (.case isDefault)).1
          (home.below node) ∧
        AllStand chart (state.1.pushArm context opened.statement (.case isDefault)).1
          (state.2 ++ fieldExpression entry "value" opened.context ++
            (entry.fields "body").map fun child => .statement child
              (body.enter (state.1.pushArm context opened.statement (.case isDefault)).2 opened.site))
          (sightsIn context.function ((home.below node).looks (plain ++
            (fieldExpression entry "value" {} ++
              (entry.fields "body").map fun child => .statement child {})))) := by
    intro isDefault
    have grown := extends_pushArm state.1 context opened.statement (.case isDefault)
    obtain ⟨still, -⟩ := opening.arm opened.statement (.case isDefault)
    have test := tested.later grown
    refine ⟨still, test, ?_⟩
    rw [← List.append_assoc, looks_append, looks_append]
    have fields := test.all_stand (alike_fieldExpression entry "value")
    rw [around] at fields
    exact ((stand.later grown).append fields).append
      (still.stand (body.enter _ opened.site) rfl function region (.map _ alike_statement))
  unfold addCase Scheme.caseTasks
  by_cases case_ : entry.kind = "switch_case"
  · simp only [if_pos case_, if_pos (Or.inl case_ : entry.kind = "switch_case" ∨ _)]
    exact armed false
  · by_cases default_ : entry.kind = "switch_default"
    · simp only [if_neg case_, if_pos default_,
        if_pos (Or.inr default_ : _ ∨ entry.kind = "switch_default")]
      exact armed true
    · simp only [if_neg case_, if_neg default_,
        if_neg (not_or.2 ⟨case_, default_⟩ : ¬ (_ ∨ entry.kind = "switch_default")),
        List.append_nil]
      exact ⟨opening, tested, stand⟩

theorem Opening.cases {node : Node} {opened : Opened} (body : Context)
    (entries : List Cursor) (state : Facts × List Task)
    (opening : Opening file chart begun count state.1 context home node opened.site)
    (tested : opened.context.At chart state.1 (home.below node))
    (around : opened.context.function = context.function)
    (function : body.function = context.function) (region : body.region = context.region)
    {plain : List Task} (stand : AllStand chart state.1 state.2
      (sightsIn context.function ((home.below node).looks plain))) :
    Opening file chart begun count (entries.foldl (addCase opened context body) state).1 context home node
        opened.site ∧
      opened.context.At chart (entries.foldl (addCase opened context body) state).1
        (home.below node) ∧
      AllStand chart (entries.foldl (addCase opened context body) state).1
        (entries.foldl (addCase opened context body) state).2
        (sightsIn context.function
          ((home.below node).looks (plain ++ entries.flatMap Scheme.caseTasks))) := by
  induction entries generalizing state plain with
  | nil =>
    rw [List.flatMap_nil, List.append_nil]
    exact ⟨opening, tested, stand⟩
  | cons entry rest ih =>
    obtain ⟨still, test, more⟩ := opening.case tested around function region stand entry
    rw [List.flatMap_cons, ← List.append_assoc]
    exact ih _ still test more

/-- The handler of a guarded statement: its clause is right below the statement. -/
theorem Opening.handler {node : Node} {site : Nat}
    (opening : Opening file chart begun count facts context home node site) {cursor : Cursor}
    (within : (Scheme.handled file cursor (home.below node)).yields ⊆ chart) (statement : Nat) :
    Opening file chart begun count (facts.addHandler file cursor context statement site).1 context home node
        site ∧
      facts.Extends (facts.addHandler file cursor context statement site).1 ∧
      (∀ yield ∈ (Scheme.handled file cursor (home.below node)).yields,
        (facts.addHandler file cursor context statement site).1.graph.Bears yield) ∧
      AllStand chart (facts.addHandler file cursor context statement site).1
        (facts.addHandler file cursor context statement site).2
        (sightsIn context.function (Scheme.handled file cursor (home.below node)).next) := by
  revert within
  unfold addHandler Scheme.handled
  cases cursor.field? "handler" with
  | none => exact fun _ => ⟨opening, .refl facts, List.forall_mem_nil _, .nil⟩
  | some handler =>
    intro within
    let scope := (facts.pushArm context statement .handler).1.pushScope context.scope false
    let arm := { context with scope := scope.2 }.enter (facts.pushArm context statement .handler).2 site
    obtain ⟨armed, -⟩ := opening.restart.arm statement .handler
    have entered : On file chart facts 0 scope.1 arm (home.below node) :=
      (armed.pushScope context.scope false).below arm rfl rfl rfl
    have clause := entered.openStatement (within (List.mem_singleton_self _))
      (by decide : StatementKind.simple ≠ .returns)
    refine ⟨opening.later clause.toOn, clause.extend, Graph.bears_singleton clause.spot, ?_⟩
    let opened := scope.1.openStatement file handler arm .simple
    have bind : ∀ param : Cursor, Task.Alike opened.context
        ((home.below node).below (statementNode file handler))
        (.bind param opened.context (.declare "catch" opened.site))
        (.bind param {} (.declare "catch" 0)) := fun param => alike_bind param rfl trivial
    have caught := clause.stand opened.context rfl rfl rfl
      (.option (handler.field? "parameter") bind)
    have body := clause.stand { arm with parent := some opened.site } rfl rfl rfl
      (alike_fieldStatement handler "body")
    have both := caught.append body
    rw [← looks_append] at both
    exact both

/-- The cleanup of a guarded statement is right below the statement. -/
theorem Opening.cleanup {node : Node} {site : Nat}
    (opening : Opening file chart begun count facts context home node site) (cursor : Cursor)
    (statement : Nat) :
    Opening file chart begun count (facts.addCleanup cursor context statement site).1 context home node
        site ∧
      facts.Extends (facts.addCleanup cursor context statement site).1 ∧
      AllStand chart (facts.addCleanup cursor context statement site).1
        (facts.addCleanup cursor context statement site).2
        (sightsIn context.function ((home.below node).looks
          ((((cursor.field? "finalizer").bind fun finalizer => finalizer.field? "body").map
            fun body => Task.statement body {}).toList))) := by
  unfold addCleanup
  cases (cursor.field? "finalizer").bind fun finalizer => finalizer.field? "body" with
  | none => exact ⟨opening, .refl facts, .nil⟩
  | some body =>
    obtain ⟨armed, entered⟩ := opening.arm statement .cleanup
    exact ⟨armed, extends_pushArm _ _ _ _, entered.all_stand (.one (alike_statement body))⟩

theorem plays_addGuarded (on : On file chart begun 0 facts context home) {cursor : Cursor}
    (within : (Scheme.guarded file cursor home).yields ⊆ chart) :
    Plays file chart begun context.function (facts.addGuarded file cursor context)
      (.guarded file cursor home) := by
  have inside := within (List.mem_append_left _ (List.mem_singleton_self _))
  have clause := fun (yield : Yield) (there : yield ∈ _) => within (List.mem_append_right _ there)
  have opening := on.openStatement inside (by decide : StatementKind.guarded ≠ .returns)
  unfold addGuarded Scheme.guarded fieldStatement
  cases cursor.field? "body" with
  | none =>
    obtain ⟨handled, grown, placed, handler⟩ := opening.handler clause _
    obtain ⟨done, grown', cleanup⟩ := handled.cleanup cursor _
    have all := (handler.later grown').append cleanup
    rw [← sightsIn_append] at all
    exact done.toOn.finish (List.forall_mem_append.2 ⟨Graph.bears_singleton done.spot,
      fun yield inside => (placed yield inside).kept grown'.graph⟩) all rfl rfl
  | some body =>
    obtain ⟨armed, entered⟩ := opening.arm _ .guardedBody
    obtain ⟨handled, grown, placed, handler⟩ := armed.handler clause _
    obtain ⟨done, grown', cleanup⟩ := handled.cleanup cursor _
    have first := (entered.all_stand (.one (alike_statement body))).later (grown.trans grown')
    have all := (first.append (handler.later grown')).append cleanup
    rw [Context.enter, ← sightsIn_append, ← sightsIn_append] at all
    exact done.toOn.finish (List.forall_mem_append.2 ⟨Graph.bears_singleton done.spot,
      fun yield inside => (placed yield inside).kept grown'.graph⟩) all rfl rfl

theorem plays_addSwitch (on : On file chart begun 0 facts context home) {cursor : Cursor}
    (inside : { cursor, node := statementNode file cursor, home : Yield } ∈ chart) :
    Plays file chart begun context.function (facts.addSwitch file cursor context) (.opens file cursor home
      (fieldExpression cursor "value" {} ++
        (((cursor.field? "body").map Cursor.named).getD []).flatMap Scheme.caseTasks)) := by
  have opening := on.openStatement inside (by decide : StatementKind.switch ≠ .returns)
  let scope := (facts.openStatement file cursor context .switch).facts.pushScope context.scope false
  have inScope : Opening file chart begun 0 scope.1 context home _ _ :=
    opening.pushScope context.scope false
  have tested := inScope.stands_below (facts.openStatement file cursor context .switch).context
    rfl rfl rfl
  have start : AllStand chart scope.1 []
      (sightsIn context.function ((home.below (statementNode file cursor)).looks [])) :=
    List.Forall₂.nil
  obtain ⟨done, test, cases⟩ := Opening.cases { context with scope := scope.2 }
    (((cursor.field? "body").map Cursor.named).getD []) (_, []) inScope tested rfl rfl rfl start
  refine done.plays ?_
  rw [looks_append]
  exact (test.all_stand (alike_fieldExpression cursor "value")).append cases

/-! ## Patterns -/

/-- A variable is declared where the chart has it. -/
theorem On.declare (on : On file chart begun count facts context home) {cursor : Cursor} {word : String}
    (inside : { cursor, node := variableNode file cursor word, home : Yield } ∈ chart) (site : Nat) :
    On file chart begun count (facts.declare file cursor context word site) context home ∧
      (facts.declare file cursor context word site).graph.IdAt
        (facts.place (variableNode file cursor word) context.parent).2
        (variableNode file cursor word).id := by
  have draws : file.Draws (variableNode file cursor word) :=
    (file.draws_nodeOf cursor fun _ => rfl).set _ _
  have placed := on.plant draws nofun (Home.has_of_mem inside)
  exact ⟨((placed.declareVariable _ _ _).declareIn _ context.region).record _,
    handle_place on.charts.formed.wellFormed _ context.parent⟩

/-- A parameter is declared where the chart has it, right below a function. -/
theorem On.declareParam (on : On file chart begun count facts context home) {cursor : Cursor}
    {position : Nat} {rest optional hasDefault : Bool}
    (inside : { cursor, node := paramNode file cursor position rest optional hasDefault,
                home : Yield } ∈ chart)
    (direct : home.container = home.function ∧ home.function.isSome = true) :
    On file chart begun count (facts.declareParam file cursor context position rest optional hasDefault)
        context home ∧
      (facts.declareParam file cursor context position rest optional hasDefault).graph.IdAt
        (facts.place (paramNode file cursor position rest optional hasDefault) context.parent).2
        (paramNode file cursor position rest optional hasDefault).id := by
  obtain ⟨direct, some_⟩ := direct
  obtain ⟨id, known⟩ := Option.isSome_iff_exists.1 some_
  obtain ⟨number, given, -⟩ := rel_some_right on.stands.function known
  let placed := facts.place (paramNode file cursor position rest optional hasDefault) context.parent
  have noted : On file chart begun count (placed.1.noteParam number position placed.2) context home :=
    on.later (on.charts.param cursor context home number position rest optional hasDefault
      on.stands given direct inside)
      ((extends_place _ _ _).trans (extends_modifyFunction _ number fun _ => rfl))
      ((@Keeps.of_eq facts placed.1 rfl).trans
        (placed.1.keeps_noteParam number position placed.2))
  have declared := ((noted.declareVariable context.scope (file.textOf cursor) placed.2).declareIn
    placed.2 context.region).addParam context.region placed.2
  refine ⟨?_, handle_place on.charts.formed.wellFormed _ context.parent⟩
  unfold Facts.declareParam
  rw [given]
  exact declared

theorem plays_bind (on : On file chart begun 0 facts context home) {cursor : Cursor} {mode : BindMode}
    (direct : (Task.bind cursor context mode).Direct home)
    (within : (Scheme.pattern file cursor home mode.plain).yields ⊆ chart) :
    Plays file chart begun context.function (facts.bind file cursor context mode)
      (.pattern file cursor home mode.plain) := by
  unfold Facts.bind Scheme.pattern at *
  by_cases name : PatternForm.ofKind cursor.kind = .name
  · simp only [if_pos name] at within ⊢
    cases mode with
    | declare word site =>
      obtain ⟨declared, spot⟩ := on.declare (within (List.mem_singleton_self _)) site
      exact declared.finish (Graph.bears_singleton spot) .nil rfl rfl
    | assign site => exact (on.record _).stop
    | param position rest optional hasDefault =>
      obtain ⟨declared, spot⟩ := on.declareParam (within (List.mem_singleton_self _)) direct
      exact declared.finish (Graph.bears_singleton spot) .nil rfl rfl
  · simp only [if_neg name] at within ⊢
    exact on.pass (alike_patternTasks cursor direct)

/-! ## Functions -/

/-- There is a region for every fact about a function, and one for the module. -/
theorem Charts.size_regions (charts : Charts file chart facts) :
    facts.regions.size = facts.functions.size + 1 := by
  induction charts with
  | start => rfl
  | @quiet before after _ same ih =>
    have functions : after.functions = before.functions := congrArg View.functions same
    have plans := congrArg (List.length ∘ View.plans) same
    simp only [view, Function.comp_apply, List.length_map, Array.length_toList] at plans
    rw [plans, functions, ih]
  | place node parent home _ _ _ _ _ _ ih => exact ih
  | param cursor context home number position rest optional hasDefault _ _ _ _ _ ih =>
    exact ih.trans (congrArg (· + 1) Array.size_modify.symm)
  | @push facts context home site kind _ _ _ _ ih =>
    rwa [size_pushStatement, functions_pushStatement]
  | @returns facts context home site _ _ _ ih =>
    have pushed : (facts.pushStatement context site .returns).1.regions.size =
        (facts.pushStatement context site .returns).1.functions.size + 1 := by
      rwa [size_pushStatement, functions_pushStatement]
    unfold recordReturn
    split
    · simpa using pushed
    · exact pushed
  | enter node name isMethod _ _ ih => simp [pushFunction, ih]
  | call context home call _ _ _ _ ih => exact ih

/-- A function is entered where the chart has it: the walk gets inside it, and stays where it was. -/
theorem On.enterFunction (on : On file chart begun count facts context home) {cursor : Cursor}
    {hint : Option Hint} {isMethod : Bool} {node : Node}
    (named : node = functionNode file cursor (givenName file cursor hint) isMethod
      (Parameter.ofFunction cursor).length)
    (inside : { cursor, node, home : Yield } ∈ chart) :
    On file chart begun (count + 1) (facts.enterFunction file cursor context hint isMethod).facts
        context home ∧
      On file chart begun (count + 1) (facts.enterFunction file cursor context hint isMethod).facts
        (facts.enterFunction file cursor context hint isMethod).inner (Home.inside node) := by
  have draws : file.Draws node := named ▸ draws_functionNode _ _ _ _ _
  have kind : node.kind = .func := named ▸ kind_functionNode _ _ _ _ _
  have notParam : node.kind ≠ .param := by
    rw [kind]
    decide
  have held := handle_place on.charts.formed.wellFormed node context.parent
  have placed := on.charts.place node context.parent home draws notParam on.stands.parent
    on.stands.rooted (Home.has_of_mem inside)
  have charts : Charts file chart (facts.enterFunction file cursor context hint isMethod).facts := by
    have named' : Charts file chart { (facts.place node context.parent).1 with
        scopes := (facts.enterFunction file cursor context hint isMethod).facts.scopes } :=
      placed.quiet rfl
    have made := named'.enter (facts.place node context.parent).2 (givenName file cursor hint)
      isMethod ⟨_, inside, held, kind⟩
    subst named
    rw [enterFunction_eq]
    exact made
  have grown := extends_enterFunction facts file cursor context hint isMethod
  have spot : (facts.enterFunction file cursor context hint isMethod).facts.graph.IdAt
      (facts.enterFunction file cursor context hint isMethod).node node.id := by
    subst named
    rw [graph_enterFunction]
    exact held
  have pushed := facts.functions_enterFunction file cursor context hint isMethod
  have size : (facts.enterFunction file cursor context hint isMethod).facts.functions.size =
      begun.functions.size + (count + 1) := by
    rw [pushed, Array.size_push, on.size, Nat.add_assoc]
  have noted : facts.Remembers (facts.enterFunction file cursor context hint isMethod).facts := by
    intro number fact found
    refine ⟨fact, ?_, List.Subset.refl _, List.Subset.refl _⟩
    obtain ⟨less, rfl⟩ := Array.getElem?_eq_some_iff.1 found
    rw [pushed, Array.getElem?_push_lt less]
  refine ⟨⟨charts, on.extend.trans grown, size, on.noted.trans noted, on.stands.later grown⟩,
    ⟨charts, on.extend.trans grown, size, on.noted.trans noted, ?_⟩⟩
  rw [inner_enterFunction]
  exact ⟨.some spot, .some ⟨_, facts.signature_enterFunction file cursor context hint isMethod, spot⟩,
    on.charts.size_regions, Home.rooted_inside inside kind⟩

/-- A function is added: the fact about it has the next number, and what is left to do inside it stands for
the looks there. -/
structure Adds (file : SourceFile) (chart : List Yield) (facts : Facts) (added : Added)
    (entry : Entry) : Prop where
  enters : added.facts.Enters file facts.functions.size entry
  stands : AllStand chart added.facts added.tasks
    (sightsIn (some facts.functions.size) (entry.looks file))

/-- The body of a function is a block, which is left to do, or an expression at which the function
returns. -/
theorem On.functionBody {node : Node} (on : On file chart begun count facts context (.inside node))
    {cursor : Cursor} {number : Nat} (given : context.function = some number)
    (known : number < facts.functions.size) (within : Entry.yields file { cursor, node } ⊆ chart)
    {params : List Task} (stand : AllStand chart facts params (sightsIn (some number)
      ((Home.inside node).looks ((Parameter.ofFunction cursor).zipIdx.flatMap fun param =>
        param.1.tasks {} param.2)))) :
    On file chart facts 0 (facts.functionBody file cursor context).1 context (.inside node) ∧
      (∀ yield ∈ Entry.yields file { cursor, node },
        (facts.functionBody file cursor context).1.Notes number yield) ∧
      AllStand chart (facts.functionBody file cursor context).1
        (params ++ (facts.functionBody file cursor context).2)
        (sightsIn (some number) (Entry.looks file { cursor, node })) := by
  revert within
  unfold Facts.functionBody Entry.yields Entry.looks
  cases cursor.field? "body" with
  | none =>
    simp only [List.append_nil]
    exact fun _ => ⟨on.restart, List.forall_mem_nil _, stand⟩
  | some body =>
    by_cases block : body.kind = "statement_block"
    · simp only [if_pos block]
      refine fun _ => ⟨on.restart, List.forall_mem_nil _, ?_⟩
      rw [sightsIn_append, ← given]
      exact (given ▸ stand).append (on.stands.all_stand (alike_statementTasks body))
    · simp only [if_neg block]
      intro within
      have returned := within (List.mem_singleton_self _)
      have placed := on.restart.put (draws_expressionNode body) nofun rfl (Home.has_of_mem returned)
      have pushed := placed.restart.toOn.returns ⟨_, returned, placed.spot, rfl, rfl⟩
      have opening := placed.later pushed
      refine ⟨opening.toOn, ?_, ?_⟩
      · intro yield only
        obtain rfl := List.mem_singleton.1 only
        rw [given]
        refine notes_recordReturn ?_ ?_ nofun
        · rw [functions_pushStatement]
          exact known
        · rw [graph_pushStatement]
          exact placed.spot
      · rw [sightsIn_append, ← given]
        exact ((given ▸ stand).later opening.extend).append
          (opening.stand { Context.atSite _ _ with statement := some _ } rfl rfl rfl
            (.one (alike_expression body none)))

theorem On.addFunction (on : On file chart begun count facts context home) {cursor : Cursor}
    {hint : Option Hint} {isMethod : Bool} {node : Node}
    (named : node = functionNode file cursor (givenName file cursor hint) isMethod
      (Parameter.ofFunction cursor).length)
    (inside : { cursor, node, home : Yield } ∈ chart)
    (within : Entry.yields file { cursor, node } ⊆ chart) :
    On file chart begun (count + 1) (facts.addFunction file cursor context hint isMethod).facts
        context home ∧
      Adds file chart facts (facts.addFunction file cursor context hint isMethod)
        { cursor, node } := by
  obtain ⟨outside, entered⟩ := on.enterFunction named inside
  have number : (facts.enterFunction file cursor context hint isMethod).inner.function =
      some facts.functions.size :=
    congrArg Context.function (inner_enterFunction facts file cursor context hint isMethod)
  obtain ⟨id, same, about⟩ := entered.stands.about number
  obtain rfl := Option.some.inj same
  have params := entered.stands.all_stand (alike_params (Parameter.ofFunction cursor) ⟨rfl, rfl⟩)
  rw [number] at params
  have signed := facts.signature_enterFunction file cursor context hint isMethod
  obtain ⟨signature, listed, spot⟩ := id about
  obtain rfl := Option.some.inj (signed.symm.trans listed)
  obtain ⟨body, notes, stands⟩ := entered.functionBody number about.lt within params
  refine ⟨outside.join body, ⟨⟨_, body.extend.signature listed, spot.kept body.extend.graph, ?_, ?_⟩,
    notes⟩, stands⟩
  · rw [named, name_functionNode]
  · rw [named, isSet_functionNode]

/-- A function plays its scheme. -/
theorem plays_addFunction (on : On file chart begun 0 facts context home) {cursor : Cursor}
    {hint : Option Hint} {isMethod : Bool}
    (within : (Scheme.function file cursor home hint isMethod).puts file ⊆ chart) :
    Plays file chart begun context.function
      ((facts.addFunction file cursor context hint isMethod).facts,
        (facts.addFunction file cursor context hint isMethod).tasks)
      (.function file cursor home hint isMethod) := by
  have inside := within (List.mem_append_left _ (List.mem_singleton_self _))
  obtain ⟨added, adds⟩ := on.addFunction rfl inside fun yield there =>
    within (List.mem_append_right _ (List.mem_flatMap.2 ⟨_, List.mem_singleton_self _, there⟩))
  have size := on.size
  rw [Nat.add_zero] at size
  obtain ⟨signature, -, spot⟩ := adds.enters.about
  refine ⟨added.charts, added.extend, added.size, added.noted, Graph.bears_singleton spot,
    fun place entry found => ?_, ?_⟩
  · obtain ⟨rfl, rfl⟩ : place = 0 ∧ entry = ⟨cursor, _⟩ := by
      cases place with
      | zero => exact ⟨rfl, (Option.some.inj found).symm⟩
      | succ place => cases found
    rw [Nat.add_zero, ← size]
    exact adds.enters
  · have stands := adds.stands
    rw [size] at stands
    have last : ∀ listed : List Sight, listed ++ sightsIn context.function [] = listed :=
      List.append_nil
    rw [Scheme.sights, Scheme.function, last]
    simp only [Entry.sights, List.zipIdx_cons, List.zipIdx_nil,
      List.reverse_singleton, List.flatMap_singleton]
    exact stands

/-! ## Classes -/

theorem sights_concat (file : SourceFile) (entries : List Entry) (entry : Entry) (count : Nat) :
    Entry.sights file (entries ++ [entry]) count =
      sightsIn (some (count + entries.length)) (entry.looks file) ++
        Entry.sights file entries count := by
  simp [Entry.sights, List.zipIdx_append]

/-- A class is being added: what its members have yielded so far is placed, and what is left stands for
looks. -/
structure Gathers (file : SourceFile) (chart : List Yield) (begun : Facts) (context : Context)
    (home : Home) (adding : Adding) (yields : List Yield) (own : List Look) (functions : List Entry) :
    Prop where
  on : On file chart begun functions.length adding.facts context home
  placed : ∀ yield ∈ yields, adding.facts.graph.Bears yield
  own : AllStand chart adding.facts adding.own (sightsIn context.function own)
  entered : ∀ (place : Nat) (entry : Entry), functions[place]? = some entry →
    adding.facts.Enters file (begun.functions.size + place) entry
  methods : AllStand chart adding.facts adding.methods
    (Entry.sights file functions begun.functions.size)

namespace Gathers

variable {adding : Adding} {yields : List Yield} {own : List Look} {functions : List Entry}

theorem method (gathers : Gathers file chart begun context home adding yields own functions)
    {member : Cursor} {hint : Option Hint}
    (within : (Scheme.method file member home hint).puts file ⊆ chart) (number : Nat) :
    Gathers file chart begun context home (adding.method file member context hint number)
      (yields ++ (Scheme.method file member home hint).yields) own
      (functions ++ (Scheme.method file member home hint).functions) := by
  have inside := within (List.mem_append_left _ (List.mem_singleton_self _))
  obtain ⟨added, adds⟩ := gathers.on.restart.addFunction rfl inside fun yield there =>
    within (List.mem_append_right _ (List.mem_flatMap.2 ⟨_, List.mem_singleton_self _, there⟩))
  have noted := added.restart.modifyClass number fun fact =>
    let node := (adding.facts.addFunction file member context hint true).node
    { fact with methods := fact.methods.push node }
  have whole := added.join noted
  have size := gathers.on.size
  have count : (functions ++ (Scheme.method file member home hint).functions).length =
      functions.length + (0 + 1 + 0) := List.length_append
  obtain ⟨signature, -, spot⟩ := (adds.enters.later noted.extend noted.noted).about
  have older := fun (yield : Yield) (inside : yield ∈ yields) =>
    (gathers.placed yield inside).kept whole.extend.graph
  refine ⟨count ▸ gathers.on.join whole,
    List.forall_mem_append.2 ⟨older, Graph.bears_singleton spot⟩,
    gathers.own.later whole.extend, fun place entry found => ?_, ?_⟩
  · rw [Scheme.method, Scheme.function, List.getElem?_append] at found
    split at found
    · exact (gathers.entered place entry found).later whole.extend whole.noted
    · next last =>
      obtain ⟨less, rfl⟩ := List.getElem?_eq_some_iff.1 found
      rw [List.length_singleton] at less
      have here : begun.functions.size + place = adding.facts.functions.size := by omega
      simp only [here, List.getElem_singleton]
      exact adds.enters.later noted.extend noted.noted
  · rw [Scheme.method, Scheme.function, sights_concat, ← size]
    exact (adds.stands.later noted.extend).append (gathers.methods.later whole.extend)

theorem field (gathers : Gathers file chart begun context home adding yields own functions) {name : Cursor}
    (inside : { cursor := name, node := fieldNode file name, home : Yield } ∈ chart)
    (value : Option Cursor) {node : Nat} (parent : context.parent = some node) :
    Gathers file chart begun context home (adding.field file name value context node)
      (yields ++ home.puts name (fieldNode file name))
      (own ++ home.looks (value.map fun cursor => Task.expression cursor {} none).toList)
      functions := by
  have draws : file.Draws (fieldNode file name) :=
    ((file.draws_nodeOf name fun _ => rfl).set _ _).set _ _
  have placed := gathers.on.restart.plant draws nofun (Home.has_of_mem inside)
  rw [parent] at placed
  have recorded := (placed.declareIn (adding.facts.place (fieldNode file name) (some node)).2
    context.region).record
      { kind := .write
        binding := .node (adding.facts.place (fieldNode file name) (some node)).2
        site := node }
  have older := fun (yield : Yield) (inside : yield ∈ yields) =>
    (gathers.placed yield inside).kept recorded.extend.graph
  have spot := handle_place gathers.on.charts.formed.wellFormed (fieldNode file name) (some node)
  refine ⟨gathers.on.join recorded,
    List.forall_mem_append.2 ⟨older, Graph.bears_singleton spot⟩, ?_, fun place entry found =>
    (gathers.entered place entry found).later recorded.extend recorded.noted,
    gathers.methods.later recorded.extend⟩
  rw [sightsIn_append]
  exact (gathers.own.later recorded.extend).append
    (recorded.stands.all_stand (.option _ fun value => alike_expression value none))

theorem member (gathers : Gathers file chart begun context home adding yields own functions)
    {cursor : Cursor} (within : (Scheme.member file cursor home).puts file ⊆ chart) {node : Nat}
    (parent : context.parent = some node) (number : Nat) :
    Gathers file chart begun context home (adding.member file context number node cursor)
      (yields ++ (Scheme.member file cursor home).yields)
      (own ++ (Scheme.member file cursor home).own)
      (functions ++ (Scheme.member file cursor home).functions) := by
  -- A member that is no method enters no function, and one that is reads nothing for the class.
  have nothing : Gathers file chart begun context home adding (yields ++ []) (own ++ [])
      (functions ++ []) := by
    rw [List.append_nil, List.append_nil, List.append_nil]
    exact gathers
  have itself : ∀ {yield : Yield} {rest : List Yield}, [yield] ++ rest ⊆ chart → yield ∈ chart :=
    fun within => within List.mem_cons_self
  revert within
  unfold Adding.member Scheme.member
  by_cases method : cursor.kind = "method_definition" ∨ cursor.kind = "abstract_method_signature"
  · simp only [if_pos method]
    intro within
    have added := gathers.method within number
    rw [← List.append_nil own] at added
    exact added
  · simp only [if_neg method]
    by_cases field : cursor.kind = "public_field_definition" ∨ cursor.kind = "field_definition"
    · simp only [if_pos field]
      cases (cursor.field? "name").orElse fun _ => cursor.field? "property" with
      | none => exact fun _ => nothing
      | some name =>
        cases cursor.field? "value" with
        | none =>
          intro within
          have held := gathers.field (itself within) none parent
          rw [← List.append_nil functions] at held
          exact held
        | some value =>
          by_cases function : isFieldFunction value = true
          · simp only [if_pos function]
            intro within
            have added := gathers.method within number
            rw [← List.append_nil own] at added
            exact added
          · simp only [if_neg function]
            intro within
            have held := gathers.field (itself within) (some value) parent
            rw [← List.append_nil functions] at held
            exact held
    · simp only [if_neg field]
      exact fun _ => nothing

theorem members (cursors : List Cursor)
    (gathers : Gathers file chart begun context home adding yields own functions)
    (within : ∀ cursor ∈ cursors, (Scheme.member file cursor home).puts file ⊆ chart) {node : Nat}
    (parent : context.parent = some node) (number : Nat) :
    Gathers file chart begun context home
      (cursors.foldl (Adding.member file context number node) adding)
      (yields ++ (cursors.map fun cursor => Scheme.member file cursor home).flatMap
        Scheme.Member.yields)
      (own ++ (cursors.map fun cursor => Scheme.member file cursor home).flatMap Scheme.Member.own)
      (functions ++ (cursors.map fun cursor => Scheme.member file cursor home).flatMap
        Scheme.Member.functions) := by
  induction cursors generalizing adding yields own functions with
  | nil =>
    rw [List.map_nil, List.flatMap_nil, List.flatMap_nil, List.flatMap_nil, List.append_nil,
      List.append_nil, List.append_nil]
    exact gathers
  | cons cursor rest ih =>
    have next := gathers.member (within cursor List.mem_cons_self) parent number
    have done := ih next fun other there => within other (List.mem_cons_of_mem _ there)
    rw [List.map_cons, List.flatMap_cons, List.flatMap_cons, List.flatMap_cons,
      ← List.append_assoc, ← List.append_assoc, ← List.append_assoc]
    exact done

/-- What holds between a class and the same with a method or a field more, holds between it and the same with
all its members, if it goes on from one to the next. -/
theorem relate_members (Relates : Adding → Adding → List Yield → List Entry → Prop)
    {node number : Nat}
    (refl : ∀ adding, Relates adding adding [] [])
    (trans : ∀ {first second third : Adding} {yields others : List Yield} {functions more : List Entry},
      Relates first second yields functions → Relates second third others more →
        Relates first third (yields ++ others) (functions ++ more))
    (method : ∀ {adding : Adding} {yields : List Yield} {own : List Look} {functions : List Entry},
      Gathers file chart begun context home adding yields own functions →
        ∀ (cursor : Cursor) (hint : Option Hint),
          Relates adding (adding.method file cursor context hint number)
            (Scheme.method file cursor home hint).yields
            (Scheme.method file cursor home hint).functions)
    (field : ∀ {adding : Adding} {yields : List Yield} {own : List Look} {functions : List Entry},
      Gathers file chart begun context home adding yields own functions →
        ∀ (name : Cursor) (value : Option Cursor),
          Relates adding (adding.field file name value context node)
            (home.puts name (fieldNode file name)) [])
    (cursors : List Cursor)
    (gathers : Gathers file chart begun context home adding yields own functions)
    (within : ∀ cursor ∈ cursors, (Scheme.member file cursor home).puts file ⊆ chart)
    (parent : context.parent = some node) :
    Relates adding (cursors.foldl (Adding.member file context number node) adding)
      ((cursors.map fun cursor => Scheme.member file cursor home).flatMap Scheme.Member.yields)
      ((cursors.map fun cursor => Scheme.member file cursor home).flatMap
        Scheme.Member.functions) := by
  have member : ∀ {adding : Adding} {yields : List Yield} {own : List Look} {functions : List Entry},
      Gathers file chart begun context home adding yields own functions → ∀ cursor : Cursor,
        Relates adding (adding.member file context number node cursor)
          (Scheme.member file cursor home).yields (Scheme.member file cursor home).functions := by
    intro adding yields own functions gathers cursor
    unfold Adding.member Scheme.member
    by_cases isMethod : cursor.kind = "method_definition" ∨ cursor.kind = "abstract_method_signature"
    · simp only [if_pos isMethod]
      exact method gathers _ _
    · simp only [if_neg isMethod]
      by_cases isField : cursor.kind = "public_field_definition" ∨ cursor.kind = "field_definition"
      · simp only [if_pos isField]
        cases (cursor.field? "name").orElse fun _ => cursor.field? "property" with
        | none => exact refl adding
        | some name =>
          cases cursor.field? "value" with
          | none => exact field gathers _ _
          | some value =>
            by_cases function : isFieldFunction value = true
            · simp only [if_pos function]
              exact method gathers _ _
            · simp only [if_neg function]
              exact field gathers _ _
      · simp only [if_neg isField]
        exact refl adding
  induction cursors generalizing adding yields own functions with
  | nil => exact refl adding
  | cons cursor rest ih =>
    have next := gathers.member (within cursor List.mem_cons_self) parent number
    rw [List.map_cons, List.flatMap_cons, List.flatMap_cons]
    exact trans (member gathers cursor)
      (ih next fun other there => within other (List.mem_cons_of_mem _ there))

end Gathers

/-- The members of a class yield what the class yields. -/
theorem subset_of_members {cursor : Cursor} {hint : Option Hint}
    (plain : cursor.kind ≠ "enum_declaration")
    (within : (Scheme.classLike file cursor home hint).puts file ⊆ chart) :
    ∀ entry ∈ ((cursor.field? "body").map Cursor.named).getD [],
      (Scheme.member file entry (home.below (classNode file cursor (givenName file cursor hint)))).puts
        file ⊆ chart := by
  unfold Scheme.classLike at within
  simp only [if_neg plain] at within
  intro entry there yield inside
  have listed := List.mem_map_of_mem (f := fun entry => Scheme.member file entry
    (home.below (classNode file cursor (givenName file cursor hint)))) there
  refine within ?_
  rcases List.mem_append.1 inside with own | returned
  · exact List.mem_append_left _ (List.mem_append_right _ (List.mem_flatMap.2 ⟨_, listed, own⟩))
  · obtain ⟨function, held, here⟩ := List.mem_flatMap.1 returned
    exact List.mem_append_right _ (List.mem_flatMap.2
      ⟨function, List.mem_flatMap.2 ⟨_, listed, held⟩, here⟩)

/-- The node of a class is placed where the chart has it, and the class gets a fact. -/
theorem On.openClass (on : On file chart begun count facts context home) {cursor : Cursor}
    {hint : Option Hint} (within : (Scheme.classLike file cursor home hint).puts file ⊆ chart) :
    Opening file chart begun count
      { (facts.place (classNode file cursor (givenName file cursor hint)) context.parent).1 with
        classes := facts.classes.push { name := givenName file cursor hint } }
      context home (classNode file cursor (givenName file cursor hint))
      (facts.place (classNode file cursor (givenName file cursor hint)) context.parent).2 := by
  let node := classNode file cursor (givenName file cursor hint)
  have kind : node.kind = .cls := kind_classNode _ _ _
  have has : { cursor, node, home : Yield } ∈ chart := by
    refine within (List.mem_append_left _ ?_)
    unfold Scheme.classLike
    simp only
    split
    · exact List.mem_singleton_self _
    · exact List.mem_append_left _ (List.mem_singleton_self _)
  have placed := on.put (draws_classNode file cursor (givenName file cursor hint))
    (show node.kind ≠ .func by rw [kind]; decide) (show node.kind.isBinding = false by rw [kind]; rfl)
    (Home.has_of_mem has)
  exact placed.later (placed.toOn.restart.pushClass { name := givenName file cursor hint })

/-- No member of a class has been looked at yet. -/
theorem Opening.gathers {node : Node} {site : Nat}
    (opening : Opening file chart begun 0 facts context home node site) {yields : List Yield}
    (placed : ∀ yield ∈ yields, facts.graph.Bears yield) :
    Gathers file chart begun (context.atSite site) (home.below node) { facts } yields [] [] :=
  ⟨opening.below _ rfl rfl rfl, placed, .nil, nofun, .nil⟩

/-- A class plays its scheme. -/
theorem plays_addClass (on : On file chart begun 0 facts context home) {cursor : Cursor}
    {hint : Option Hint} (within : (Scheme.classLike file cursor home hint).puts file ⊆ chart) :
    Plays file chart begun context.function (facts.addClass file cursor context hint)
      (.classLike file cursor home hint) := by
  have opening := on.openClass within
  have members := fun plain : cursor.kind ≠ "enum_declaration" => subset_of_members plain within
  unfold addClass Scheme.classLike
  by_cases enumeration : cursor.kind = "enum_declaration"
  · simp only [if_pos enumeration]
    exact opening.toOn.finish (Graph.bears_singleton opening.spot) .nil rfl rfl
  · simp only [if_neg enumeration]
    let node := classNode file cursor (givenName file cursor hint)
    have start := opening.gathers
      (show ∀ yield ∈ home.puts cursor node, _ from Graph.bears_singleton opening.spot)
    have done := start.members _ (members enumeration) rfl
      (facts.place node context.parent).1.classes.size
    refine ⟨done.on.charts, done.on.extend, done.on.size, done.on.noted, done.placed, done.entered, ?_⟩
    have base := done.on.stands.all_stand (.option (extended? cursor) fun base =>
      alike_expression base none)
    have all := (base.append done.own).append done.methods
    rw [← sightsIn_append] at all
    have last : ∀ listed : List Sight, listed ++ sightsIn context.function [] = listed :=
      List.append_nil
    rw [Scheme.sights, last]
    exact all

/-! ## Other expressions -/

theorem kind_callNode (cursor : Cursor) (written : CallSyntax) :
    (callNode file cursor written).kind = .call := by
  obtain ⟨name, -, kind, -⟩ := sameNode_callNode file cursor written
  exact kind

/-- A call plays its scheme. -/
theorem plays_addCall (on : On file chart begun 0 facts context home) {cursor : Cursor}
    (within : (Scheme.call file cursor home).yields ⊆ chart) :
    Plays file chart begun context.function (facts.addCall file cursor context)
      (.call file cursor home) := by
  let node := callNode file cursor (callSyntax file cursor)
  have inside : { cursor, node, home : Yield } ∈ chart := within (List.mem_singleton_self _)
  have kind : node.kind = .call := kind_callNode cursor _
  have placed := on.put (draws_callNode file cursor (callSyntax file cursor))
    (by rw [kind]; decide) (by rw [kind]; rfl) (Home.has_of_mem inside)
  have called : Charts file chart (facts.addCall file cursor context).1 :=
    placed.charts.call context home _ placed.stands rfl ⟨_, inside, placed.spot, rfl⟩
  have opening := placed.later (placed.toOn.restart.later called (extends_pushCall _ _) (.of_eq rfl))
  exact opening.toOn.finish (Graph.bears_singleton opening.spot)
    (opening.stand (context.atSite _) rfl rfl rfl
      (.append (.option _ fun target => alike_expression target none)
        (.map _ fun argument => alike_expression argument none))) rfl rfl

/-- The expression of an assignment or an update is placed where the chart has it, or is there. -/
theorem On.openExpression (on : On file chart begun 0 facts context home) {cursor : Cursor}
    (within : Scheme.defines file cursor home ⊆ chart) :
    Opening file chart begun 0 (facts.openExpression file cursor context).1 context home
        (expressionNode file cursor) (facts.openExpression file cursor context).2 ∧
      ∀ yield ∈ Scheme.defines file cursor home,
        (facts.openExpression file cursor context).1.graph.Bears yield := by
  have has : home.Has chart (expressionNode file cursor) := by
    unfold Scheme.defines at within
    split at within
    · next itself => exact .inr itself
    · exact Home.has_of_mem (within (List.mem_singleton_self _))
  have opening := on.put (draws_expressionNode cursor) nofun rfl has
  refine ⟨opening, ?_⟩
  unfold Scheme.defines
  split
  · exact List.forall_mem_nil _
  · exact Graph.bears_singleton opening.spot

/-- An assignment plays its scheme. -/
theorem plays_addAssignment (on : On file chart begun 0 facts context home) {cursor : Cursor}
    {augmented : Bool} (within : (Scheme.assignment file cursor home augmented).yields ⊆ chart) :
    Plays file chart begun context.function (facts.addAssignment file cursor context augmented)
      (.assignment file cursor home augmented) := by
  have alike : ∀ (context : Context) (site : Nat) (home : Home) (left : Cursor),
      Task.Alike context home (.bind left context (.assign site)) (.bind left {} (.assign 0)) :=
    fun _ _ _ left => alike_bind left rfl trivial
  revert within
  unfold addAssignment Scheme.assignment
  cases cursor.field? "left" with
  | none => exact fun _ => on.pass (alike_descend cursor)
  | some left =>
    cases cursor.field? "right" with
    | none => exact fun _ => on.pass (alike_descend cursor)
    | some right =>
      intro within
      obtain ⟨opening, placed⟩ := on.openExpression within
      let inner := context.atSite (facts.openExpression file cursor context).2
      have stand : ∀ {tasks plain : List Task},
          AllAlike inner (home.below (expressionNode file cursor)) tasks plain →
            AllStand chart (facts.openExpression file cursor context).1 tasks
              (sightsIn context.function
                ((home.below (expressionNode file cursor)).looks plain)) :=
        fun alike => opening.stand inner rfl rfl rfl alike
      cases augmented with
      | true =>
        exact opening.toOn.leave placed rfl ((stand (.append (.one (alike_expression left none))
          (.one (alike_expression right none)))).append (stand (.one (alike _ _ _ left))))
      | false =>
        exact opening.toOn.finish placed (stand (.append (.one (alike_expression right _))
          (.one (alike _ _ _ left)))) rfl rfl

/-- An update plays its scheme. -/
theorem plays_addUpdate (on : On file chart begun 0 facts context home) {cursor : Cursor}
    (within : (Scheme.update file cursor home).yields ⊆ chart) :
    Plays file chart begun context.function (facts.addUpdate file cursor context)
      (.update file cursor home) := by
  revert within
  unfold addUpdate Scheme.update
  cases cursor.field? "argument" with
  | none => exact fun _ => on.pass (alike_descend cursor)
  | some argument =>
    intro within
    obtain ⟨opening, placed⟩ := on.openExpression within
    let inner := context.atSite (facts.openExpression file cursor context).2
    have read := opening.stand inner rfl rfl rfl (.one (alike_expression argument none))
    have written := opening.stand inner rfl rfl rfl
      (.one (alike_bind argument (rfl : (BindMode.assign
        (facts.openExpression file cursor context).2).plain = (BindMode.assign 0).plain) trivial))
    exact opening.toOn.leave placed rfl (read.append written)

/-- An expression plays its scheme. -/
theorem plays_expression (on : On file chart begun 0 facts context home) {cursor : Cursor}
    {hint : Option Hint} (within : (Scheme.expression file cursor home hint).puts file ⊆ chart) :
    Plays file chart begun context.function (facts.expression file cursor context hint)
      (.expression file cursor home hint) := by
  revert within
  unfold Facts.expression Scheme.expression
  cases ExpressionForm.ofKind cursor.kind with
  | reference =>
    intro _
    simp only [addReference]
    cases context.site with
    | none => exact on.stop
    | some site => exact (on.record _).stop
  | function => exact fun within => plays_addFunction on within
  | method => exact fun within => plays_addFunction on within
  | classLike => exact fun within => plays_addClass on within
  | call => exact fun within => plays_addCall on (Scheme.subset_of_puts within)
  | assignment => exact fun within => plays_addAssignment on (Scheme.subset_of_puts within)
  | augmented => exact fun within => plays_addAssignment on (Scheme.subset_of_puts within)
  | update => exact fun within => plays_addUpdate on (Scheme.subset_of_puts within)
  | pair => exact fun _ => on.pass (alike_pairTasks file cursor)
  | type => exact fun _ => on.stop
  | compound => exact fun _ => on.pass (alike_descend cursor)

/-! ## Steps -/

theorem plays_addExpressionStatement (on : On file chart begun 0 facts context home) {cursor : Cursor}
    (within : (Scheme.single file cursor home).yields ⊆ chart) :
    Plays file chart begun context.function (facts.addExpressionStatement file cursor context)
      (.single file cursor home) := by
  revert within
  unfold addExpressionStatement Scheme.single
  cases cursor.firstNamed? with
  | none => exact fun _ => on.stop
  | some inner =>
    by_cases module_ : inner.kind = "internal_module" ∨ inner.kind = "module"
    · simp only [if_pos module_]
      exact fun _ => on.pass (alike_fieldStatement inner "body")
    · simp only [if_neg module_]
      exact fun within => plays_single on (within (List.mem_singleton_self _)) inner

theorem plays_addExport (on : On file chart begun 0 facts context home) {cursor : Cursor}
    (within : (Scheme.exported file cursor home).yields ⊆ chart) :
    Plays file chart begun context.function (facts.addExport file cursor context)
      (.exported file cursor home) := by
  revert within
  unfold addExport Scheme.exported
  cases cursor.field? "declaration" with
  | some declaration => exact fun _ => on.pass (.one (alike_statement declaration))
  | none =>
    cases cursor.field? "value" with
    | some value => exact fun within => plays_single on (within (List.mem_singleton_self _)) value
    | none => exact fun _ => on.stop

/-- A statement plays its scheme. -/
theorem plays_statement (on : On file chart begun 0 facts context home) {cursor : Cursor}
    (within : (Scheme.statement file cursor home).puts file ⊆ chart) :
    Plays file chart begun context.function (facts.statement file cursor context)
      (.statement file cursor home) := by
  have itself : ∀ {yield : Yield} {rest : List Yield}, [yield] ++ rest ⊆ chart → yield ∈ chart :=
    fun within => within List.mem_cons_self
  revert within
  unfold Facts.statement Scheme.statement
  cases StatementForm.ofKind cursor.kind with
  | block =>
    intro _
    let inner := { context with scope := (facts.pushScope context.scope false).2 }
    exact ((on.pushScope context.scope false).go inner rfl rfl rfl).pass
      (alike_statementTasks cursor)
  | declaration => exact fun within => plays_addDeclaration on (itself within)
  | expression => exact fun within => plays_addExpressionStatement on (Scheme.subset_of_puts within)
  | returns => exact fun within => plays_addReturn on (itself within)
  | throws => exact fun within => plays_addThrow on (itself within)
  | conditional => exact fun within => plays_addConditional on (itself within)
  | forLoop =>
    intro _
    let inner := { context with scope := (facts.pushScope context.scope false).2 }
    exact ((on.pushScope context.scope false).go inner rfl rfl rfl).pass
      (.append (.option _ alike_statement) (.one ⟨rfl, rfl, trivial⟩))
  | forEach => exact fun within => plays_addForEach on (itself within)
  | loop => exact fun within => plays_addLoop on (itself within)
  | switch => exact fun within => plays_addSwitch on (itself within)
  | guarded => exact fun within => plays_addGuarded on (Scheme.subset_of_puts within)
  | breaks => exact fun within => plays_bare on (itself within) (by decide)
  | continues => exact fun within => plays_bare on (itself within) (by decide)
  | labelled => exact fun _ => on.pass (alike_fieldStatement cursor "body")
  | exported => exact fun within => plays_addExport on (Scheme.subset_of_puts within)
  | function => exact fun within => plays_addFunction on within
  | classLike => exact fun within => plays_addClass on within
  | module => exact fun _ => on.pass (alike_fieldStatement cursor "body")
  | faulty => exact fun _ => on.pass (alike_statementTasks cursor)
  | inert => exact fun _ => on.stop
  | plain => exact fun within => plays_single on (itself within) cursor

/-- One step of the walk plays the scheme of a look that the task stands for. -/
theorem plays_step (charts : Charts file chart facts) {task : Task} {sight : Sight}
    (stands : task.Stands chart facts sight)
    (within : (sight.look.scheme file).puts file ⊆ chart) :
    Plays file chart facts sight.function (facts.step file task) (sight.look.scheme file) := by
  have on : On file chart facts 0 facts task.context sight.look.home :=
    ⟨charts, .refl facts, rfl, .refl facts, stands.context⟩
  have direct := stands.direct
  have same := stands.same
  rw [← stands.function]
  cases task with
  | statement cursor context =>
    rw [← same] at within ⊢
    exact plays_statement on within
  | loopHeader cursor context =>
    rw [← same] at within ⊢
    exact plays_addLoopHeader on (within List.mem_cons_self)
  | bind cursor context mode =>
    rw [← same] at within ⊢
    exact plays_bind on direct (Scheme.subset_of_puts within)
  | expression cursor context hint =>
    rw [← same] at within ⊢
    exact plays_expression on within

/-! ## Runs -/

/-- The walk stays within the yields of its file, and what is left to do stands for looks that yield
nothing else. -/
structure Charted (file : SourceFile) (facts : Facts) (pending : List Task) (ahead : List Sight) :
    Prop where
  charts : Charts file file.yields facts
  stands : AllStand file.yields facts pending ahead
  within : ∀ sight ∈ ahead, sight.look.yields file ⊆ file.yields

/-- The context in which the walk begins is at the home outside of all nodes. -/
theorem at_start (chart : List Yield) : Context.At chart {} {} {} :=
  ⟨.none, .none, rfl, fun _ => rfl, nofun⟩

theorem charted_start (file : SourceFile) :
    Charted file {} (statementTasks { tree := file.tree } {}) (sightsIn none file.looks) := by
  refine ⟨.start, (at_start _).all_stand (alike_statementTasks _), fun sight inside => ?_⟩
  obtain ⟨look, begun, rfl⟩ := List.mem_map.1 inside
  exact fun yield there => SourceFile.mem_yields.2 ⟨look, begun, there⟩

namespace Charted

/-- In the end nothing is ahead. -/
theorem done {ahead : List Sight} (charted : Charted file facts [] ahead) : ahead = [] := by
  cases charted.stands
  rfl

section Head

variable {task : Task} {rest : List Task} {sight : Sight} {ahead : List Sight}
  (charted : Charted file facts (task :: rest) (sight :: ahead))

include charted

/-- The task that comes next stands for the look that comes next. -/
theorem head : task.Stands file.yields facts sight := by
  obtain _ | ⟨first, -⟩ := charted.stands
  exact first

/-- The file yields what the scheme of that look puts. -/
theorem puts_subset : (sight.look.scheme file).puts file ⊆ file.yields := fun _ there =>
  charted.within sight List.mem_cons_self (Look.mem_yields.2 (.inl there))

/-- The walk is in the context of the task, at the home of that look. -/
theorem on : On file file.yields facts 0 facts task.context sight.look.home :=
  ⟨charted.charts, .refl facts, rfl, .refl facts, charted.head.context⟩

/-- A task is done as the look says that it stands for. -/
theorem plays :
    Plays file file.yields facts sight.function (facts.step file task) (sight.look.scheme file) :=
  plays_step charted.charts charted.head charted.puts_subset

theorem step : Charted file (facts.step file task).1 ((facts.step file task).2 ++ rest)
    ((sight.look.scheme file).sights file sight.function facts.functions.size ++ ahead) := by
  have plays := charted.plays
  obtain _ | ⟨-, more⟩ := charted.stands
  refine ⟨plays.charts, plays.stands.append (AllStand.later more plays.extend),
    fun next inside => ?_⟩
  rcases List.mem_append.1 inside with here | there
  · exact fun yield held => charted.within sight List.mem_cons_self
      (Look.mem_yields.2 (.inr ⟨_, look_of_mem_sights here, held⟩))
  · exact charted.within next (List.mem_cons_of_mem _ there)

end Head

end Charted

/-- What holds as the walk begins, and is kept by each step when a look stands for its task, holds all
along. -/
theorem Visits.follow {P : Facts → List Task → List Sight → Prop}
    (start : P {} (statementTasks { tree := file.tree } {}) (sightsIn none file.looks))
    (step : ∀ {facts : Facts} {task : Task} {rest : List Task} {sight : Sight} {ahead : List Sight},
      Visits file facts (task :: rest) → Charted file facts (task :: rest) (sight :: ahead) →
      P facts (task :: rest) (sight :: ahead) →
        P (facts.step file task).1 ((facts.step file task).2 ++ rest)
          ((sight.look.scheme file).sights file sight.function facts.functions.size ++ ahead))
    {pending : List Task} (visits : Visits file facts pending) :
    ∃ ahead, Charted file facts pending ahead ∧ P facts pending ahead := by
  induction visits with
  | start => exact ⟨_, charted_start file, start⟩
  | @step facts task rest visits ih =>
    obtain ⟨ahead, charted, held⟩ := ih
    cases ahead with
    | nil => cases charted.stands
    | cons sight ahead => exact ⟨_, charted.step, step visits charted held⟩

theorem Visits.charted {pending : List Task} (visits : Visits file facts pending) :
    ∃ ahead, Charted file facts pending ahead := by
  obtain ⟨ahead, charted, -⟩ := visits.follow (P := fun _ _ _ => True) trivial fun _ _ _ => trivial
  exact ⟨ahead, charted⟩

/-- Names are looked up after the walk, which does not concern the chart. -/
theorem view_resolveNames (facts : Facts) : facts.resolveNames.view = facts.view := by
  simp only [view, resolveNames, Array.toList_map, List.map_map]
  rfl

theorem charts_of (file : SourceFile) : Charts file file.yields (Facts.of file) := by
  obtain ⟨ahead, charted⟩ := (Visits.last file).charted
  exact charted.charts.quiet (view_resolveNames _)

end Facts

end CodeGraph

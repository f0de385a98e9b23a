import CodeGraph.Checked.Walk
import CodeGraph.Proofs.Checked.Table
import CodeGraph.Proofs.Facts.Run

/-!
# The walk finds every number

Every step of the walk gives what it gives without looking its numbers up: each of them has an entry by
the time it is used (`Checked.step_eq`). What a task names is there when the task is left, and nothing is
taken away while it waits (`Facts.Visits.sound`); what a step uses besides is what it has just added. So
the walk over any tree ends, and it comes by no number without an entry (`Checked.halts_walk`).
-/

namespace CodeGraph

namespace Checked

variable {file : SourceFile} {base begun facts : Facts} {outer context : Context} {adds : Bool}

/-! ## Operations -/

section Operations

theorem place_eq (formed : facts.graph.WellFormed) (node : Node) {parent : Option Nat}
    (there : ∀ handle, parent = some handle → handle < facts.graph.nodes.size) :
    place facts node parent = .ok (facts.place node parent) := by
  unfold place Facts.place
  cases parent with
  | none => rfl
  | some container =>
    obtain ⟨held, found, -⟩ := formed.handle_addNode node
    have joins : (facts.graph.addNode node).1.Joins
        { source := container, target := (facts.graph.addNode node).2, kind := .child } :=
      ⟨Nat.lt_of_lt_of_le (there container rfl) (Graph.WellFormed.kept_addNode _ node).size_le,
        (Array.getElem?_eq_some_iff.1 found).1⟩
    dsimp only
    split
    · rfl
    · exact bind_eq (connect_eq joins) rfl

theorem record_eq (known : context.Known facts) {access : Access}
    (there : ∀ text scope, access.binding = .name text scope → scope < facts.scopes.list.size) :
    record facts context access = .ok (facts.record context access) := by
  obtain ⟨region, found⟩ := Facts.region_of_block known.block
  have statement : ∀ number, context.statement = some number →
      number < region.skeleton.statements.size := by
    rw [← Facts.statementsIn_of_found found]
    exact known.statement
  refine bind_eq (entry_eq .regions found) (bind_eq (require?_eq .statements statement) ?_)
  cases named : access.binding with
  | node handle => rfl
  | name text scope => exact bind_eq (require_eq .scopes (there text scope named)) rfl

/-- A name is not recorded for a scope that is not there. -/
example : record {} { scope := 3 } ⟨.read, .name "x" 3, 0⟩ = .error ⟨.scopes, 3⟩ := rfl

/-- A name is read or written in the scope where the walk is. -/
theorem mention_eq (known : context.Known facts) (kind : AccessKind) (name : String) (site : Nat) :
    record facts context { kind, binding := .name name context.scope, site } =
      .ok (facts.record context { kind, binding := .name name context.scope, site }) := by
  refine record_eq known fun text scope given => ?_
  cases given
  exact known.scope

theorem pushScope_eq {parent : Nat} (there : parent < facts.scopes.list.size) (hoists : Bool) :
    pushScope facts parent hoists = .ok (facts.pushScope parent hoists) :=
  bind_eq (require_eq .scopes there) rfl

theorem pushStatement_eq (known : context.Known facts) (site : Nat) (kind : StatementKind) :
    pushStatement facts context site kind = .ok (facts.pushStatement context site kind) := by
  obtain ⟨region, found⟩ := Facts.region_of_block known.block
  have block := known.block
  rw [Facts.blocksIn_of_found found] at block
  exact bind_eq (entry_eq .regions found) (bind_eq (require_eq .blocks block) rfl)

/-- No statement is added to a block that is not there. -/
example : pushStatement {} { block := 4 } 0 .simple = .error ⟨.blocks, 4⟩ := rfl

theorem pushArm_eq (known : context.Known facts) {statement : Nat}
    (there : statement < facts.statementsIn context.region) (role : Role) :
    pushArm facts context statement role = .ok (facts.pushArm context statement role) := by
  obtain ⟨region, found⟩ := Facts.region_of_block known.block
  rw [Facts.statementsIn_of_found found] at there
  exact bind_eq (entry_eq .regions found) (bind_eq (require_eq .statements there) rfl)

theorem recordReturn_eq (known : context.Known facts) (site : Nat) :
    recordReturn facts context.function site = .ok (facts.recordReturn context.function site) :=
  bind_eq (require?_eq .functions fun _ => known.function_lt) rfl

theorem openExpression_eq (inside : Facts.Inside file base outer adds begun facts context)
    (cursor : Cursor) : openExpression facts file cursor context =
      .ok (facts.openExpression file cursor context) :=
  place_eq inside.sound.formed _ inside.known.parent

theorem openStatement_eq (inside : Facts.Inside file base outer adds begun facts context)
    (cursor : Cursor) (kind : StatementKind) : openStatement facts file cursor context kind =
      .ok (facts.openStatement file cursor context kind) :=
  bind_eq (place_eq inside.sound.formed _ inside.known.parent)
    (bind_eq (pushStatement_eq (inside.known.later (Facts.extends_place _ _ _)) _ kind) rfl)

end Operations

/-! ## Patterns -/

theorem scopeFor_eq {scopes : Scopes} {id : Nat} (there : id < scopes.list.size) (kind : String) :
    scopeFor scopes kind id = .ok (if kind = "var" then scopes.hoistTarget id else id) ∧
      (if kind = "var" then scopes.hoistTarget id else id) < scopes.list.size := by
  unfold scopeFor
  split
  · exact ⟨hoistTarget_eq there, Scopes.hoistTarget_lt there⟩
  · exact ⟨rfl, there⟩

theorem declare_eq (inside : Facts.Inside file base outer adds begun facts context) (cursor : Cursor)
    (kind : String) (site : Nat) : declare facts file cursor context kind site =
      .ok (facts.declare file cursor context kind site) := by
  have draws : file.Draws ((file.nodeOf cursor .var (some (file.textOf cursor))).set
      "declarationKind" (.text kind)) :=
    (file.draws_nodeOf cursor fun _ => rfl).set _ _
  obtain ⟨placed, handle⟩ := inside.place .var draws rfl (by decide) inside.known.parent
  have binding := handle.mono (by decide : ∀ kind ∈ [NodeKind.var], kind ∈ NodeKind.bindings)
  obtain ⟨chosen, scope⟩ := scopeFor_eq placed.known.scope kind
  have declared := (placed.declareVariable scope (file.textOf cursor) binding).declareIn binding
  exact bind_eq (place_eq inside.sound.formed _ inside.known.parent)
    (bind_eq chosen (bind_eq (declareVariable_eq scope _ _)
      (bind_eq (require_eq .regions placed.known.region_lt)
        (record_eq declared.known fun _ _ given => Binding.noConfusion given))))

theorem declareParam_eq (inside : Facts.Inside file base outer adds begun facts context)
    (cursor : Cursor) (position : Nat) (rest optional hasDefault : Bool) :
    declareParam facts file cursor context position rest optional hasDefault =
      .ok (facts.declareParam file cursor context position rest optional hasDefault) := by
  have known := inside.known.later (Facts.extends_place facts ((((file.nodeOf cursor .param
    (some (file.textOf cursor))).set "index" (.ofNat position)).set "isRest" (.flag rest)).set
    "isOptional" (.flag optional) |>.set "hasDefault" (.flag hasDefault)) context.parent)
  exact bind_eq (place_eq inside.sound.formed _ inside.known.parent)
    (bind_eq (declareVariable_eq known.scope _ _)
      (bind_eq (require_eq .regions known.region_lt)
        (bind_eq (require?_eq .functions fun _ => known.function_lt) rfl)))

theorem bindPattern_eq (inside : Facts.Inside file base outer adds begun facts context)
    (cursor : Cursor) (mode : BindMode) :
    bind facts file cursor context mode = .ok (facts.bind file cursor context mode) := by
  unfold bind Facts.bind
  split
  · refine bind_eq ?_ rfl
    cases mode with
    | declare kind site => exact declare_eq inside cursor kind site
    | assign site => exact mention_eq inside.known .write (file.textOf cursor) site
    | param position rest optional hasDefault =>
      exact declareParam_eq inside cursor position rest optional hasDefault
  · rfl

/-! ## Functions and classes -/

theorem declareFunctionName_eq {around within : Nat} (there : around < facts.scopes.list.size)
    (there' : within < facts.scopes.list.size) (cursor : Cursor) (ownName : Option String)
    (hint : Option Hint) (isMethod : Bool) (node : Nat) :
    declareFunctionName facts cursor around within ownName hint isMethod node =
      .ok (facts.declareFunction cursor around within ownName hint isMethod node) := by
  unfold declareFunctionName Facts.declareFunction
  cases ownName with
  | some name =>
    dsimp only
    split
    · exact bind_eq (declareFunction_eq there _ _) rfl
    · split
      · rfl
      · exact bind_eq (declareFunction_eq there' _ _) rfl
  | none =>
    cases hint with
    | none => rfl
    | some hint =>
      dsimp only
      split
      · exact bind_eq (declareFunction_eq there _ _) rfl
      · rfl

theorem functionBody_eq (inside : Facts.Inside file base outer adds begun facts context)
    (cursor : Cursor) : functionBody facts file cursor context =
      .ok (facts.functionBody file cursor context) := by
  unfold functionBody Facts.functionBody
  cases cursor.field? "body" with
  | none => rfl
  | some body =>
    dsimp only
    split
    · rfl
    · have placed := (inside.openExpression body).1.known
      have pushed := placed.later (Facts.extends_pushStatement _ context
        (facts.openExpression file body context).2 .returns)
      exact bind_eq (openExpression_eq inside body)
        (bind_eq (pushStatement_eq placed _ .returns) (bind_eq (recordReturn_eq pushed _) rfl))

theorem enterFunction_eq (inside : Facts.Inside file base outer adds begun facts context)
    (cursor : Cursor) (hint : Option Hint) (isMethod : Bool) :
    enterFunction facts file cursor context hint isMethod =
      .ok (facts.enterFunction file cursor context hint isMethod) := by
  have placed := inside.known.later (Facts.extends_place facts (Facts.functionNode file cursor
    (Facts.givenName file cursor hint) isMethod (Parameter.ofFunction cursor).length) context.parent)
  have size : ∀ scopes : Scopes, (scopes.push context.scope true).1.list.size =
      scopes.list.size + 1 := fun scopes => Array.size_push _
  exact bind_eq (place_eq inside.sound.formed _ inside.known.parent)
    (bind_eq (pushScope_eq placed.scope true)
      (bind_eq (declareFunctionName_eq
        (Nat.lt_of_lt_of_le placed.scope (Facts.extends_pushScope _ context.scope true).scopes)
        (Nat.lt_of_lt_of_eq (Nat.lt_succ_self _) (size _).symm) cursor _ hint isMethod _) rfl))

theorem addFunction_eq (inside : Facts.Inside file base outer adds begun facts context)
    (cursor : Cursor) (hint : Option Hint) {isMethod : Bool}
    (plain : isMethod = true → StatementForm.ofKind cursor.kind ≠ .function) :
    addFunction facts file cursor context hint isMethod =
      .ok (facts.addFunction file cursor context hint isMethod) :=
  bind_eq (enterFunction_eq inside cursor hint isMethod)
    (bind_eq (functionBody_eq (inside.enterFunction cursor hint plain).2 cursor) rfl)

section Classes

variable {number node : Nat} {adding : Facts.Adding}

theorem method_eq (added : Facts.AddsTo file base outer adds begun context number adding)
    (member : Cursor) (hint : Option Hint) (plain : StatementForm.ofKind member.kind ≠ .function) :
    method adding file member context hint number =
      .ok (adding.method file member context hint number) := by
  have proceeds : Facts.Proceeds file base outer adds adding.facts
      ((adding.facts.addFunction file member context hint true).facts, _) :=
    Facts.proceeds_addFunction added.inside.restart member hint fun _ => plain
  exact bind_eq (addFunction_eq added.inside member hint fun _ => plain)
    (bind_eq (require_eq .classes (Nat.lt_of_lt_of_le added.class_lt proceeds.extend.classes)) rfl)

theorem field_eq (added : Facts.AddsTo file base outer adds begun context number adding)
    (name : Cursor) (value : Option Cursor) (there : adding.facts.graph.KindIn node [.cls]) :
    field adding file name value context node =
      .ok (adding.field file name value context node) := by
  have draws : file.Draws (((file.nodeOf name .var (some (file.textOf name))).set "declarationKind"
      (.text "field")).set "isField" (.flag true)) :=
    file.draws_nodeOf name fun _ => rfl
  have seated : ∀ handle, some node = some handle → handle < adding.facts.graph.nodes.size :=
    fun _ given => Option.some.inj given ▸ there.lt
  obtain ⟨placed, handle⟩ := added.inside.place .var draws rfl (by decide) seated
  have binding := handle.mono (by decide : ∀ kind ∈ [NodeKind.var], kind ∈ NodeKind.bindings)
  exact bind_eq (place_eq added.inside.sound.formed _ seated)
    (bind_eq (require_eq .regions placed.known.region_lt)
      (bind_eq (record_eq (placed.declareIn binding).known fun _ _ given =>
        Binding.noConfusion given) rfl))

theorem member_eq (added : Facts.AddsTo file base outer adds begun context number adding)
    (cursor : Cursor) (there : adding.facts.graph.KindIn node [.cls]) :
    member file context number node adding cursor =
      .ok (adding.member file context number node cursor) := by
  unfold member Facts.Adding.member
  split
  · next kind =>
    exact method_eq added cursor none (Facts.form_of_methodKind kind)
  · split
    · cases (cursor.field? "name").orElse fun _ => cursor.field? "property" with
      | none => rfl
      | some name =>
        cases cursor.field? "value" with
        | none => exact field_eq added name none there
        | some value =>
          dsimp only
          split
          · next function => exact method_eq added value _ (Facts.form_of_isFieldFunction function)
          · exact field_eq added name _ there
    · rfl

theorem addClass_eq (inside : Facts.Inside file base outer adds begun facts context)
    (cursor : Cursor) (hint : Option Hint) :
    addClass facts file cursor context hint = .ok (facts.addClass file cursor context hint) := by
  have draws := Facts.draws_classNode file cursor (Facts.givenName file cursor hint)
  have kind := Facts.kind_classNode file cursor (Facts.givenName file cursor hint)
  obtain ⟨placed, handle⟩ := inside.place .cls draws kind (by decide) inside.known.parent
  have around := inside.sound.around_place inside.known .cls draws kind (by decide)
  obtain ⟨opened, number_lt⟩ := placed.pushClass (Facts.givenName file cursor hint)
  refine bind_eq (place_eq inside.sound.formed _ inside.known.parent) ?_
  unfold Facts.addClass
  dsimp only
  split
  · rfl
  · have within := opened.atSite (handle.mono (by decide))
      (around.later (Facts.extends_pushClass _ _))
    have start : Facts.AddsTo file base outer adds begun _ _ { facts := _ } :=
      ⟨within, number_lt, Facts.fits_none, Facts.fits_none⟩
    -- The node of the class stays while one member after the other is added.
    refine bind_eq (foldlM_eq (fun adding =>
      Facts.AddsTo file base outer adds begun _ _ adding ∧ adding.facts.graph.KindIn _ [.cls])
      (fun member _ adding ⟨added, there⟩ => ⟨member_eq added member there, ?_⟩) ⟨start, handle⟩) rfl
    have next := Facts.AddsTo.member
      ⟨added.inside.restart, added.class_lt, added.own, added.methods⟩ rfl member there
    exact ⟨added.member rfl member there, there.kept next.inside.extend.graph⟩

end Classes

/-! ## Expressions -/

theorem callerOf_eq (known : context.Known facts) : callerOf facts context.function =
    .ok ((context.function.bind fun number => facts.functions[number]?).map FunctionFact.node) := by
  cases given : context.function with
  | none => rfl
  | some number =>
    have held := Array.getElem?_eq_getElem (known.function_lt given)
    rw [callerOf, entry_eq .functions held, Option.bind_some, held]
    rfl

theorem addCall_eq (inside : Facts.Inside file base outer adds begun facts context)
    (cursor : Cursor) :
    addCall facts file cursor context = .ok (facts.addCall file cursor context) := by
  have placed := inside.known.later (Facts.extends_place facts
    (Facts.callNode file cursor (Facts.callSyntax file cursor)) context.parent)
  exact bind_eq (place_eq inside.sound.formed _ inside.known.parent)
    (bind_eq (callerOf_eq placed) (bind_eq (require_eq .scopes placed.scope) rfl))

theorem addAssignment_eq (inside : Facts.Inside file base outer adds begun facts context)
    (cursor : Cursor) (augmented : Bool) : addAssignment facts file cursor context augmented =
      .ok (facts.addAssignment file cursor context augmented) := by
  unfold addAssignment Facts.addAssignment
  cases cursor.field? "left" with
  | none => rfl
  | some left =>
    cases cursor.field? "right" with
    | none => rfl
    | some right => exact bind_eq (openExpression_eq inside cursor) rfl

theorem addUpdate_eq (inside : Facts.Inside file base outer adds begun facts context)
    (cursor : Cursor) :
    addUpdate facts file cursor context = .ok (facts.addUpdate file cursor context) := by
  unfold addUpdate Facts.addUpdate
  cases cursor.field? "argument" with
  | none => rfl
  | some argument => exact bind_eq (openExpression_eq inside cursor) rfl

theorem addReference_eq (inside : Facts.Inside file base outer adds begun facts context)
    (cursor : Cursor) :
    addReference facts file cursor context = .ok (facts.addReference file cursor context) := by
  unfold addReference Facts.addReference
  cases context.site with
  | none => rfl
  | some site => exact mention_eq inside.known .read _ site

theorem expression_eq (inside : Facts.Inside file base outer adds begun facts context)
    (cursor : Cursor) (hint : Option Hint) : expression facts file cursor context hint =
      .ok (facts.expression file cursor context hint) := by
  unfold expression Facts.expression
  cases form : ExpressionForm.ofKind cursor.kind with
  | reference => exact bind_eq (addReference_eq inside cursor) rfl
  | function => exact bind_eq (addFunction_eq inside cursor hint fun no => nomatch no) rfl
  | method =>
    exact bind_eq (addFunction_eq inside cursor none fun _ => Facts.form_of_method form) rfl
  | classLike => exact addClass_eq inside cursor hint
  | call => exact addCall_eq inside cursor
  | assignment => exact addAssignment_eq inside cursor false
  | augmented => exact addAssignment_eq inside cursor true
  | update => exact addUpdate_eq inside cursor
  | pair => rfl
  | type => rfl
  | compound => rfl

/-! ## Statements -/

section Statements

variable {opened : Facts.Opened}

theorem addArm_eq (opens : Facts.Opens file base outer adds begun facts context opened) (role : Role)
    (body : Option Cursor) : addArm facts context opened.statement opened.site role body =
      .ok ((facts.pushArm context opened.statement role).1,
        (body.map fun body => Task.statement body (context.enter
          (facts.pushArm context opened.statement role).2 opened.site)).toList) :=
  bind_eq (pushArm_eq opens.beside.known opens.fresh.there role) rfl

/-- What an arm for the statement that fills a field comes to. -/
def armOf (facts : Facts) (cursor : Cursor) (name : String) (context : Context)
    (statement site : Nat) (role : Role) : Facts × List Task :=
  match cursor.field? name with
  | none => (facts, [])
  | some body =>
    let arm := facts.pushArm context statement role
    (arm.1, [.statement body (context.enter arm.2 site)])

theorem addArmOf_eq (opens : Facts.Opens file base outer adds begun facts context opened)
    (cursor : Cursor) (name : String) (role : Role) :
    addArmOf facts cursor name context opened.statement opened.site role =
      .ok (armOf facts cursor name context opened.statement opened.site role) := by
  unfold addArmOf armOf
  cases cursor.field? name with
  | none => rfl
  | some body => exact addArm_eq opens role (some body)

/-- The statement stays open when an arm is added to it. -/
theorem opens_armOf (opens : Facts.Opens file base outer adds begun facts context opened)
    (may : base.regions.size ≤ context.region ∨ adds = true) (cursor : Cursor) (name : String)
    (role : Role) : Facts.Opens file base outer adds begun
      (armOf facts cursor name context opened.statement opened.site role).1 context opened := by
  unfold armOf
  cases cursor.field? name with
  | none => exact opens
  | some body => exact (opens.arm may role).1

theorem addLoop_eq (inside : Facts.Inside file base outer adds begun facts context)
    (may : base.regions.size ≤ context.region ∨ adds = true) (cursor : Cursor) :
    addLoop facts file cursor context = .ok (facts.addLoop file cursor context) :=
  bind_eq (openStatement_eq inside cursor .loop)
    (bind_eq (addArmOf_eq (inside.openStatement may cursor .loop) cursor _ _) rfl)

theorem addLoopHeader_eq (inside : Facts.Inside file base outer adds begun facts context)
    (may : base.regions.size ≤ context.region ∨ adds = true) (cursor : Cursor) :
    addLoopHeader facts file cursor context = .ok (facts.addLoopHeader file cursor context) :=
  bind_eq (openStatement_eq inside cursor .loop)
    (bind_eq (addArmOf_eq (inside.openStatement may cursor .loop) cursor _ _) rfl)

theorem addForEach_eq (inside : Facts.Inside file base outer adds begun facts context)
    (may : base.regions.size ≤ context.region ∨ adds = true) (cursor : Cursor) :
    addForEach facts file cursor context = .ok (facts.addForEach file cursor context) := by
  have pushed := inside.pushScope
  exact bind_eq (pushScope_eq inside.known.scope false)
    (bind_eq (openStatement_eq pushed cursor .loop)
      (bind_eq (addArmOf_eq (pushed.openStatement may cursor .loop) cursor _ _) rfl))

theorem addAlternative_eq (opens : Facts.Opens file base outer adds begun facts context opened)
    (cursor : Cursor) : addAlternative facts cursor context opened.statement opened.site =
      .ok (match cursor.field? "alternative" with
        | none => (facts, [])
        | some alternative =>
          let arm := facts.pushArm context opened.statement .whenFalse
          let body :=
            if alternative.kind = "else_clause" then alternative.firstNamed? else some alternative
          (arm.1, (body.map fun body =>
            Task.statement body (context.enter arm.2 opened.site)).toList)) := by
  unfold addAlternative
  cases cursor.field? "alternative" with
  | none => rfl
  | some alternative => exact addArm_eq opens .whenFalse _

theorem addConditional_eq (inside : Facts.Inside file base outer adds begun facts context)
    (may : base.regions.size ≤ context.region ∨ adds = true) (cursor : Cursor) :
    addConditional facts file cursor context = .ok (facts.addConditional file cursor context) := by
  have opens := inside.openStatement may cursor .conditional
  exact bind_eq (openStatement_eq inside cursor .conditional)
    (bind_eq (addArmOf_eq opens cursor "consequence" .whenTrue)
      (bind_eq (addAlternative_eq (opens_armOf opens may cursor "consequence" .whenTrue) cursor) rfl))

theorem addCase_eq {body : Context} {state : Facts × List Task}
    (opens : Facts.Opens file base outer adds begun state.1 context opened) (entry : Cursor) :
    addCase opened context body state entry =
      .ok (Facts.addCase opened context body state entry) := by
  unfold addCase Facts.addCase
  generalize (if entry.kind = "switch_case" then some false
    else if entry.kind = "switch_default" then some true else none : Option Bool) = isDefault?
  cases isDefault? with
  | none => rfl
  | some isDefault => exact bind_eq (pushArm_eq opens.beside.known opens.fresh.there _) rfl

theorem cases_eq {body : Context} (state : Facts × List Task)
    (opens : Facts.Opens file base outer adds begun state.1 context opened)
    (may : base.regions.size ≤ context.region ∨ adds = true)
    (within : Facts.Inside file base outer adds begun state.1 body)
    (same : body.region = context.region) (alike : body.function = context.function)
    (fits : ∀ task ∈ state.2, task.Fits base outer adds state.1) (entries : List Cursor) :
    entries.foldlM (addCase opened context body) state =
      .ok (entries.foldl (Facts.addCase opened context body) state) :=
  foldlM_eq
    (fun state => Facts.Opens file base outer adds begun state.1 context opened ∧
      Facts.Inside file base outer adds begun state.1 body ∧
      ∀ task ∈ state.2, task.Fits base outer adds state.1)
    (fun entry _ _ ⟨opens, within, fits⟩ =>
      ⟨addCase_eq opens entry, opens.case may within same alike fits entry⟩)
    ⟨opens, within, fits⟩

theorem addSwitch_eq (inside : Facts.Inside file base outer adds begun facts context)
    (may : base.regions.size ≤ context.region ∨ adds = true) (cursor : Cursor) :
    addSwitch facts file cursor context = .ok (facts.addSwitch file cursor context) := by
  have opens := inside.openStatement may cursor .switch
  have pushed := opens.beside.restart.pushScope
  have still := opens.later pushed
  have body := still.beside.inScope pushed.known.scope pushed.known.body
  exact bind_eq (openStatement_eq inside cursor .switch)
    (bind_eq (pushScope_eq opens.beside.known.scope false)
      (bind_eq (cases_eq (_, []) still may body rfl rfl Facts.fits_none _) rfl))

theorem addHandler_eq (opens : Facts.Opens file base outer adds begun facts context opened)
    (may : base.regions.size ≤ context.region ∨ adds = true) (cursor : Cursor) :
    addHandler facts file cursor context opened.statement opened.site =
      .ok (facts.addHandler file cursor context opened.statement opened.site) := by
  unfold addHandler Facts.addHandler
  cases cursor.field? "handler" with
  | none => rfl
  | some handler =>
    obtain ⟨pushed, there⟩ := opens.beside.restart.pushArm may opens.fresh .handler
    have inScope := pushed.pushScope
    have inner := inScope.enter
      (Nat.lt_of_lt_of_le there (Facts.extends_pushScope _ context.scope false |>.blocks _))
      (Nat.lt_of_lt_of_le opens.site.lt inScope.extend.graph.size_le)
      (opens.around.later inScope.extend)
    exact bind_eq (pushArm_eq opens.beside.known opens.fresh.there .handler)
      (bind_eq (pushScope_eq pushed.known.scope false)
        (bind_eq (openStatement_eq inner handler .simple) rfl))

theorem addCleanup_eq (opens : Facts.Opens file base outer adds begun facts context opened)
    (cursor : Cursor) : addCleanup facts cursor context opened.statement opened.site =
      .ok (facts.addCleanup cursor context opened.statement opened.site) := by
  unfold addCleanup Facts.addCleanup
  cases (cursor.field? "finalizer").bind fun finalizer => finalizer.field? "body" with
  | none => rfl
  | some body => exact addArm_eq opens .cleanup (some body)

theorem addGuarded_eq (inside : Facts.Inside file base outer adds begun facts context)
    (may : base.regions.size ≤ context.region ∨ adds = true) (cursor : Cursor) :
    addGuarded facts file cursor context = .ok (facts.addGuarded file cursor context) := by
  have opens := inside.openStatement may cursor .guarded
  have armed := opens_armOf opens may cursor "body" .guardedBody
  have handled := (armed.handler may cursor).1
  exact bind_eq (openStatement_eq inside cursor .guarded)
    (bind_eq (addArmOf_eq opens cursor "body" .guardedBody)
      (bind_eq (addHandler_eq armed may cursor) (bind_eq (addCleanup_eq handled cursor) rfl)))

end Statements

theorem addExpressionStatement_eq (inside : Facts.Inside file base outer adds begun facts context)
    (cursor : Cursor) : addExpressionStatement facts file cursor context =
      .ok (facts.addExpressionStatement file cursor context) := by
  unfold addExpressionStatement Facts.addExpressionStatement
  cases cursor.firstNamed? with
  | none => rfl
  | some inner =>
    dsimp only
    split
    · rfl
    · exact bind_eq (openStatement_eq inside cursor .simple) rfl

theorem addReturn_eq (inside : Facts.Inside file base outer adds begun facts context)
    (may : base.regions.size ≤ context.region ∨ adds = true) (cursor : Cursor) :
    addReturn facts file cursor context = .ok (facts.addReturn file cursor context) :=
  bind_eq (openStatement_eq inside cursor .returns)
    (bind_eq (recordReturn_eq (inside.openStatement may cursor .returns).beside.known _) rfl)

theorem addExport_eq (inside : Facts.Inside file base outer adds begun facts context)
    (cursor : Cursor) :
    addExport facts file cursor context = .ok (facts.addExport file cursor context) := by
  unfold addExport Facts.addExport
  cases cursor.field? "declaration" with
  | some declaration => rfl
  | none =>
    cases cursor.field? "value" with
    | none => rfl
    | some value => exact bind_eq (openStatement_eq inside cursor .simple) rfl

theorem statement_eq (inside : Facts.Inside file base outer adds begun facts context)
    (may : base.regions.size ≤ context.region ∨ adds = true) (cursor : Cursor) :
    statement facts file cursor context = .ok (facts.statement file cursor context) := by
  unfold statement Facts.statement
  cases StatementForm.ofKind cursor.kind with
  | block => exact bind_eq (pushScope_eq inside.known.scope false) rfl
  | declaration => exact bind_eq (openStatement_eq inside cursor .simple) rfl
  | expression => exact addExpressionStatement_eq inside cursor
  | returns => exact addReturn_eq inside may cursor
  | throws => exact bind_eq (openStatement_eq inside cursor .throws) rfl
  | conditional => exact addConditional_eq inside may cursor
  | forLoop => exact bind_eq (pushScope_eq inside.known.scope false) rfl
  | forEach => exact addForEach_eq inside may cursor
  | loop => exact addLoop_eq inside may cursor
  | switch => exact addSwitch_eq inside may cursor
  | guarded => exact addGuarded_eq inside may cursor
  | breaks => exact bind_eq (openStatement_eq inside cursor .breaks) rfl
  | continues => exact bind_eq (openStatement_eq inside cursor .continues) rfl
  | labelled => rfl
  | exported => exact addExport_eq inside cursor
  | function => exact bind_eq (addFunction_eq inside cursor none fun no => nomatch no) rfl
  | classLike => exact addClass_eq inside cursor none
  | module => rfl
  | faulty => rfl
  | inert => rfl
  | plain => exact bind_eq (openStatement_eq inside cursor .simple) rfl

/-! ## The walk -/

/-- A step does what it does without looking its numbers up, when its task is known to the facts. -/
theorem step_eq {task : Task} (sound : Facts.Sound file facts) (known : task.Known facts) :
    step file facts task = .ok (facts.step file task) := by
  have inside : Facts.Inside file facts task.context task.adds facts facts task.context :=
    ⟨sound, .start, .refl facts, .refl facts task.context, known.context⟩
  cases task with
  | statement cursor context => exact statement_eq inside (.inr rfl) cursor
  | loopHeader cursor context => exact addLoopHeader_eq inside (.inr rfl) cursor
  | bind cursor context mode => exact bindPattern_eq inside cursor mode
  | expression cursor context hint => exact expression_eq inside cursor hint

/-- Do the task on top of the stack without looking numbers up. -/
def walkOn (file : SourceFile) (progress : Progress) : Option Progress :=
  match progress.2 with
  | [] => none
  | task :: rest =>
    some ((progress.1.step file task).1, (progress.1.step file task).2 ++ rest)

/-- The walk comes to what a task and all that it leaves make. -/
theorem halts_run {facts : Facts} {task : Task} {rest : List Task} {last : Progress}
    (halts : Halts (walkOn file) (Facts.run file facts task, rest) last) :
    Halts (walkOn file) (facts, task :: rest) last := by
  induction weight : task.weight using Nat.strongRecOn generalizing facts task rest with
  | ind weight ih =>
    subst weight
    -- What the step leaves is lighter, task by task, and lies on top of the rest of the stack.
    have each : ∀ (left : List Task) (middle : Facts), (∀ next ∈ left, next.weight < task.weight) →
        Halts (walkOn file) (Facts.runAll file middle left, rest) last →
        Halts (walkOn file) (middle, left ++ rest) last := by
      intro left
      induction left with
      | nil => exact fun middle _ halts => halts
      | cons next left further =>
        intro middle lighter halts
        exact ih _ (lighter next List.mem_cons_self)
          (further _ (fun other there => lighter other (List.mem_cons_of_mem _ there)) halts) rfl
    rw [Facts.run_eq] at halts
    exact .next rfl (each _ _ (fun next there => Facts.weight_lt_of_mem_step there) halts)

theorem halts_walkOn (facts : Facts) (tasks : List Task) :
    Halts (walkOn file) (facts, tasks) (Facts.runAll file facts tasks, []) := by
  induction tasks generalizing facts with
  | nil => exact .ended rfl
  | cons task rest ih => exact halts_run (ih _)

/-- The walk over a file ends, whatever the tree, and every number that it uses or stores has an
entry. -/
theorem halts_walk (file : SourceFile) : Halts (loop (walk file)) (.ok (beginning file))
    (.ok (Facts.runAll file {} (beginning file).2, [])) := by
  refine halts_loop (halts_walkOn {} _) (fun progress => Facts.Visits file progress.1 progress.2)
    (fun progress visits => ?_) (fun progress next visits taken => ?_) .start
  · obtain ⟨facts, tasks⟩ := progress
    cases tasks with
    | nil => rfl
    | cons task rest =>
      obtain ⟨sound, ready⟩ := visits.sound
      exact bind_eq (step_eq sound (ready task List.mem_cons_self).1) rfl
  · obtain ⟨facts, tasks⟩ := progress
    cases tasks with
    | nil => cases taken
    | cons task rest =>
      obtain rfl := Option.some.inj taken
      exact visits.step

end Checked

end CodeGraph

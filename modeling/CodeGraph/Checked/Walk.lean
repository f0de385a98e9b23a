import CodeGraph.Checked.Table
import CodeGraph.Facts.Walk

/-!
# The walk by numbers that have entries

The walk over a syntax tree, as `Facts.step` does it, with every number looked up (`Checked.step`). The
tasks that are left wait on a stack, and so do the numbers in their contexts: by the time a task is done
the tables have grown, and the walk may have been in other regions (`Checked.walk`).
-/

namespace CodeGraph

namespace Checked

/-! ## Operations -/

/-- Add a node below its container. -/
def place (facts : Facts) (node : Node) (parent : Option Nat) : Except Missing (Facts × Nat) := do
  let added := facts.graph.addNode node
  let graph ←
    match parent with
    | some container =>
      if container = added.2 then .ok added.1
      else connect added.1 { source := container, target := added.2, kind := .child }
    | none => .ok added.1
  return ({ facts with graph }, added.2)

/-- Record an access where the walk is. -/
def record (facts : Facts) (context : Context) (access : Access) : Except Missing Facts := do
  let region ← entry .regions facts.regions context.region
  require? .statements region.skeleton.statements context.statement
  match access.binding with
  | .node _ => return facts.record context access
  | .name _ scope =>
    require .scopes facts.scopes.list scope
    return facts.record context access

/-- Add a scope. -/
def pushScope (facts : Facts) (parent : Nat) (hoists : Bool) : Except Missing (Facts × Nat) := do
  require .scopes facts.scopes.list parent
  return facts.pushScope parent hoists

/-- Add a statement to the block where the walk is. -/
def pushStatement (facts : Facts) (context : Context) (site : Nat) (kind : StatementKind) :
    Except Missing (Facts × Nat) := do
  let region ← entry .regions facts.regions context.region
  require .blocks region.skeleton.blocks context.block
  return facts.pushStatement context site kind

/-- Add an arm to a statement of the region where the walk is. -/
def pushArm (facts : Facts) (context : Context) (statement : Nat) (role : Role) :
    Except Missing (Facts × Nat) := do
  let region ← entry .regions facts.regions context.region
  require .statements region.skeleton.statements statement
  return facts.pushArm context statement role

/-- Record a site at which the function around returns. -/
def recordReturn (facts : Facts) (function : Option Nat) (site : Nat) : Except Missing Facts := do
  require? .functions facts.functions function
  return facts.recordReturn function site

/-- Add a statement and its node. -/
def openStatement (facts : Facts) (file : SourceFile) (cursor : Cursor) (context : Context)
    (kind : StatementKind) : Except Missing Facts.Opened := do
  let node := (file.nodeOf cursor .stmt none).set "kind" (.text cursor.kind)
  let placed ← place facts node context.parent
  let pushed ← pushStatement placed.1 context placed.2 kind
  return {
    facts := pushed.1
    context := { context.atSite placed.2 with statement := some pushed.2 }
    statement := pushed.2
    site := placed.2 }

/-- Add the node of an expression that defines a value. -/
def openExpression (facts : Facts) (file : SourceFile) (cursor : Cursor) (context : Context) :
    Except Missing (Facts × Nat) :=
  place facts ((file.nodeOf cursor .expr none).set "kind" (.text cursor.kind)) context.parent

/-! ## Patterns -/

/-- The scope that a word of declaration declares a variable in. -/
def scopeFor (scopes : Scopes) (kind : String) (id : Nat) : Except Missing Nat :=
  if kind = "var" then hoistTarget scopes id else .ok id

/-- Declare a variable under a name. -/
def declare (facts : Facts) (file : SourceFile) (cursor : Cursor) (context : Context)
    (kind : String) (site : Nat) : Except Missing Facts := do
  let name := file.textOf cursor
  let node := (file.nodeOf cursor .var (some name)).set "declarationKind" (.text kind)
  let placed ← place facts node context.parent
  let facts := placed.1
  let scope ← scopeFor facts.scopes kind context.scope
  let scopes ← declareVariable facts.scopes scope name placed.2
  require .regions facts.regions context.region
  let facts :=
    { facts with scopes, regionOf := facts.regionOf.insert placed.2 context.region }
  record facts context { kind := .write, binding := .node placed.2, site }

/-- Declare a parameter under a name. -/
def declareParam (facts : Facts) (file : SourceFile) (cursor : Cursor) (context : Context)
    (position : Nat) (rest optional hasDefault : Bool) : Except Missing Facts := do
  let name := file.textOf cursor
  let node := (((file.nodeOf cursor .param (some name)).set "index" (.ofNat position)).set
    "isRest" (.flag rest)).set "isOptional" (.flag optional)
  let placed ← place facts (node.set "hasDefault" (.flag hasDefault)) context.parent
  let facts := placed.1
  let scopes ← declareVariable facts.scopes context.scope name placed.2
  require .regions facts.regions context.region
  require? .functions facts.functions context.function
  return { facts with
    scopes
    regionOf := facts.regionOf.insert placed.2 context.region
    regions := facts.regions.modify context.region fun region =>
      { region with params := region.params.push placed.2 }
    functions :=
      match context.function with
      | some number => facts.functions.modify number fun fact =>
          { fact with params := fact.params.push (position, placed.2) }
      | none => facts.functions }

/-- Bind a name. -/
def bindName (facts : Facts) (file : SourceFile) (cursor : Cursor) (context : Context) :
    BindMode → Except Missing Facts
  | .declare kind site => declare facts file cursor context kind site
  | .param position rest optional hasDefault =>
    declareParam facts file cursor context position rest optional hasDefault
  | .assign site =>
    record facts context
      { kind := .write, binding := .name (file.textOf cursor) context.scope, site }

/-- Look at a pattern. -/
def bind (facts : Facts) (file : SourceFile) (cursor : Cursor) (context : Context)
    (mode : BindMode) : Except Missing (Facts × List Task) := do
  if PatternForm.ofKind cursor.kind = .name then
    return (← bindName facts file cursor context mode, [])
  else return (facts, Facts.patternTasks cursor context mode)

/-! ## Functions and classes -/

/-- Declare a function where it can be called by name. -/
def declareFunctionName (facts : Facts) (cursor : Cursor) (around inside : Nat)
    (ownName : Option String) (hint : Option Hint) (isMethod : Bool) (node : Nat) :
    Except Missing Facts := do
  let isDeclaration := cursor.kind == "function_declaration"
    || cursor.kind == "generator_function_declaration"
  match ownName, hint with
  | some name, _ =>
    if isDeclaration then
      return { facts with scopes := ← declareFunction facts.scopes around name node }
    else if isMethod then return facts
    else return { facts with scopes := ← declareFunction facts.scopes inside name node }
  | none, some hint =>
    if hint.bindable && !isMethod then
      return { facts with scopes := ← declareFunction facts.scopes around hint.name node }
    else return facts
  | none, none => return facts

/-- Add the body of a function. -/
def functionBody (facts : Facts) (file : SourceFile) (cursor : Cursor) (inner : Context) :
    Except Missing (Facts × List Task) := do
  match cursor.field? "body" with
  | none => return (facts, [])
  | some body =>
    if body.kind = "statement_block" then
      return (facts, body.named.map fun statement => .statement statement inner)
    else
      let placed ← openExpression facts file body inner
      let pushed ← pushStatement placed.1 inner placed.2 .returns
      let returned ← recordReturn pushed.1 inner.function placed.2
      return (returned,
        [.expression body { inner.atSite placed.2 with statement := some pushed.2 } none])

/-- Add a function without what is inside it. -/
def enterFunction (facts : Facts) (file : SourceFile) (cursor : Cursor) (context : Context)
    (hint : Option Hint) (isMethod : Bool) : Except Missing Facts.Entered := do
  let ownName := (cursor.field? "name").map file.textOf
  let name := ownName.orElse fun _ => hint.map Hint.name
  let placed ← place facts
    (Facts.functionNode file cursor name isMethod (Parameter.ofFunction cursor).length)
    context.parent
  let opened ← pushScope placed.1 context.scope true
  let declared ←
    declareFunctionName opened.1 cursor context.scope opened.2 ownName hint isMethod placed.2
  let pushed := declared.pushFunction placed.2 name isMethod
  return {
    facts := pushed.1
    inner :=
      { region := pushed.2.1
        scope := opened.2
        site := some placed.2
        parent := some placed.2
        function := some pushed.2.2 }
    node := placed.2 }

/-- Look at a function. -/
def addFunction (facts : Facts) (file : SourceFile) (cursor : Cursor) (context : Context)
    (hint : Option Hint) (isMethod : Bool) : Except Missing Facts.Added := do
  let entered ← enterFunction facts file cursor context hint isMethod
  let body ← functionBody entered.facts file cursor entered.inner
  return {
    facts := body.1
    tasks := (Parameter.ofFunction cursor).zipIdx.flatMap
        (fun entry => entry.1.tasks entered.inner entry.2) ++ body.2
    node := entered.node }

/-- Add a method to a class. -/
def method (adding : Facts.Adding) (file : SourceFile) (member : Cursor) (context : Context)
    (hint : Option Hint) (number : Nat) : Except Missing Facts.Adding := do
  let added ← addFunction adding.facts file member context hint true
  require .classes added.facts.classes number
  return { adding with
    facts := { added.facts with
      classes := added.facts.classes.modify number fun fact =>
        { fact with methods := fact.methods.push added.node } }
    methods := added.tasks ++ adding.methods }

/-- Add a field that holds no function. -/
def field (adding : Facts.Adding) (file : SourceFile) (name : Cursor) (value : Option Cursor)
    (context : Context) (node : Nat) : Except Missing Facts.Adding := do
  let variableNode := ((file.nodeOf name .var (some (file.textOf name))).set
    "declarationKind" (.text "field")).set "isField" (.flag true)
  let placed ← place adding.facts variableNode (some node)
  require .regions placed.1.regions context.region
  let facts := { placed.1 with
    regionOf := placed.1.regionOf.insert placed.2 context.region }
  let facts ← record facts context { kind := .write, binding := .node placed.2, site := node }
  return { adding with
    facts
    own := adding.own ++ (value.map fun cursor => Task.expression cursor context none).toList }

/-- Add a member of a class. -/
def member (file : SourceFile) (context : Context) (number node : Nat) (adding : Facts.Adding)
    (member : Cursor) : Except Missing Facts.Adding :=
  if member.kind = "method_definition" ∨ member.kind = "abstract_method_signature" then
    method adding file member context none number
  else if member.kind = "public_field_definition" ∨ member.kind = "field_definition" then
    match (member.field? "name").orElse fun _ => member.field? "property" with
    | none => .ok adding
    | some name =>
      match member.field? "value" with
      | none => field adding file name none context node
      | some value =>
        if Facts.isFieldFunction value then
          method adding file value context
            (some { name := file.textOf name, bindable := false }) number
        else field adding file name (some value) context node
  else .ok adding

/-- Look at a class. -/
def addClass (facts : Facts) (file : SourceFile) (cursor : Cursor) (context : Context)
    (hint : Option Hint) : Except Missing (Facts × List Task) := do
  let name := ((cursor.field? "name").map file.textOf).orElse fun _ => hint.map Hint.name
  let placed ← place facts (Facts.classNode file cursor name) context.parent
  let facts := { placed.1 with classes := placed.1.classes.push { name } }
  if cursor.kind = "enum_declaration" then return (facts, [])
  else
    let inner := context.atSite placed.2
    let number := placed.1.classes.size
    let base :=
      ((Facts.extended? cursor).map fun base => Task.expression base inner none).toList
    let members := ((cursor.field? "body").map Cursor.named).getD []
    let added ← members.foldlM (member file inner number placed.2) { facts }
    return (added.facts, base ++ added.own ++ added.methods)

/-! ## Expressions -/

/-- The node of the function around. -/
def callerOf (facts : Facts) : Option Nat → Except Missing (Option Nat)
  | some number => (entry .functions facts.functions number).map fun fact => some fact.node
  | none => .ok none

/-- Look at a call. -/
def addCall (facts : Facts) (file : SourceFile) (cursor : Cursor) (context : Context) :
    Except Missing (Facts × List Task) := do
  let call := Facts.callSyntax file cursor
  let placed ← place facts (Facts.callNode file cursor call) context.parent
  let caller ← callerOf placed.1 context.function
  require .scopes placed.1.scopes.list context.scope
  let fact : CallFact :=
    { node := placed.2
      caller
      scope := context.scope
      callee := call.callee
      argumentCount := call.arguments.length
      consumer := if call.consumed then context.site else none
      line := file.lineOf cursor }
  let inner := context.atSite placed.2
  return ({ placed.1 with calls := placed.1.calls.push fact },
    (call.target.map fun target => Task.expression target inner none).toList
      ++ call.arguments.map fun argument => .expression argument inner none)

/-- Look at an assignment. -/
def addAssignment (facts : Facts) (file : SourceFile) (cursor : Cursor) (context : Context)
    (augmented : Bool) : Except Missing (Facts × List Task) := do
  match cursor.field? "left", cursor.field? "right" with
  | some left, some right =>
    let placed ← openExpression facts file cursor context
    let inner := context.atSite placed.2
    return (placed.1,
      if augmented then
        [.expression left inner none, .expression right inner none,
          .bind left inner (.assign placed.2)]
      else
        [.expression right inner (Facts.assignedName? file left),
          .bind left inner (.assign placed.2)])
  | _, _ => return (facts, Facts.descend cursor context)

/-- Look at an update. -/
def addUpdate (facts : Facts) (file : SourceFile) (cursor : Cursor) (context : Context) :
    Except Missing (Facts × List Task) := do
  match cursor.field? "argument" with
  | some argument =>
    let placed ← openExpression facts file cursor context
    let inner := context.atSite placed.2
    return (placed.1,
      [.expression argument inner none, .bind argument inner (.assign placed.2)])
  | none => return (facts, Facts.descend cursor context)

/-- Read a name, if the walk is inside a site. -/
def addReference (facts : Facts) (file : SourceFile) (cursor : Cursor) (context : Context) :
    Except Missing Facts :=
  match context.site with
  | some site =>
    record facts context
      { kind := .read, binding := .name (file.textOf cursor) context.scope, site }
  | none => .ok facts

/-- Look at an expression. -/
def expression (facts : Facts) (file : SourceFile) (cursor : Cursor) (context : Context)
    (hint : Option Hint) : Except Missing (Facts × List Task) := do
  match ExpressionForm.ofKind cursor.kind with
  | .reference => return (← addReference facts file cursor context, [])
  | .function =>
    let added ← addFunction facts file cursor context hint false
    return (added.facts, added.tasks)
  | .method =>
    let added ← addFunction facts file cursor context none true
    return (added.facts, added.tasks)
  | .classLike => addClass facts file cursor context hint
  | .call => addCall facts file cursor context
  | .assignment => addAssignment facts file cursor context false
  | .augmented => addAssignment facts file cursor context true
  | .update => addUpdate facts file cursor context
  | .pair => return (facts, Facts.pairTasks file cursor context)
  | .type => return (facts, [])
  | .compound => return (facts, Facts.descend cursor context)

/-! ## Statements -/

/-- Add a block, which has a scope of its own. -/
def addBlock (facts : Facts) (cursor : Cursor) (context : Context) :
    Except Missing (Facts × List Task) := do
  let opened ← pushScope facts context.scope false
  return (opened.1, Facts.statementTasks cursor { context with scope := opened.2 })

/-- Add a declaration of variables. -/
def addDeclaration (facts : Facts) (file : SourceFile) (cursor : Cursor) (context : Context) :
    Except Missing (Facts × List Task) := do
  let opened ← openStatement facts file cursor context .simple
  return (opened.facts,
    cursor.named.flatMap
      (Facts.declaratorTasks file opened.context (Facts.declarationWord cursor) opened.site))

/-- Add a statement that is one expression. -/
def addExpressionStatement (facts : Facts) (file : SourceFile) (cursor : Cursor)
    (context : Context) : Except Missing (Facts × List Task) := do
  match cursor.firstNamed? with
  | none => return (facts, [])
  | some inner =>
    if inner.kind = "internal_module" ∨ inner.kind = "module" then
      return (facts, Facts.fieldStatement inner "body" context)
    else
      let opened ← openStatement facts file cursor context .simple
      return (opened.facts, [.expression inner opened.context none])

/-- Add a statement that leaves the function with a value. -/
def addReturn (facts : Facts) (file : SourceFile) (cursor : Cursor) (context : Context) :
    Except Missing (Facts × List Task) := do
  let opened ← openStatement facts file cursor context .returns
  let returned ← recordReturn opened.facts context.function opened.site
  return (returned, Facts.expressionTasks cursor opened.context)

/-- Add a statement that throws. -/
def addThrow (facts : Facts) (file : SourceFile) (cursor : Cursor) (context : Context) :
    Except Missing (Facts × List Task) := do
  let opened ← openStatement facts file cursor context .throws
  return (opened.facts, Facts.expressionTasks cursor opened.context)

/-- Add an arm to a statement, and look at a statement in it. -/
def addArm (facts : Facts) (context : Context) (statement site : Nat) (role : Role)
    (body : Option Cursor) : Except Missing (Facts × List Task) := do
  let arm ← pushArm facts context statement role
  return (arm.1, (body.map fun body => Task.statement body (context.enter arm.2 site)).toList)

/-- Add an arm for the statement that fills a field, if there is one. -/
def addArmOf (facts : Facts) (cursor : Cursor) (name : String) (context : Context)
    (statement site : Nat) (role : Role) : Except Missing (Facts × List Task) :=
  match cursor.field? name with
  | none => .ok (facts, [])
  | some body => addArm facts context statement site role (some body)

/-- Add a loop that has nothing but a condition and a body. -/
def addLoop (facts : Facts) (file : SourceFile) (cursor : Cursor) (context : Context) :
    Except Missing (Facts × List Task) := do
  let opened ← openStatement facts file cursor context .loop
  let body ← addArmOf opened.facts cursor "body" context opened.statement opened.site .loopBody
  return (body.1, Facts.fieldExpression cursor "condition" opened.context ++ body.2)

/-- Add the scope of a loop with a header, and put the initialiser before the header. -/
def addForLoop (facts : Facts) (cursor : Cursor) (context : Context) :
    Except Missing (Facts × List Task) := do
  let opened ← pushScope facts context.scope false
  let inner := { context with scope := opened.2 }
  return (opened.1,
    (((cursor.field? "initializer").filter Cursor.isNamed).map fun child =>
        Task.statement child inner).toList
      ++ [.loopHeader cursor inner])

/-- Add the header of a loop. -/
def addLoopHeader (facts : Facts) (file : SourceFile) (cursor : Cursor) (context : Context) :
    Except Missing (Facts × List Task) := do
  let opened ← openStatement facts file cursor context .loop
  let body ← addArmOf opened.facts cursor "body" context opened.statement opened.site .loopBody
  return (body.1,
    ((Facts.loopCondition? cursor).map fun child =>
        Task.expression child opened.context none).toList
      ++ Facts.fieldExpression cursor "increment" opened.context ++ body.2)

/-- Add a loop over the elements of a value. -/
def addForEach (facts : Facts) (file : SourceFile) (cursor : Cursor) (context : Context) :
    Except Missing (Facts × List Task) := do
  let scope ← pushScope facts context.scope false
  let outer := { context with scope := scope.2 }
  let opened ← openStatement scope.1 file cursor outer .loop
  let mode :=
    match ["const", "let", "var"].find? cursor.hasToken with
    | some word => BindMode.declare word opened.site
    | none => .assign opened.site
  let left := ((cursor.field? "left").map fun child => Task.bind child opened.context mode).toList
  let body ← addArmOf opened.facts cursor "body" outer opened.statement opened.site .loopBody
  return (body.1, Facts.fieldExpression cursor "right" opened.context ++ left ++ body.2)

/-- Add an arm for the alternative of a conditional statement, if it has one. -/
def addAlternative (facts : Facts) (cursor : Cursor) (context : Context) (statement site : Nat) :
    Except Missing (Facts × List Task) :=
  match cursor.field? "alternative" with
  | none => .ok (facts, [])
  | some alternative =>
    addArm facts context statement site .whenFalse
      (if alternative.kind = "else_clause" then alternative.firstNamed? else some alternative)

/-- Add a conditional statement with its two arms. -/
def addConditional (facts : Facts) (file : SourceFile) (cursor : Cursor) (context : Context) :
    Except Missing (Facts × List Task) := do
  let opened ← openStatement facts file cursor context .conditional
  let whenTrue ←
    addArmOf opened.facts cursor "consequence" context opened.statement opened.site .whenTrue
  let whenFalse ←
    addAlternative whenTrue.1 cursor context opened.statement opened.site
  return (whenFalse.1,
    Facts.fieldExpression cursor "condition" opened.context ++ whenTrue.2 ++ whenFalse.2)

/-- Add one case of a switch. -/
def addCase (opened : Facts.Opened) (context body : Context) (state : Facts × List Task)
    (entry : Cursor) : Except Missing (Facts × List Task) := do
  let isDefault? : Option Bool :=
    if entry.kind = "switch_case" then some false
    else if entry.kind = "switch_default" then some true
    else none
  match isDefault? with
  | none => return state
  | some isDefault =>
    let arm ← pushArm state.1 context opened.statement (.case isDefault)
    let inner := body.enter arm.2 opened.site
    return (arm.1,
      state.2 ++ Facts.fieldExpression entry "value" opened.context
        ++ (entry.fields "body").map fun child => .statement child inner)

/-- Add a switch with its cases, which share a scope. -/
def addSwitch (facts : Facts) (file : SourceFile) (cursor : Cursor) (context : Context) :
    Except Missing (Facts × List Task) := do
  let opened ← openStatement facts file cursor context .switch
  let scope ← pushScope opened.facts context.scope false
  let body := { context with scope := scope.2 }
  let entries := ((cursor.field? "body").map Cursor.named).getD []
  let cases ← entries.foldlM (addCase opened context body) (scope.1, [])
  return (cases.1, Facts.fieldExpression cursor "value" opened.context ++ cases.2)

/-- Add the handler of a guarded statement. -/
def addHandler (facts : Facts) (file : SourceFile) (cursor : Cursor) (context : Context)
    (statement site : Nat) : Except Missing (Facts × List Task) := do
  match cursor.field? "handler" with
  | none => return (facts, [])
  | some handler =>
    let arm ← pushArm facts context statement .handler
    let scope ← pushScope arm.1 context.scope false
    let inner := { context with scope := scope.2 }.enter arm.2 site
    let clause ← openStatement scope.1 file handler inner .simple
    let caught := (handler.field? "parameter").map fun param =>
      Task.bind param clause.context (.declare "catch" clause.site)
    return (clause.facts,
      caught.toList
        ++ Facts.fieldStatement handler "body" { inner with parent := some clause.site })

/-- Add the cleanup of a guarded statement. -/
def addCleanup (facts : Facts) (cursor : Cursor) (context : Context) (statement site : Nat) :
    Except Missing (Facts × List Task) :=
  match (cursor.field? "finalizer").bind fun finalizer => finalizer.field? "body" with
  | none => .ok (facts, [])
  | some body => addArm facts context statement site .cleanup (some body)

/-- Add a guarded statement. -/
def addGuarded (facts : Facts) (file : SourceFile) (cursor : Cursor) (context : Context) :
    Except Missing (Facts × List Task) := do
  let opened ← openStatement facts file cursor context .guarded
  let body ←
    addArmOf opened.facts cursor "body" context opened.statement opened.site .guardedBody
  let handler ← addHandler body.1 file cursor context opened.statement opened.site
  let cleanup ← addCleanup handler.1 cursor context opened.statement opened.site
  return (cleanup.1, body.2 ++ handler.2 ++ cleanup.2)

/-- Add an export: of a declaration, or of a value. -/
def addExport (facts : Facts) (file : SourceFile) (cursor : Cursor) (context : Context) :
    Except Missing (Facts × List Task) := do
  match cursor.field? "declaration", cursor.field? "value" with
  | some declaration, _ => return (facts, [.statement declaration context])
  | none, some value =>
    let opened ← openStatement facts file cursor context .simple
    return (opened.facts, [.expression value opened.context none])
  | none, none => return (facts, [])

/-- Look at a statement. -/
def statement (facts : Facts) (file : SourceFile) (cursor : Cursor) (context : Context) :
    Except Missing (Facts × List Task) := do
  match StatementForm.ofKind cursor.kind with
  | .block => addBlock facts cursor context
  | .declaration => addDeclaration facts file cursor context
  | .expression => addExpressionStatement facts file cursor context
  | .returns => addReturn facts file cursor context
  | .throws => addThrow facts file cursor context
  | .conditional => addConditional facts file cursor context
  | .forLoop => addForLoop facts cursor context
  | .forEach => addForEach facts file cursor context
  | .loop => addLoop facts file cursor context
  | .switch => addSwitch facts file cursor context
  | .guarded => addGuarded facts file cursor context
  | .breaks => return ((← openStatement facts file cursor context .breaks).facts, [])
  | .continues => return ((← openStatement facts file cursor context .continues).facts, [])
  | .labelled => return (facts, Facts.fieldStatement cursor "body" context)
  | .exported => addExport facts file cursor context
  | .function =>
    let added ← addFunction facts file cursor context none false
    return (added.facts, added.tasks)
  | .classLike => addClass facts file cursor context none
  | .module => return (facts, Facts.fieldStatement cursor "body" context)
  | .faulty => return (facts, Facts.statementTasks cursor context)
  | .inert => return (facts, [])
  | .plain =>
    let opened ← openStatement facts file cursor context .simple
    return (opened.facts, [.expression cursor opened.context none])

/-! ## The walk -/

/-- Do one task, and tell what it leaves to do. -/
def step (file : SourceFile) (facts : Facts) : Task → Except Missing (Facts × List Task)
  | .statement cursor context => statement facts file cursor context
  | .loopHeader cursor context => addLoopHeader facts file cursor context
  | .bind cursor context mode => bind facts file cursor context mode
  | .expression cursor context hint => expression facts file cursor context hint

/-- The facts that have been made, and the stack of the tasks that are left. -/
abbrev Progress := Facts × List Task

/-- Where the walk over a file begins. -/
def beginning (file : SourceFile) : Progress :=
  ({}, Facts.statementTasks { tree := file.tree } {})

/-- Do the task on top of the stack, and put what it leaves there. -/
def walk (file : SourceFile) (progress : Progress) : Except Missing (Option Progress) := do
  match progress.2 with
  | [] => return none
  | task :: rest =>
    let stepped ← step file progress.1 task
    return some (stepped.1, stepped.2 ++ rest)

end Checked

end CodeGraph

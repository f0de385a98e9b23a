import CodeGraph.Facts.Function

/-!
# Expressions

What the walk does with an expression. A name is read at the nearest site. Calls, assignments and
updates are sites of their own; an assignment reads its right side before it binds its left side,
and an update or an augmented assignment also reads what it writes. Anything without a meaning of
its own is looked through.
-/

namespace CodeGraph

namespace Facts

/-- What a call is aimed at, by the expression that is called. -/
def calleeOf (file : SourceFile) (target : Cursor) (isNew : Bool) : Callee :=
  match target.kind with
  | "identifier" =>
    let name := file.textOf target
    if isNew then .constructor name else .function name
  | "member_expression" =>
    match target.field? "property" with
    | none => .dynamic
    | some property =>
      let name := file.textOf property
      if isNew then .constructor name
      else
        let receiver := (target.field? "object").map fun object => compact (file.textOf object)
        .method (receiver.getD "") name
  | _ => .dynamic

/-- A call as it is written: what is called, the arguments, and what this comes down to. -/
structure CallSyntax where
  isNew : Bool
  target : Option Cursor
  callee : Callee
  arguments : List Cursor
  consumed : Bool

/-- Read a call. -/
def callSyntax (file : SourceFile) (cursor : Cursor) : CallSyntax :=
  let isNew := cursor.kind == "new_expression"
  let target := cursor.field? (if isNew then "constructor" else "function")
  { isNew, target
    callee := (target.map fun target => calleeOf file target isNew).getD .dynamic
    arguments := ((cursor.field? "arguments").map Cursor.named).getD []
    consumed := isConsumedBelow cursor.above }

/-- The graph node of a call. -/
def callNode (file : SourceFile) (cursor : Cursor) (call : CallSyntax) : Node :=
  let name :=
    match call.callee with
    | .dynamic => none
    | _ => call.target.map fun target => compact (file.textOf target)
  let isMethod :=
    match call.callee with
    | .method _ _ => true
    | _ => false
  let node := ((((file.nodeOf cursor .call name).set
    "argCount" (.ofNat call.arguments.length)).set
    "isMethodCall" (.flag isMethod)).set
    "isConstructor" (.flag call.isNew)).set
    "consumed" (.flag call.consumed)
  let node := node.set "resolved" (.flag false)
  let node :=
    match call.callee.name? with
    | some short => node.set "callee" (.text short)
    | none => node
  match call.callee with
  | .method receiver _ => node.set "receiver" (.text receiver)
  | _ => node

/-- Look at a call. -/
def addCall (facts : Facts) (file : SourceFile) (cursor : Cursor) (context : Context) :
    Facts × List Task :=
  let call := callSyntax file cursor
  let placed := facts.place (callNode file cursor call) context.parent
  let fact : CallFact :=
    { node := placed.2
      caller := (context.function.bind fun number => placed.1.functions[number]?).map
        FunctionFact.node
      scope := context.scope
      callee := call.callee
      argumentCount := call.arguments.length
      consumer := if call.consumed then context.site else none
      line := file.lineOf cursor }
  let inner := context.atSite placed.2
  ({ placed.1 with calls := placed.1.calls.push fact },
    (call.target.map fun target => Task.expression target inner none).toList
      ++ call.arguments.map fun argument => .expression argument inner none)

/-- The tasks of an expression without a meaning of its own. -/
def descend (cursor : Cursor) (context : Context) : List Task :=
  (cursor.named.filter fun child => !isTypeKind child.kind).map fun child =>
    .expression child context none

/-- The name that the left side of an assignment suggests for its right side. -/
def assignedName? (file : SourceFile) (left : Cursor) : Option Hint :=
  let target :=
    match left.kind with
    | "identifier" => some left
    | "member_expression" => left.field? "property"
    | _ => none
  target.map fun target => { name := file.textOf target, bindable := false }

/-- Look at an assignment; it reads its left side too if it is augmented. -/
def addAssignment (facts : Facts) (file : SourceFile) (cursor : Cursor) (context : Context)
    (augmented : Bool) : Facts × List Task :=
  match cursor.field? "left", cursor.field? "right" with
  | some left, some right =>
    let placed := facts.openExpression file cursor context
    let inner := context.atSite placed.2
    (placed.1,
      if augmented then
        [.expression left inner none, .expression right inner none,
          .bind left inner (.assign placed.2)]
      else
        [.expression right inner (assignedName? file left), .bind left inner (.assign placed.2)])
  | _, _ => (facts, descend cursor context)

/-- Look at an update: it reads and writes its argument. -/
def addUpdate (facts : Facts) (file : SourceFile) (cursor : Cursor) (context : Context) :
    Facts × List Task :=
  match cursor.field? "argument" with
  | some argument =>
    let placed := facts.openExpression file cursor context
    let inner := context.atSite placed.2
    (placed.1, [.expression argument inner none, .bind argument inner (.assign placed.2)])
  | none => (facts, descend cursor context)

/-- The tasks of a key with a value. A key that is computed is read; any other names the value. -/
def pairTasks (file : SourceFile) (cursor : Cursor) (context : Context) : List Task :=
  let computed (key : Cursor) : Bool := key.kind == "computed_property_name"
  let key := cursor.field? "key"
  let hint := (key.filter fun key => !computed key).map fun key =>
    { name := unquoted (file.textOf key), bindable := false : Hint }
  ((key.filter computed).map fun key => Task.expression key context none).toList
    ++ ((cursor.field? "value").map fun value => Task.expression value context hint).toList

/-- Read a name, if the walk is inside a site. -/
def addReference (facts : Facts) (file : SourceFile) (cursor : Cursor) (context : Context) :
    Facts :=
  match context.site with
  | some site =>
    facts.record context
      { kind := .read, binding := .name (file.textOf cursor) context.scope, site }
  | none => facts

/-- Look at an expression. -/
def expression (facts : Facts) (file : SourceFile) (cursor : Cursor) (context : Context)
    (hint : Option Hint) : Facts × List Task :=
  match ExpressionForm.ofKind cursor.kind with
  | .reference => (facts.addReference file cursor context, [])
  | .function =>
    let added := facts.addFunction file cursor context hint false
    (added.facts, added.tasks)
  | .method =>
    let added := facts.addFunction file cursor context none true
    (added.facts, added.tasks)
  | .classLike => facts.addClass file cursor context hint
  | .call => facts.addCall file cursor context
  | .assignment => facts.addAssignment file cursor context false
  | .augmented => facts.addAssignment file cursor context true
  | .update => facts.addUpdate file cursor context
  | .pair => (facts, pairTasks file cursor context)
  | .type => (facts, [])
  | .compound => (facts, descend cursor context)

/-! ## What is left to do is about nodes below -/

theorem below_descend (cursor : Cursor) (context : Context) :
    TasksBelow cursor (descend cursor context) :=
  .map (fun _ inside => Cursor.below_of_mem_named (List.mem_filter.1 inside).1) fun _ => rfl

theorem below_addCall (facts : Facts) (file : SourceFile) (cursor : Cursor)
    (context : Context) : TasksBelow cursor (facts.addCall file cursor context).2 :=
  .append (.field fun _ => rfl) (.map (fun _ => below_of_mem_named_field) fun _ => rfl)

theorem below_addAssignment (facts : Facts) (file : SourceFile) (cursor : Cursor)
    (context : Context) (augmented : Bool) :
    TasksBelow cursor (facts.addAssignment file cursor context augmented).2 := by
  unfold addAssignment
  split
  · rename_i left right heldLeft heldRight
    have low := Cursor.below_of_field? heldLeft
    have also := Cursor.below_of_field? heldRight
    simp only
    split
    · exact .cons low (.cons also (.cons low .nil))
    · exact .cons also (.cons low .nil)
  · exact below_descend cursor context

theorem below_addUpdate (facts : Facts) (file : SourceFile) (cursor : Cursor)
    (context : Context) : TasksBelow cursor (facts.addUpdate file cursor context).2 := by
  unfold addUpdate
  split
  · rename_i argument held
    have low := Cursor.below_of_field? held
    exact .cons low (.cons low .nil)
  · exact below_descend cursor context

theorem below_pairTasks (file : SourceFile) (cursor : Cursor) (context : Context) :
    TasksBelow cursor (pairTasks file cursor context) :=
  .append (.option (fun _ found => Cursor.below_of_field? (Option.filter_eq_some_iff.1 found).1)
    fun _ => rfl) (.field fun _ => rfl)

theorem below_expression (facts : Facts) (file : SourceFile) (cursor : Cursor)
    (context : Context) (hint : Option Hint) :
    TasksBelow cursor (facts.expression file cursor context hint).2 := by
  unfold expression
  split
  · exact .nil
  · exact below_addFunction _ _ _ _ _ _
  · exact below_addFunction _ _ _ _ _ _
  · exact below_addClass _ _ _ _ _
  · exact below_addCall _ _ _ _
  · exact below_addAssignment _ _ _ _ _
  · exact below_addAssignment _ _ _ _ _
  · exact below_addUpdate _ _ _ _
  · exact below_pairTasks _ _ _
  · exact .nil
  · exact below_descend _ _

end Facts

end CodeGraph

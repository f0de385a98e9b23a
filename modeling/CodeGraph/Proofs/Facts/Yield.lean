import CodeGraph.Facts.Walk
import CodeGraph.Proofs.Facts.Extent

/-!
# What a syntax tree yields

Which nodes of the graph the nodes of a syntax tree yield, and where these belong, told from the tree
alone. A *look* is a task of the walk without its handles: in place of the node that contains new nodes
it has the id of that node (`Home`). What one look comes to is its *scheme* (`Look.scheme`): the graph
nodes that it yields, and the looks that follow. Following the looks from the statements of the module
lists all yields of a file (`SourceFile.yields`).

The walk comes by some syntax nodes twice: what an augmented assignment or an update writes is looked at
as an expression first and as a pattern `again`. The second look yields nothing that the first one has
yielded already.
-/

namespace CodeGraph

mutual

/-- Whether two trees are equal can be decided. -/
def Tree.decEq : (tree other : Tree) → Decidable (tree = other)
  | .node shape children, .node shape' children' =>
    match (inferInstance : Decidable (shape = shape')), Tree.decEqAll children children' with
    | isTrue same, isTrue alike => isTrue (by rw [same, alike])
    | isFalse differ, _ => isFalse fun same => differ (Tree.node.inj same).1
    | _, isFalse differ => isFalse fun same => differ (Tree.node.inj same).2

/-- Whether two lists of trees are equal can be decided. -/
def Tree.decEqAll : (trees others : List Tree) → Decidable (trees = others)
  | [], [] => isTrue rfl
  | [], _ :: _ => isFalse fun same => nomatch same
  | _ :: _, [] => isFalse fun same => nomatch same
  | tree :: trees, other :: others =>
    match Tree.decEq tree other, Tree.decEqAll trees others with
    | isTrue same, isTrue alike => isTrue (by rw [same, alike])
    | isFalse differ, _ => isFalse fun same => differ (List.cons.inj same).1
    | _, isFalse differ => isFalse fun same => differ (List.cons.inj same).2

end

instance : DecidableEq Tree := Tree.decEq

deriving instance DecidableEq for Cursor

/-- Where a graph node belongs: the ids of the node that contains it and of the function around it. -/
structure Home where
  container : Option String := none
  function : Option String := none
deriving DecidableEq

/-- A graph node that a syntax node yields, and where it belongs. -/
structure Yield where
  cursor : Cursor
  node : Node
  home : Home
  /-- Whether the function around returns here. -/
  returns : Bool := false
deriving DecidableEq

namespace Home

/-- Right below a node that is no function. -/
def below (home : Home) (node : Node) : Home := { home with container := some node.id }

/-- Right below a function. -/
def inside (function : Node) : Home := { container := some function.id, function := some function.id }

/-- The node of a syntax node is put where it belongs. -/
def puts (home : Home) (cursor : Cursor) (node : Node) : List Yield := [{ cursor, node, home }]

/-- The node of a syntax node at which a function returns is put where it belongs. -/
def returns (home : Home) (cursor : Cursor) (node : Node) : List Yield :=
  [{ cursor, node, home, returns := true }]

end Home

/-- A way of binding names, without the site at which it happens. -/
def BindMode.plain : BindMode → BindMode
  | declare kind _ => .declare kind 0
  | assign _ => .assign 0
  | param position rest optional hasDefault => .param position rest optional hasDefault

/-- A task of the walk without its handles. -/
inductive Look where
  | statement (cursor : Cursor) (home : Home)
  | loopHeader (cursor : Cursor) (home : Home)
  | bind (cursor : Cursor) (home : Home) (mode : BindMode)
  | expression (cursor : Cursor) (home : Home) (hint : Option Hint)

/-- A task where new nodes have a given home. -/
def Task.look (home : Home) : Task → Look
  | statement cursor _ => .statement cursor home
  | loopHeader cursor _ => .loopHeader cursor home
  | bind cursor _ mode => .bind cursor home mode.plain
  | expression cursor _ hint => .expression cursor home hint

/-- Tasks where new nodes have a given home. -/
def Home.looks (home : Home) (tasks : List Task) : List Look := tasks.map (Task.look home)

/-- A function that a look enters. -/
structure Entry where
  cursor : Cursor
  node : Node

/-- What a look comes to: the graph nodes that it yields at once, the looks that follow in the same
function, the functions that it enters, and the looks at nodes that one of those before has looked at
already. -/
structure Scheme where
  yields : List Yield := []
  next : List Look := []
  functions : List Entry := []
  again : List Look := []

namespace Facts

/-! ## The graph nodes -/

section Nodes

variable (file : SourceFile) (cursor : Cursor)

/-- The graph node of a statement. -/
def statementNode : Node := (file.nodeOf cursor .stmt none).set "kind" (.text cursor.kind)

/-- The graph node of an expression that defines a value. -/
def expressionNode : Node := (file.nodeOf cursor .expr none).set "kind" (.text cursor.kind)

/-- The graph node of a variable that is declared by a word. -/
def variableNode (word : String) : Node :=
  (file.nodeOf cursor .var (some (file.textOf cursor))).set "declarationKind" (.text word)

/-- The graph node of a variable of a class. -/
def fieldNode : Node := (variableNode file cursor "field").set "isField" (.flag true)

/-- The graph node of a parameter. -/
def paramNode (position : Nat) (rest optional hasDefault : Bool) : Node :=
  ((((file.nodeOf cursor .param (some (file.textOf cursor))).set "index" (.ofNat position)).set
    "isRest" (.flag rest)).set "isOptional" (.flag optional)).set "hasDefault" (.flag hasDefault)

end Nodes

end Facts

namespace Scheme

open Facts

variable (file : SourceFile) (cursor : Cursor) (home : Home)

/-! ## The schemes of statements -/

/-- Nothing but looks that follow, in the same home. -/
def passes (tasks : List Task) : Scheme := { next := home.looks tasks }

/-- A statement whose parts are all right below it. -/
def opens (tasks : List Task) : Scheme where
  yields := home.puts cursor (statementNode file cursor)
  next := (home.below (statementNode file cursor)).looks tasks

/-- A statement at which the function around returns. -/
def answers : Scheme where
  yields := home.returns cursor (statementNode file cursor)
  next := (home.below (statementNode file cursor)).looks (expressionTasks cursor {})

/-- The tasks of the arms of a conditional statement. -/
def armTasks : List Task :=
  fieldStatement cursor "consequence" {} ++
    (((cursor.field? "alternative").bind fun alternative =>
      if alternative.kind = "else_clause" then alternative.firstNamed? else some alternative).map
        fun body => Task.statement body {}).toList

/-- The tasks of a loop over the elements of a value. -/
def forEachTasks : List Task :=
  let mode :=
    match ["const", "let", "var"].find? cursor.hasToken with
    | some word => BindMode.declare word 0
    | none => .assign 0
  fieldExpression cursor "right" {}
    ++ ((cursor.field? "left").map fun child => Task.bind child {} mode).toList
    ++ fieldStatement cursor "body" {}

/-- The tasks of one case of a switch. -/
def caseTasks (entry : Cursor) : List Task :=
  if entry.kind = "switch_case" ∨ entry.kind = "switch_default" then
    fieldExpression entry "value" {} ++ (entry.fields "body").map fun child => .statement child {}
  else []

/-- The handler of a guarded statement: its clause contains what is caught and what is done then. -/
def handled : Scheme :=
  match cursor.field? "handler" with
  | none => {}
  | some handler =>
    { yields := home.puts handler (statementNode file handler)
      next := (home.below (statementNode file handler)).looks
        (((handler.field? "parameter").map fun param =>
            Task.bind param {} (.declare "catch" 0)).toList
          ++ fieldStatement handler "body" {}) }

/-- A guarded statement. -/
def guarded : Scheme :=
  let inner := home.below (statementNode file cursor)
  let clause := handled file cursor inner
  let cleanup := (cursor.field? "finalizer").bind fun finalizer => finalizer.field? "body"
  { yields := home.puts cursor (statementNode file cursor) ++ clause.yields
    next := inner.looks (fieldStatement cursor "body" {}) ++ clause.next
      ++ inner.looks (cleanup.map fun body => Task.statement body {}).toList }

/-! ## The schemes of functions and classes -/

/-- A function. What is inside it follows in the function itself. -/
def function (hint : Option Hint) (isMethod : Bool) : Scheme :=
  let node := functionNode file cursor (givenName file cursor hint) isMethod
    (Parameter.ofFunction cursor).length
  { yields := home.puts cursor node, functions := [{ cursor, node }] }

/-- What a member adds to the scheme of its class. -/
structure Member where
  yields : List Yield := []
  /-- The looks at what the class itself reads. -/
  own : List Look := []
  functions : List Entry := []

/-- A member that is a method. -/
def method (hint : Option Hint) : Member :=
  let scheme := function file cursor home hint true
  { yields := scheme.yields, functions := scheme.functions }

/-- A member of a class. -/
def member : Member :=
  if cursor.kind = "method_definition" ∨ cursor.kind = "abstract_method_signature" then
    method file cursor home none
  else if cursor.kind = "public_field_definition" ∨ cursor.kind = "field_definition" then
    match (cursor.field? "name").orElse fun _ => cursor.field? "property" with
    | none => {}
    | some name =>
      match cursor.field? "value" with
      | none => { yields := home.puts name (fieldNode file name) }
      | some value =>
        if isFieldFunction value then
          method file value home (some { name := file.textOf name, bindable := false })
        else
          { yields := home.puts name (fieldNode file name)
            own := home.looks [.expression value {} none] }
  else {}

/-- A class. -/
def classLike (hint : Option Hint) : Scheme :=
  let node := classNode file cursor (givenName file cursor hint)
  if cursor.kind = "enum_declaration" then { yields := home.puts cursor node }
  else
    let inner := home.below node
    let members := (((cursor.field? "body").map Cursor.named).getD []).map fun entry =>
      member file entry inner
    { yields := home.puts cursor node ++ members.flatMap Member.yields
      next := inner.looks ((extended? cursor).map fun base => Task.expression base {} none).toList
        ++ members.flatMap Member.own
      functions := members.flatMap Member.functions }

/-! ## The schemes of expressions and patterns -/

/-- A call. -/
def call : Scheme :=
  let written := callSyntax file cursor
  let node := callNode file cursor written
  { yields := home.puts cursor node
    next := (home.below node).looks
      ((written.target.map fun target => Task.expression target {} none).toList
        ++ written.arguments.map fun argument => .expression argument {} none) }

/-- An expression that defines a value. One that is returned without a statement is looked at below
itself: it is where it belongs already. -/
def defines : List Yield :=
  if home.container = some (expressionNode file cursor).id then []
  else home.puts cursor (expressionNode file cursor)

/-- An assignment. What an augmented one writes has been looked at as an expression before. -/
def assignment (augmented : Bool) : Scheme :=
  match cursor.field? "left", cursor.field? "right" with
  | some left, some right =>
    let inner := home.below (expressionNode file cursor)
    { yields := defines file cursor home
      next :=
        if augmented then inner.looks [.expression left {} none, .expression right {} none]
        else inner.looks
          [.expression right {} (assignedName? file left), .bind left {} (.assign 0)]
      again := if augmented then inner.looks [.bind left {} (.assign 0)] else [] }
  | _, _ => passes home (descend cursor {})

/-- An update. What it writes has been looked at as an expression before. -/
def update : Scheme :=
  match cursor.field? "argument" with
  | some argument =>
    let inner := home.below (expressionNode file cursor)
    { yields := defines file cursor home
      next := inner.looks [.expression argument {} none]
      again := inner.looks [.bind argument {} (.assign 0)] }
  | none => passes home (descend cursor {})

/-- A pattern. -/
def pattern (mode : BindMode) : Scheme :=
  if PatternForm.ofKind cursor.kind = .name then
    match mode with
    | .declare word _ => { yields := home.puts cursor (variableNode file cursor word) }
    | .assign _ => {}
    | .param position rest optional hasDefault =>
      { yields := home.puts cursor (paramNode file cursor position rest optional hasDefault) }
  else passes home (patternTasks cursor {} mode)

/-- An expression. -/
def expression (hint : Option Hint) : Scheme :=
  match ExpressionForm.ofKind cursor.kind with
  | .reference => {}
  | .function => function file cursor home hint false
  | .method => function file cursor home none true
  | .classLike => classLike file cursor home hint
  | .call => call file cursor home
  | .assignment => assignment file cursor home false
  | .augmented => assignment file cursor home true
  | .update => update file cursor home
  | .pair => passes home (pairTasks file cursor {})
  | .type => {}
  | .compound => passes home (descend cursor {})

/-! ## The schemes of all statements -/

/-- A statement that is one expression. A module in its place is entered. -/
def single : Scheme :=
  match cursor.firstNamed? with
  | none => {}
  | some inner =>
    if inner.kind = "internal_module" ∨ inner.kind = "module" then
      passes home (fieldStatement inner "body" {})
    else opens file cursor home [.expression inner {} none]

/-- An export: of a declaration, or of a value. -/
def exported : Scheme :=
  match cursor.field? "declaration", cursor.field? "value" with
  | some declaration, _ => passes home [.statement declaration {}]
  | none, some value => opens file cursor home [.expression value {} none]
  | none, none => {}

/-- The header of a loop. -/
def loopHeader : Scheme :=
  opens file cursor home
    (((loopCondition? cursor).map fun child => Task.expression child {} none).toList
      ++ fieldExpression cursor "increment" {} ++ fieldStatement cursor "body" {})

/-- A statement. -/
def statement : Scheme :=
  match StatementForm.ofKind cursor.kind with
  | .block => passes home (statementTasks cursor {})
  | .declaration => opens file cursor home
      (cursor.named.flatMap (declaratorTasks file {} (declarationWord cursor) 0))
  | .expression => single file cursor home
  | .returns => answers file cursor home
  | .throws => opens file cursor home (expressionTasks cursor {})
  | .conditional => opens file cursor home
      (fieldExpression cursor "condition" {} ++ armTasks cursor)
  | .forLoop => passes home
      ((((cursor.field? "initializer").filter Cursor.isNamed).map fun child =>
          Task.statement child {}).toList ++ [.loopHeader cursor {}])
  | .forEach => opens file cursor home (forEachTasks cursor)
  | .loop => opens file cursor home
      (fieldExpression cursor "condition" {} ++ fieldStatement cursor "body" {})
  | .switch => opens file cursor home
      (fieldExpression cursor "value" {} ++
        (((cursor.field? "body").map Cursor.named).getD []).flatMap caseTasks)
  | .guarded => guarded file cursor home
  | .breaks => opens file cursor home []
  | .continues => opens file cursor home []
  | .labelled => passes home (fieldStatement cursor "body" {})
  | .exported => exported file cursor home
  | .function => function file cursor home none false
  | .classLike => classLike file cursor home none
  | .module => passes home (fieldStatement cursor "body" {})
  | .faulty => passes home (statementTasks cursor {})
  | .inert => {}
  | .plain => opens file cursor home [.expression cursor {} none]

end Scheme

namespace Entry

open Facts

variable (file : SourceFile) (entry : Entry)

/-- An expression in place of the body of a function is put right below it: the function returns
there. -/
def yields : List Yield :=
  match entry.cursor.field? "body" with
  | none => []
  | some body =>
    if body.kind = "statement_block" then []
    else (Home.inside entry.node).returns body (expressionNode file body)

/-- The looks inside a function: its parameters and its body. An expression in place of the body is
looked at below itself. -/
def looks : List Look :=
  let inner := Home.inside entry.node
  inner.looks ((Parameter.ofFunction entry.cursor).zipIdx.flatMap fun param =>
      param.1.tasks {} param.2)
    ++ match entry.cursor.field? "body" with
      | none => []
      | some body =>
        if body.kind = "statement_block" then inner.looks (statementTasks body {})
        else (inner.below (expressionNode file body)).looks [.expression body {} none]

end Entry

namespace Scheme

variable (file : SourceFile) (scheme : Scheme)

/-- All graph nodes that are yielded at once. -/
def puts : List Yield := scheme.yields ++ scheme.functions.flatMap (Entry.yields file)

/-- All graph nodes that a member yields at once. -/
def Member.puts (member : Member) : List Yield :=
  member.yields ++ member.functions.flatMap (Entry.yields file)

/-- The looks that follow, but for those at nodes that have been looked at. Of several functions the last
one comes first. -/
def first : List Look := scheme.next ++ scheme.functions.reverse.flatMap (Entry.looks file)

end Scheme

namespace Look

open Facts

/-- The node at which a look is. -/
def cursor : Look → Cursor
  | statement cursor _ => cursor
  | loopHeader cursor _ => cursor
  | bind cursor _ _ => cursor
  | expression cursor _ _ => cursor

/-- Where a look puts new nodes. -/
def home : Look → Home
  | statement _ home => home
  | loopHeader _ home => home
  | bind _ home _ => home
  | expression _ home _ => home

/-- The rank of a look, which is that of a task. -/
def rank : Look → Nat
  | statement _ _ => 3
  | loopHeader _ _ => 2
  | bind _ _ _ => 1
  | expression _ _ _ => 0

/-- The weight of a look, which is that of a task. -/
def weight (look : Look) : Nat := 4 * look.cursor.size + look.rank

/-- What a look comes to. -/
def scheme (file : SourceFile) : Look → Scheme
  | statement cursor home => .statement file cursor home
  | loopHeader cursor home => .loopHeader file cursor home
  | bind cursor home mode => .pattern file cursor home mode
  | expression cursor home hint => .expression file cursor home hint

end Look

/-! ## What follows a look is lighter -/

/-- A look follows another one: it is at a node below, or at the same node with a lower rank. -/
def Look.Follows (next look : Look) : Prop :=
  next.cursor.Below look.cursor ∨ next.cursor = look.cursor ∧ next.rank < look.rank

theorem Look.Follows.weight_lt {next look : Look} (follows : next.Follows look) :
    next.weight < look.weight := by
  have : next.rank ≤ 3 := by cases next <;> simp [rank]
  unfold Look.weight
  rcases follows with below | ⟨same, less⟩
  · have := below.size_lt
    omega
  · rw [same]
    omega

/-- All looks of a list are at nodes below a node. -/
def LooksBelow (cursor : Cursor) (looks : List Look) : Prop :=
  ∀ look ∈ looks, look.cursor.Below cursor

namespace LooksBelow

variable {cursor : Cursor} {looks others : List Look}

theorem nil : LooksBelow cursor [] := fun _ none => nomatch none

theorem append (left : LooksBelow cursor looks) (right : LooksBelow cursor others) :
    LooksBelow cursor (looks ++ others) :=
  fun look inside => (List.mem_append.1 inside).elim (left look) (right look)

theorem trans {higher : Cursor} (low : LooksBelow cursor looks) (below : cursor.Below higher) :
    LooksBelow higher looks :=
  fun look inside => (low look inside).trans below

/-- Looks that come from tasks are where the tasks are. -/
theorem of_tasks {tasks : List Task} (below : TasksBelow cursor tasks) (home : Home) :
    LooksBelow cursor (home.looks tasks) := by
  intro look inside
  obtain ⟨task, there, rfl⟩ := List.mem_map.1 inside
  have same : (task.look home).cursor = task.cursor := by cases task <;> rfl
  exact same ▸ below task there

end LooksBelow

namespace Scheme

open Facts

variable {file : SourceFile} {cursor : Cursor} {home : Home}

/-- What follows in a scheme is at nodes below a node. -/
structure Below (file : SourceFile) (cursor : Cursor) (scheme : Scheme) : Prop where
  next : LooksBelow cursor scheme.next
  functions : ∀ entry ∈ scheme.functions, LooksBelow cursor (entry.looks file)
  again : LooksBelow cursor scheme.again

theorem below_empty : Below file cursor {} := ⟨.nil, List.forall_mem_nil _, .nil⟩

theorem below_passes {tasks : List Task} (below : TasksBelow cursor tasks) :
    Below file cursor (passes home tasks) := ⟨.of_tasks below home, List.forall_mem_nil _, .nil⟩

theorem below_opens {at_ : Cursor} {tasks : List Task} (below : TasksBelow cursor tasks) :
    Below file cursor (opens file at_ home tasks) := ⟨.of_tasks below _, List.forall_mem_nil _, .nil⟩

theorem below_answers : Below file cursor (answers file cursor home) :=
  ⟨.of_tasks (below_expressionTasks _ _) _, List.forall_mem_nil _, .nil⟩

theorem below_armTasks (cursor : Cursor) : TasksBelow cursor (armTasks cursor) := by
  refine .append (below_fieldStatement _ _ _) (.option (fun body found => ?_) fun _ => rfl)
  obtain ⟨alternative, held, found⟩ := Option.bind_eq_some_iff.1 found
  have low := Cursor.below_of_field? held
  split at found
  · exact (Cursor.below_of_firstNamed? found).trans low
  · exact Option.some.inj found ▸ low

theorem below_forEachTasks (cursor : Cursor) : TasksBelow cursor (forEachTasks cursor) :=
  .append (.append (below_fieldExpression _ _ _) (.field fun _ => rfl)) (below_fieldStatement _ _ _)

theorem below_caseTasks (entry : Cursor) : TasksBelow entry (caseTasks entry) := by
  unfold caseTasks
  split
  · exact .append (below_fieldExpression _ _ _)
      (.map (fun _ => Cursor.below_of_mem_fields) fun _ => rfl)
  · exact .nil

theorem below_handled : Below file cursor (handled file cursor home) := by
  unfold handled
  split
  · exact below_empty
  · next handler held =>
    have low : TasksBelow handler (((handler.field? "parameter").map fun param =>
        Task.bind param {} (.declare "catch" 0)).toList ++ fieldStatement handler "body" {}) :=
      .append (.field fun _ => rfl) (below_fieldStatement handler "body" {})
    exact ⟨(LooksBelow.of_tasks low _).trans (Cursor.below_of_field? held), List.forall_mem_nil _, .nil⟩

theorem below_guarded : Below file cursor (guarded file cursor home) := by
  refine ⟨.append (.append (.of_tasks (below_fieldStatement _ _ _) _) (@below_handled file cursor _).next)
    (.of_tasks (.option (fun body found => ?_) fun _ => rfl) _), List.forall_mem_nil _, .nil⟩
  obtain ⟨finalizer, first, second⟩ := Option.bind_eq_some_iff.1 found
  exact (Cursor.below_of_field? second).trans (Cursor.below_of_field? first)

theorem below_entry (file : SourceFile) (entry : Entry) :
    LooksBelow entry.cursor (entry.looks file) := by
  have params : TasksBelow entry.cursor
      ((Parameter.ofFunction entry.cursor).zipIdx.flatMap fun param => param.1.tasks {} param.2) := by
    intro task inside
    obtain ⟨⟨param, position⟩, there, here⟩ := List.mem_flatMap.1 inside
    have mem : param ∈ Parameter.ofFunction entry.cursor :=
      (List.mem_zipIdx' there).2 ▸ List.getElem_mem _
    exact Parameter.below_tasks (Parameter.below_of_mem_ofFunction mem) _ _ task here
  refine .append (.of_tasks params _) ?_
  split
  · exact .nil
  · next body held =>
    have low := Cursor.below_of_field? held
    split
    · exact (LooksBelow.of_tasks (below_statementTasks body {}) _).trans low
    · have returned : TasksBelow entry.cursor [.expression body {} none] := .cons low .nil
      exact .of_tasks returned _

theorem below_function (hint : Option Hint) (isMethod : Bool) :
    Below file cursor (function file cursor home hint isMethod) := by
  refine ⟨.nil, fun entry inside => ?_, .nil⟩
  obtain rfl := List.mem_singleton.1 inside
  exact below_entry file _

/-- What a member leaves to do is at nodes below a node. -/
structure Member.Below (file : SourceFile) (cursor : Cursor) (member : Member) : Prop where
  own : LooksBelow cursor member.own
  functions : ∀ entry ∈ member.functions, LooksBelow cursor (entry.looks file)

theorem below_member : (member file cursor home).Below file cursor := by
  unfold member
  split
  · exact ⟨.nil, (@below_function file cursor home none true).functions⟩
  · split
    · split
      · exact ⟨.nil, List.forall_mem_nil _⟩
      · split
        · exact ⟨.nil, List.forall_mem_nil _⟩
        · next value held =>
          have low := Cursor.below_of_field? held
          split
          · exact ⟨.nil, fun entry inside =>
              ((@below_function file value home _ true).functions entry inside).trans low⟩
          · have held : TasksBelow cursor [.expression value {} none] := .cons low .nil
            exact ⟨.of_tasks held _, List.forall_mem_nil _⟩
    · exact ⟨.nil, List.forall_mem_nil _⟩

theorem below_classLike (hint : Option Hint) :
    Below file cursor (classLike file cursor home hint) := by
  unfold classLike
  simp only
  split
  · exact ⟨.nil, List.forall_mem_nil _, .nil⟩
  · refine ⟨.append (.of_tasks (.option (fun _ => below_of_extended?) fun _ => rfl) _) ?_, ?_, .nil⟩
    · intro look inside
      obtain ⟨member, there, here⟩ := List.mem_flatMap.1 inside
      obtain ⟨entry, low, rfl⟩ := List.mem_map.1 there
      exact ((@below_member file entry _).own look here).trans (below_of_mem_named_field low)
    · intro function inside
      obtain ⟨member, there, here⟩ := List.mem_flatMap.1 inside
      obtain ⟨entry, low, rfl⟩ := List.mem_map.1 there
      exact (below_member.functions function here).trans (below_of_mem_named_field low)

theorem below_call : Below file cursor (call file cursor home) :=
  ⟨.of_tasks (.append (.field fun _ => rfl)
    (.map (fun _ => below_of_mem_named_field) fun _ => rfl)) _, List.forall_mem_nil _, .nil⟩

theorem below_assignment (augmented : Bool) :
    Below file cursor (assignment file cursor home augmented) := by
  unfold assignment
  split
  · next left right heldLeft heldRight =>
    have low := Cursor.below_of_field? heldLeft
    have also := Cursor.below_of_field? heldRight
    have written : TasksBelow cursor [.bind left {} (.assign 0)] := .cons low .nil
    cases augmented with
    | true =>
      have both : TasksBelow cursor [.expression left {} none, .expression right {} none] :=
        .cons low (.cons also .nil)
      exact ⟨.of_tasks both _, List.forall_mem_nil _, .of_tasks written _⟩
    | false =>
      have both : TasksBelow cursor [.expression right {} (assignedName? file left),
        .bind left {} (.assign 0)] := .cons also written
      exact ⟨.of_tasks both _, List.forall_mem_nil _, .nil⟩
  · exact below_passes (below_descend _ _)

theorem below_update : Below file cursor (update file cursor home) := by
  unfold update
  split
  · next argument held =>
    have low := Cursor.below_of_field? held
    have read : TasksBelow cursor [.expression argument {} none] := .cons low .nil
    have written : TasksBelow cursor [.bind argument {} (.assign 0)] := .cons low .nil
    exact ⟨.of_tasks read _, List.forall_mem_nil _, .of_tasks written _⟩
  · exact below_passes (below_descend _ _)

theorem below_single : Below file cursor (single file cursor home) := by
  unfold single
  split
  · exact below_empty
  · next held =>
    have low := Cursor.below_of_firstNamed? held
    split
    · exact below_passes ((below_fieldStatement _ _ _).trans low)
    · exact below_opens (.cons low .nil)

theorem below_exported : Below file cursor (exported file cursor home) := by
  unfold exported
  split
  · next held => exact below_passes (.cons (Cursor.below_of_field? held) .nil)
  · next held => exact below_opens (.cons (Cursor.below_of_field? held) .nil)
  · exact below_empty

theorem below_loopHeader : Below file cursor (loopHeader file cursor home) :=
  below_opens (.append (.append (.option (fun _ => below_of_loopCondition?) fun _ => rfl)
    (below_fieldExpression _ _ _)) (below_fieldStatement _ _ _))

/-- All looks of a scheme follow a look. -/
def Follows (file : SourceFile) (scheme : Scheme) (look : Look) : Prop :=
  ∀ next ∈ scheme.first file ++ scheme.again, next.Follows look

theorem Below.follows {scheme : Scheme} (look : Look) (below : Below file look.cursor scheme) :
    scheme.Follows file look := by
  refine fun next inside => .inl (LooksBelow.append (.append below.next ?_) below.again next inside)
  intro next inside
  obtain ⟨entry, there, here⟩ := List.mem_flatMap.1 inside
  exact below.functions entry (List.mem_reverse.1 there) next here

/-- Looks that come from tasks follow as the tasks do. -/
theorem follows_of_tasks {tasks : List Task} (task : Task) (around : Home)
    (follow : ∀ next ∈ tasks, next.Follows task) :
    (passes home tasks).Follows file (task.look around) := by
  unfold Follows first
  rw [passes, List.reverse_nil, List.flatMap_nil, List.append_nil, List.append_nil]
  intro look inside
  obtain ⟨next, there, rfl⟩ := List.mem_map.1 inside
  have same : ∀ (home : Home) (task : Task), (task.look home).cursor = task.cursor ∧
      (task.look home).rank = task.rank := by
    intro home task
    cases task <;> exact ⟨rfl, rfl⟩
  unfold Look.Follows
  rw [(same home next).1, (same home next).2, (same around task).1, (same around task).2]
  exact follow next there

end Scheme

namespace Look

open Facts Scheme

theorem follows_statement (file : SourceFile) (cursor : Cursor) (home : Home) :
    (Scheme.statement file cursor home).Follows file (.statement cursor home) := by
  have below : ∀ {scheme : Scheme}, Scheme.Below file cursor scheme →
      scheme.Follows file (.statement cursor home) := Below.follows (.statement cursor home)
  unfold Scheme.statement
  split
  · exact below (below_passes (below_statementTasks _ _))
  · refine below (below_opens fun task inside => ?_)
    obtain ⟨declarator, there, here⟩ := List.mem_flatMap.1 inside
    exact (below_declaratorTasks _ _ _ _ _ task here).trans (Cursor.below_of_mem_named there)
  · exact below below_single
  · exact below below_answers
  · exact below (below_opens (below_expressionTasks _ _))
  · exact below (below_opens (.append (below_fieldExpression _ _ _) (below_armTasks _)))
  · refine follows_of_tasks (.statement cursor {}) home fun next inside => ?_
    rcases List.mem_append.1 inside with first | last
    · obtain ⟨child, held, rfl⟩ := Option.map_eq_some_iff.1 (Option.mem_toList.1 first)
      exact .inl (Cursor.below_of_field? (Option.filter_eq_some_iff.1 held).1)
    · obtain rfl := List.mem_singleton.1 last
      exact .inr ⟨rfl, Nat.lt_succ_self 2⟩
  · exact below (below_opens (below_forEachTasks _))
  · exact below (below_opens (.append (below_fieldExpression _ _ _) (below_fieldStatement _ _ _)))
  · refine below (below_opens (.append (below_fieldExpression _ _ _) fun task inside => ?_))
    obtain ⟨entry, there, here⟩ := List.mem_flatMap.1 inside
    exact (below_caseTasks entry task here).trans (below_of_mem_named_field there)
  · exact below below_guarded
  · exact below (below_opens .nil)
  · exact below (below_opens .nil)
  · exact below (below_passes (below_fieldStatement _ _ _))
  · exact below below_exported
  · exact below (below_function _ _)
  · exact below (below_classLike _)
  · exact below (below_passes (below_fieldStatement _ _ _))
  · exact below (below_passes (below_statementTasks _ _))
  · exact below below_empty
  · refine follows_of_tasks (.statement cursor {}) home fun next inside => ?_
    obtain rfl := List.mem_singleton.1 inside
    exact .inr ⟨rfl, Nat.zero_lt_succ 2⟩

theorem follows_expression (file : SourceFile) (cursor : Cursor) (home : Home)
    (hint : Option Hint) :
    (Scheme.expression file cursor home hint).Follows file (.expression cursor home hint) := by
  have below : ∀ {scheme : Scheme}, Scheme.Below file cursor scheme →
      scheme.Follows file (.expression cursor home hint) :=
    Below.follows (.expression cursor home hint)
  unfold Scheme.expression
  split
  · exact below below_empty
  · exact below (below_function _ _)
  · exact below (below_function _ _)
  · exact below (below_classLike _)
  · exact below below_call
  · exact below (below_assignment _)
  · exact below (below_assignment _)
  · exact below below_update
  · exact below (below_passes (below_pairTasks _ _ _))
  · exact below below_empty
  · exact below (below_passes (below_descend _ _))

/-- What a look comes to follows it. -/
theorem scheme_follows (file : SourceFile) (look : Look) : (look.scheme file).Follows file look := by
  cases look with
  | statement cursor home => exact follows_statement file cursor home
  | loopHeader cursor home => exact Below.follows (.loopHeader cursor home) below_loopHeader
  | bind cursor home mode =>
    change (Scheme.pattern file cursor home mode).Follows file _
    unfold Scheme.pattern
    split
    · cases mode <;> exact fun _ none => nomatch none
    · next other =>
      refine follows_of_tasks (.bind cursor {} mode) home fun next inside => ?_
      refine @follows_of_mem_bind {} file cursor {} mode next ?_
      rw [Facts.bind, if_neg other]
      exact inside
  | expression cursor home hint => exact follows_expression file cursor home hint

theorem weight_lt_of_mem_first {file : SourceFile} {look next : Look}
    (inside : next ∈ (look.scheme file).first file) : next.weight < look.weight :=
  (scheme_follows file look next (List.mem_append_left _ inside)).weight_lt

theorem weight_lt_of_mem_again {file : SourceFile} {look next : Look}
    (inside : next ∈ (look.scheme file).again) : next.weight < look.weight :=
  (scheme_follows file look next (List.mem_append_right _ inside)).weight_lt

/-! ## All yields -/

/-- All graph nodes that a look yields, and the looks that follow it. A second look at a node adds what
the first one has not yielded. -/
def yields (file : SourceFile) (look : Look) : List Yield :=
  let first := ((look.scheme file).first file).attach.flatMap fun next => yields file next.1
  let second := (look.scheme file).again.attach.flatMap fun next => yields file next.1
  (look.scheme file).puts file ++ first ++ second.filter fun yield => yield ∉ first
termination_by look.weight
decreasing_by
  · exact weight_lt_of_mem_first next.2
  · exact weight_lt_of_mem_again next.2

/-- What a look yields, it yields at once, or a look that follows does. -/
theorem mem_yields {file : SourceFile} {look : Look} {yield : Yield} :
    yield ∈ look.yields file ↔ yield ∈ (look.scheme file).puts file ∨
      ∃ next ∈ (look.scheme file).first file ++ (look.scheme file).again,
        yield ∈ next.yields file := by
  rw [yields]
  simp only [List.mem_append, List.mem_filter, List.mem_flatMap, List.mem_attach, true_and,
    Subtype.exists, decide_eq_true_eq]
  constructor
  · rintro ((here | ⟨next, inside, there⟩) | ⟨⟨next, inside, there⟩, -⟩)
    · exact .inl here
    · exact .inr ⟨next, .inl inside, there⟩
    · exact .inr ⟨next, .inr inside, there⟩
  · rintro (here | ⟨next, inside | inside, there⟩)
    · exact .inl (.inl here)
    · exact .inl (.inr ⟨next, inside, there⟩)
    · by_cases before : ∃ next, ∃ _ : next ∈ (look.scheme file).first file, yield ∈ next.yields file
      · exact .inl (.inr before)
      · exact .inr ⟨⟨next, inside, there⟩, before⟩

end Look

/-- All graph nodes that the syntax nodes of a file yield: each syntax node yields at most one node of a
kind. -/
def SourceFile.yields (file : SourceFile) : List Yield :=
  (({} : Home).looks (Facts.statementTasks { tree := file.tree } {})).flatMap (Look.yields file)

/-- Different syntax nodes that yield graph nodes of one kind cover different bytes. -/
def SourceFile.Apart (file : SourceFile) : Prop :=
  (file.yields.map fun yield =>
    (yield.node.kind, yield.cursor.start, yield.cursor.stop)).Nodup

instance (file : SourceFile) : Decidable file.Apart :=
  inferInstanceAs (Decidable (List.Nodup _))

end CodeGraph

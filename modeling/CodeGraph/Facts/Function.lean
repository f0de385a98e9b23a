import CodeGraph.Facts.Task

/-!
# Functions and classes

What the walk does with a function: it adds the node, a scope and a region, and goes on with the
parameters and the body. A class adds its methods at once, one after the other, and leaves their
insides for later; what the class itself reads comes before the insides of the methods, and those of
the last method first.
-/

namespace CodeGraph

/-- A parameter of a function: its pattern, its default, and how it was written. -/
structure Parameter where
  pattern : Cursor
  fallback : Option Cursor := none
  rest : Bool := false
  optional : Bool := false

namespace Parameter

/-- The parameter that an entry of a parameter list stands for, if any. -/
def ofEntry? (entry : Cursor) : Option Parameter :=
  match entry.kind with
  | "required_parameter" => ofTyped? entry false
  | "optional_parameter" => ofTyped? entry true
  | "assignment_pattern" => (entry.field? "left").map fun pattern =>
      { pattern, fallback := entry.field? "right" }
  | "rest_pattern" => entry.firstNamed?.map fun pattern => { pattern, rest := true }
  | "identifier" => some { pattern := entry }
  | "object_pattern" => some { pattern := entry }
  | "array_pattern" => some { pattern := entry }
  | _ => none
where
  /-- A parameter that can have a type. One that is called `this` is no parameter. -/
  ofTyped? (entry : Cursor) (optional : Bool) : Option Parameter :=
    match entry.field? "pattern" with
    | none => none
    | some pattern =>
      if pattern.kind = "this" then none
      else if pattern.kind = "rest_pattern" then
        pattern.firstNamed?.map fun inner =>
          { pattern := inner, fallback := entry.field? "value", rest := true, optional }
      else some { pattern, fallback := entry.field? "value", optional }

/-- The parameters of a function. -/
def ofFunction (cursor : Cursor) : List Parameter :=
  match cursor.field? "parameter" with
  | some single => [{ pattern := single }]
  | none =>
    match cursor.field? "parameters" with
    | some list => list.named.filterMap ofEntry?
    | none => []

/-- The tasks for a parameter at a position: first its default, then its pattern. -/
def tasks (context : Context) (position : Nat) (param : Parameter) : List Task :=
  (param.fallback.map fun cursor => Task.expression cursor context none).toList
    ++ [.bind param.pattern context
        (.param position param.rest param.optional param.fallback.isSome)]

end Parameter

namespace Facts

/-- The graph node of a function. -/
def functionNode (file : SourceFile) (cursor : Cursor) (name : Option String) (isMethod : Bool)
    (paramCount : Nat) : Node :=
  let node := ((((file.nodeOf cursor .func name).set
    "isAsync" (.flag (cursor.hasToken "async"))).set
    "isArrow" (.flag (cursor.kind == "arrow_function"))).set
    "isGenerator" (.flag (cursor.kind.startsWith "generator" || cursor.hasToken "*"))).set
    "isMethod" (.flag isMethod)
  let node := node.set "paramCount" (.ofNat paramCount)
  if isMethod then node.set "isStatic" (.flag (cursor.hasToken "static")) else node

/-- Declare a function where it can be called by name: a declaration in the scope around it, a named
function expression inside itself, and one that is bound to a name around it; a method nowhere. -/
def declareFunction (facts : Facts) (cursor : Cursor) (around inside : Nat)
    (ownName : Option String) (hint : Option Hint) (isMethod : Bool) (node : Nat) : Facts :=
  let isDeclaration := cursor.kind == "function_declaration"
    || cursor.kind == "generator_function_declaration"
  match ownName, hint with
  | some name, _ =>
    if isDeclaration then
      { facts with scopes := facts.scopes.declareFunction around name node }
    else if isMethod then facts
    else { facts with scopes := facts.scopes.declareFunction inside name node }
  | none, some hint =>
    if hint.bindable && !isMethod then
      { facts with scopes := facts.scopes.declareFunction around hint.name node }
    else facts
  | none, none => facts

/-- Add the region and the fact of a function. -/
def pushFunction (facts : Facts) (node : Nat) (name : Option String) (isMethod : Bool) :
    Facts × (Nat × Nat) :=
  ({ facts with
      regions := facts.regions.push { owner := some node }
      functions := facts.functions.push { node, name, isMethod }
      functionIndex := facts.functionIndex.insert node facts.functions.size },
   (facts.regions.size, facts.functions.size))

/-- Add the body of a function. An expression instead of a block is a statement that returns its
value. -/
def functionBody (facts : Facts) (file : SourceFile) (cursor : Cursor) (inner : Context) :
    Facts × List Task :=
  match cursor.field? "body" with
  | none => (facts, [])
  | some body =>
    if body.kind = "statement_block" then
      (facts, body.named.map fun statement => .statement statement inner)
    else
      let placed := facts.openExpression file body inner
      let pushed := placed.1.pushStatement inner placed.2 .returns
      (pushed.1.recordReturn inner.function placed.2,
        [.expression body { inner.atSite placed.2 with statement := some pushed.2 } none])

/-- A function that was just entered: the facts, the context inside it, and its node. -/
structure Entered where
  facts : Facts
  inner : Context
  node : Nat

/-- Add a function without what is inside it: its node, its scope, its name, its region and its
fact. -/
def enterFunction (facts : Facts) (file : SourceFile) (cursor : Cursor) (context : Context)
    (hint : Option Hint) (isMethod : Bool) : Entered :=
  let ownName := (cursor.field? "name").map file.textOf
  let name := ownName.orElse fun _ => hint.map Hint.name
  let placed := facts.place
    (functionNode file cursor name isMethod (Parameter.ofFunction cursor).length) context.parent
  let opened := placed.1.pushScope context.scope true
  let declared :=
    opened.1.declareFunction cursor context.scope opened.2 ownName hint isMethod placed.2
  let pushed := declared.pushFunction placed.2 name isMethod
  { facts := pushed.1
    inner :=
      { region := pushed.2.1
        scope := opened.2
        site := some placed.2
        parent := some placed.2
        function := some pushed.2.2 }
    node := placed.2 }

/-- What remains of a function that was just added: the facts, what is still to do, and its node. -/
structure Added where
  facts : Facts
  tasks : List Task
  node : Nat

/-- Look at a function. -/
def addFunction (facts : Facts) (file : SourceFile) (cursor : Cursor) (context : Context)
    (hint : Option Hint) (isMethod : Bool) : Added :=
  let entered := facts.enterFunction file cursor context hint isMethod
  let body := entered.facts.functionBody file cursor entered.inner
  { facts := body.1
    tasks := (Parameter.ofFunction cursor).zipIdx.flatMap
        (fun entry => entry.1.tasks entered.inner entry.2) ++ body.2
    node := entered.node }

/-- The expression that a class extends, if any. -/
def extended? (cursor : Cursor) : Option Cursor := do
  let heritage ← cursor.named.find? fun child => child.kind == "class_heritage"
  let clause ← heritage.named.find? fun clause => clause.kind != "implements_clause"
  if clause.kind = "extends_clause" then
    (clause.field? "value").orElse fun _ => clause.firstNamed?
  else some clause

/-- A class that is being added: the facts, the tasks of the class itself, and the tasks of its
methods. -/
structure Adding where
  facts : Facts
  own : List Task := []
  /-- The tasks of the methods, those of the last method first. -/
  methods : List Task := []

/-- Add a method to a class. -/
def Adding.method (adding : Adding) (file : SourceFile) (member : Cursor) (context : Context)
    (hint : Option Hint) (number : Nat) : Adding :=
  let added := adding.facts.addFunction file member context hint true
  { adding with
    facts := { added.facts with
      classes := added.facts.classes.modify number fun fact =>
        { fact with methods := fact.methods.push added.node } }
    methods := added.tasks ++ adding.methods }

/-- Add a field that holds no function: a variable that the class defines. -/
def Adding.field (adding : Adding) (file : SourceFile) (name : Cursor) (value : Option Cursor)
    (context : Context) (node : Nat) : Adding :=
  let variableNode := ((file.nodeOf name .var (some (file.textOf name))).set
    "declarationKind" (.text "field")).set "isField" (.flag true)
  let placed := adding.facts.place variableNode (some node)
  let facts := { placed.1 with
    regionOf := placed.1.regionOf.insert placed.2 context.region }
  { adding with
    facts := facts.record context { kind := .write, binding := .node placed.2, site := node }
    own := adding.own ++ (value.map fun cursor => Task.expression cursor context none).toList }

/-- Whether a node is a function that a field can hold as a method. -/
def isFieldFunction (cursor : Cursor) : Bool :=
  ["arrow_function", "function_expression", "function"].contains cursor.kind

/-- Add a member of a class. -/
def Adding.member (file : SourceFile) (context : Context) (number node : Nat) (adding : Adding)
    (member : Cursor) : Adding :=
  if member.kind = "method_definition" ∨ member.kind = "abstract_method_signature" then
    adding.method file member context none number
  else if member.kind = "public_field_definition" ∨ member.kind = "field_definition" then
    match (member.field? "name").orElse fun _ => member.field? "property" with
    | none => adding
    | some name =>
      match member.field? "value" with
      | none => adding.field file name none context node
      | some value =>
        if isFieldFunction value then
          adding.method file value context
            (some { name := file.textOf name, bindable := false }) number
        else adding.field file name (some value) context node
  else adding

/-- The graph node of a class. -/
def classNode (file : SourceFile) (cursor : Cursor) (name : Option String) : Node :=
  let node := ((file.nodeOf cursor .cls name).set
    "isAbstract" (.flag (cursor.kind == "abstract_class_declaration"))).set
    "isEnum" (.flag (cursor.kind == "enum_declaration"))
  match extended? cursor with
  | some base => node.set "extends" (.text (compact (file.textOf base)))
  | none => node

/-- Look at a class. -/
def addClass (facts : Facts) (file : SourceFile) (cursor : Cursor) (context : Context)
    (hint : Option Hint) : Facts × List Task :=
  let name := ((cursor.field? "name").map file.textOf).orElse fun _ => hint.map Hint.name
  let placed := facts.place (classNode file cursor name) context.parent
  let facts := { placed.1 with classes := placed.1.classes.push { name } }
  -- The members of an enumeration are no code.
  if cursor.kind = "enum_declaration" then (facts, [])
  else
    let inner := context.atSite placed.2
    let number := placed.1.classes.size
    let base := ((extended? cursor).map fun base => Task.expression base inner none).toList
    let members := ((cursor.field? "body").map Cursor.named).getD []
    let added := members.foldl (Adding.member file inner number placed.2) { facts }
    (added.facts, base ++ added.own ++ added.methods)

/-! ## What is left to do is about nodes below -/

end Facts

namespace Parameter

/-- The parts of a parameter lie below a node. -/
def Below (cursor : Cursor) (param : Parameter) : Prop :=
  param.pattern.Below cursor ∧ ∀ fallback, param.fallback = some fallback → fallback.Below cursor

theorem below_of_ofEntry? {cursor entry : Cursor} {param : Parameter} (below : entry.Below cursor)
    (found : ofEntry? entry = some param) : param.Below cursor := by
  have typed : ∀ optional, ofEntry?.ofTyped? entry optional = some param → param.Below cursor := by
    intro optional found
    unfold ofEntry?.ofTyped? at found
    split at found
    · simp at found
    · rename_i pattern held
      have low := (Cursor.below_of_field? held).trans below
      split at found
      · simp at found
      · split at found
        · obtain ⟨inner, first, rfl⟩ := Option.map_eq_some_iff.1 found
          exact ⟨(Cursor.below_of_firstNamed? first).trans low,
            fun fallback given => (Cursor.below_of_field? given).trans below⟩
        · obtain rfl := Option.some.inj found
          exact ⟨low, fun fallback given => (Cursor.below_of_field? given).trans below⟩
  unfold ofEntry? at found
  split at found
  · exact typed _ found
  · exact typed _ found
  · obtain ⟨pattern, held, rfl⟩ := Option.map_eq_some_iff.1 found
    exact ⟨(Cursor.below_of_field? held).trans below,
      fun fallback given => (Cursor.below_of_field? given).trans below⟩
  · obtain ⟨pattern, held, rfl⟩ := Option.map_eq_some_iff.1 found
    exact ⟨(Cursor.below_of_firstNamed? held).trans below, by simp⟩
  · obtain rfl := Option.some.inj found
    exact ⟨below, by simp⟩
  · obtain rfl := Option.some.inj found
    exact ⟨below, by simp⟩
  · obtain rfl := Option.some.inj found
    exact ⟨below, by simp⟩
  · simp at found

theorem below_of_mem_ofFunction {cursor : Cursor} {param : Parameter}
    (inside : param ∈ ofFunction cursor) : param.Below cursor := by
  unfold ofFunction at inside
  split at inside
  · rename_i single held
    obtain rfl := List.mem_singleton.1 inside
    exact ⟨Cursor.below_of_field? held, by simp⟩
  · split at inside
    · rename_i list held
      obtain ⟨entry, there, found⟩ := List.mem_filterMap.1 inside
      exact below_of_ofEntry?
        ((Cursor.below_of_mem_named there).trans (Cursor.below_of_field? held)) found
    · simp at inside

theorem below_tasks {cursor : Cursor} {param : Parameter} (below : param.Below cursor)
    (context : Context) (position : Nat) : TasksBelow cursor (param.tasks context position) :=
  .append (.option below.2 fun _ => rfl) (.cons below.1 .nil)

end Parameter

namespace Facts

/-- What fills a place inside a field lies below the node. -/
theorem below_of_mem_named_field {cursor child : Cursor} {name : String}
    (inside : child ∈ ((cursor.field? name).map Cursor.named).getD []) : child.Below cursor := by
  cases held : cursor.field? name with
  | none => simp [held] at inside
  | some list =>
    simp only [held, Option.map_some, Option.getD_some] at inside
    exact (Cursor.below_of_mem_named inside).trans (Cursor.below_of_field? held)

theorem below_functionBody (facts : Facts) (file : SourceFile) (cursor : Cursor)
    (inner : Context) : TasksBelow cursor (facts.functionBody file cursor inner).2 := by
  unfold functionBody
  split
  · exact .nil
  · rename_i body held
    have low := Cursor.below_of_field? held
    split
    · exact .map (fun child inside => (Cursor.below_of_mem_named inside).trans low) fun _ => rfl
    · exact .cons low .nil

theorem below_addFunction (facts : Facts) (file : SourceFile) (cursor : Cursor)
    (context : Context) (hint : Option Hint) (isMethod : Bool) :
    TasksBelow cursor (facts.addFunction file cursor context hint isMethod).tasks := by
  refine .append ?_ (below_functionBody _ _ _ _)
  intro task inside
  obtain ⟨⟨param, position⟩, there, here⟩ := List.mem_flatMap.1 inside
  have := List.mem_zipIdx' there
  have mem : param ∈ Parameter.ofFunction cursor := this.2 ▸ List.getElem_mem _
  exact Parameter.below_tasks (Parameter.below_of_mem_ofFunction mem) _ _ task here

theorem below_of_extended? {cursor base : Cursor} (found : extended? cursor = some base) :
    base.Below cursor := by
  simp only [extended?, Option.bind_eq_bind, Option.bind_eq_some_iff] at found
  obtain ⟨heritage, first, clause, second, found⟩ := found
  have low : clause.Below cursor :=
    (Cursor.below_of_mem_named (List.mem_of_find?_eq_some second)).trans
      (Cursor.below_of_mem_named (List.mem_of_find?_eq_some first))
  split at found
  · cases held : clause.field? "value" with
    | some value =>
      simp only [held, Option.orElse_some, Option.some.injEq] at found
      exact found ▸ (Cursor.below_of_field? held).trans low
    | none =>
      simp only [held, Option.orElse_none] at found
      exact (Cursor.below_of_firstNamed? found).trans low
  · obtain rfl := Option.some.inj found
    exact low

/-- All that is left to do for a class is about nodes below a node. -/
def Adding.Below (cursor : Cursor) (adding : Adding) : Prop :=
  TasksBelow cursor adding.own ∧ TasksBelow cursor adding.methods

theorem Adding.below_method {adding : Adding} {cursor : Cursor} (below : adding.Below cursor)
    {file : SourceFile} {member : Cursor} {context : Context} {hint : Option Hint} {number : Nat}
    (low : member.Below cursor) : (adding.method file member context hint number).Below cursor :=
  ⟨below.1, .append ((below_addFunction _ _ _ _ _ _).trans low) below.2⟩

theorem Adding.below_field {adding : Adding} {cursor : Cursor} (below : adding.Below cursor)
    {file : SourceFile} {name : Cursor} {value : Option Cursor} {context : Context} {node : Nat}
    (low : ∀ child, value = some child → child.Below cursor) :
    (adding.field file name value context node).Below cursor :=
  ⟨.append below.1 (.option low fun _ => rfl), below.2⟩

theorem Adding.below_member {adding : Adding} {cursor : Cursor} (below : adding.Below cursor)
    {file : SourceFile} {member : Cursor} {context : Context} {number node : Nat}
    (low : member.Below cursor) : (adding.member file context number node member).Below cursor := by
  unfold Adding.member
  split
  · exact Adding.below_method below low
  · split
    · split
      · exact below
      · split
        · exact Adding.below_field below (by simp)
        · rename_i value held
          have lower := (Cursor.below_of_field? held).trans low
          split
          · exact Adding.below_method below lower
          · exact Adding.below_field below fun child given => Option.some.inj given ▸ lower
    · exact below

theorem below_addClass (facts : Facts) (file : SourceFile) (cursor : Cursor)
    (context : Context) (hint : Option Hint) :
    TasksBelow cursor (facts.addClass file cursor context hint).2 := by
  unfold addClass
  split
  · exact .nil
  · have all : ∀ (list : List Cursor) (adding : Adding) (inner : Context) (number node : Nat),
        (∀ member ∈ list, member.Below cursor) → adding.Below cursor →
          (list.foldl (Adding.member file inner number node) adding).Below cursor := by
      intro list
      induction list with
      | nil => intro adding _ _ _ _ below; exact below
      | cons head rest ih =>
        intro adding inner number node low below
        exact ih _ _ _ _ (fun member there => low member (List.mem_cons_of_mem _ there))
          (Adding.below_member below (low head List.mem_cons_self))
    obtain ⟨own, methods⟩ :=
      all _ { facts := _ } _ _ _ (fun _ => below_of_mem_named_field) ⟨.nil, .nil⟩
    exact .append (.append (.option (fun _ => below_of_extended?) fun _ => rfl) own) methods

end Facts

end CodeGraph

import CodeGraph.Facts.Task

/-!
# Patterns

What the walk does with a pattern: it goes down to the names, and declares or writes each. A default
inside a pattern is read before its name is bound, and a property that is written is read as an
expression.
-/

namespace CodeGraph

namespace Facts

/-- Declare a variable under a name. The words of a declaration decide its scope: `var` goes to the
nearest scope that hoists. -/
def declare (facts : Facts) (file : SourceFile) (cursor : Cursor) (context : Context)
    (kind : String) (site : Nat) : Facts :=
  let name := file.textOf cursor
  let node := (file.nodeOf cursor .var (some name)).set "declarationKind" (.text kind)
  let placed := facts.place node context.parent
  let facts := placed.1
  let scope := if kind = "var" then facts.scopes.hoistTarget context.scope else context.scope
  let facts := { facts with
    scopes := facts.scopes.declareVariable scope name placed.2
    regionOf := facts.regionOf.insert placed.2 context.region }
  facts.record context { kind := .write, binding := .node placed.2, site }

/-- Declare a parameter under a name. -/
def declareParam (facts : Facts) (file : SourceFile) (cursor : Cursor) (context : Context)
    (position : Nat) (rest optional hasDefault : Bool) : Facts :=
  let name := file.textOf cursor
  let node := (((file.nodeOf cursor .param (some name)).set "index" (.ofNat position)).set
    "isRest" (.flag rest)).set "isOptional" (.flag optional)
  let placed := facts.place (node.set "hasDefault" (.flag hasDefault)) context.parent
  let facts := placed.1
  { facts with
    scopes := facts.scopes.declareVariable context.scope name placed.2
    regionOf := facts.regionOf.insert placed.2 context.region
    regions := facts.regions.modify context.region fun region =>
      { region with params := region.params.push placed.2 }
    functions :=
      match context.function with
      | some number => facts.functions.modify number fun fact =>
          { fact with params := fact.params.push (position, placed.2) }
      | none => facts.functions }

/-- Bind a name. -/
def bindName (facts : Facts) (file : SourceFile) (cursor : Cursor) (context : Context) :
    BindMode → Facts
  | .declare kind site => facts.declare file cursor context kind site
  | .param position rest optional hasDefault =>
    facts.declareParam file cursor context position rest optional hasDefault
  | .assign site =>
    facts.record context
      { kind := .write, binding := .name (file.textOf cursor) context.scope, site }

/-- The tasks that a pattern comes down to, unless it is a name. -/
def patternTasks (cursor : Cursor) (context : Context) (mode : BindMode) : List Task :=
  match PatternForm.ofKind cursor.kind with
  | .group => cursor.named.map fun child => .bind child context mode
  | .pair => ((cursor.field? "value").map fun child => .bind child context mode).toList
  | .defaulted =>
    ((cursor.field? "right").map fun child => .expression child context none).toList
      ++ ((cursor.field? "left").map fun child => .bind child context mode).toList
  | .wrapped => (cursor.firstNamed?.map fun child => .bind child context mode).toList
  | .property => [.expression cursor context none]
  | .name => []
  | .other => []

/-- Look at a pattern. -/
def bind (facts : Facts) (file : SourceFile) (cursor : Cursor) (context : Context)
    (mode : BindMode) : Facts × List Task :=
  if PatternForm.ofKind cursor.kind = .name then (facts.bindName file cursor context mode, [])
  else (facts, patternTasks cursor context mode)

theorem follows_of_mem_bind {facts : Facts} {file : SourceFile} {cursor : Cursor}
    {context : Context} {mode : BindMode} {task : Task}
    (inside : task ∈ (facts.bind file cursor context mode).2) :
    task.Follows (.bind cursor context mode) := by
  have below : ∀ {tasks : List Task}, TasksBelow cursor tasks → task ∈ tasks →
      task.Follows (.bind cursor context mode) := fun low there => .inl (low task there)
  unfold bind at inside
  split at inside
  · simp at inside
  · simp only [patternTasks] at inside
    split at inside
    · exact below (.map (fun _ => Cursor.below_of_mem_named) fun _ => rfl) inside
    · exact below (.field fun _ => rfl) inside
    · exact below (.append (.field fun _ => rfl) (.field fun _ => rfl)) inside
    · exact below (.option (fun _ => Cursor.below_of_firstNamed?) fun _ => rfl) inside
    · obtain rfl := List.mem_singleton.1 inside
      exact .inr ⟨rfl, Nat.zero_lt_one⟩
    · simp at inside
    · simp at inside

end Facts

end CodeGraph

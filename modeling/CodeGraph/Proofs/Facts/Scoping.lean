import CodeGraph.Proofs.Facts.ChartStep
import CodeGraph.Proofs.Facts.Steady

/-!
# What names stand for

Scopes declare variables only where the walk comes to a name that is bound (`Facts.variableIn?_step`), and
then in the scopes of the body in which it is (`BindMode.hoistTarget_scope`).
-/

namespace CodeGraph

open Facts in
/-- The graph node of the variable or parameter that a name declares when it is bound. -/
def BindMode.node? (file : SourceFile) (cursor : Cursor) : BindMode → Option Node
  | declare word _ => some (variableNode file cursor word)
  | assign _ => none
  | param position rest optional hasDefault =>
    some (paramNode file cursor position rest optional hasDefault)

/-- The scope in which a name is declared when it is bound. -/
def BindMode.scope (scopes : Scopes) (around : Nat) : BindMode → Nat
  | declare word _ => if word = "var" then scopes.hoistTarget around else around
  | assign _ => around
  | param _ _ _ _ => around

/-- Names are declared in scopes of the body in which they are bound. -/
theorem BindMode.hoistTarget_scope {scopes : Scopes} {around : Nat}
    (there : around < scopes.list.size) (mode : BindMode) :
    mode.scope scopes around < scopes.list.size ∧
      scopes.hoistTarget (mode.scope scopes around) = scopes.hoistTarget around := by
  cases mode with
  | declare word site =>
    rw [scope]
    split
    · exact ⟨Scopes.hoistTarget_lt there, Scopes.hoistTarget_hoistTarget there⟩
    · exact ⟨there, rfl⟩
  | assign site => exact ⟨there, rfl⟩
  | param position rest optional hasDefault => exact ⟨there, rfl⟩

/-- What a task declares: it binds a name, and there is a node for that. -/
def Task.declares? (file : SourceFile) : Task → Option (Cursor × Context × BindMode × Node)
  | bind cursor context mode =>
    if PatternForm.ofKind cursor.kind = .name then
      (mode.node? file cursor).map fun node => (cursor, context, mode, node)
    else none
  | _ => none

namespace Facts

variable {file : SourceFile} {facts : Facts} {task : Task}

/-- The variables that scopes declare. -/
def tables (facts : Facts) : Nat → String → Option Nat := facts.scopes.variableIn?

theorem steady_tables : Steady tables where
  place := fun _ _ _ => rfl
  record := fun _ _ _ => rfl
  pushScope := fun _ _ _ => Scopes.variableIn?_push _ _ _
  pushStatement := fun _ _ _ _ => by
    rw [pushStatement_eq]
    rfl
  pushArm := fun _ _ _ _ => by
    rw [pushArm_eq]
    rfl
  recordReturn := fun _ function _ => by cases function <;> rfl

section Functions

variable (facts : Facts) (cursor : Cursor) (context : Context) (hint : Option Hint)

theorem tables_declareFunction (around inside : Nat) (ownName : Option String) (isMethod : Bool)
    (node : Nat) :
    (facts.declareFunction cursor around inside ownName hint isMethod node).tables =
      facts.tables := by
  unfold Facts.declareFunction
  simp only
  repeat' split
  all_goals first | rfl | exact Scopes.variableIn?_declareFunction _ _ _ _

theorem tables_addFunction (isMethod : Bool) :
    (facts.addFunction file cursor context hint isMethod).facts.tables = facts.tables := by
  rw [steady_tables.addFunction]
  exact (tables_declareFunction _ cursor hint _ _ _ isMethod _).trans
    (Scopes.variableIn?_push _ _ _)

theorem tables_addClass :
    (facts.addClass file cursor context hint).1.tables = facts.tables :=
  steady_tables.addClass file facts (fun _ _ => rfl) (fun _ _ => rfl)
    (fun facts cursor context hint _ => tables_addFunction facts cursor context hint true)
    cursor context hint

end Functions

/-- A task that declares nothing changes no scope. -/
theorem tables_step (quiet : task.declares? file = none) :
    (facts.step file task).1.tables = facts.tables := by
  by_cases enters : task.Enters
  swap
  · exact steady_tables.step file facts enters
  cases task with
  | statement cursor context =>
    show (facts.statement file cursor context).1.tables = _
    simp only [Task.Enters, List.mem_cons, List.not_mem_nil, or_false] at enters
    rcases enters with function | classLike
    · simp only [statement, function, tables_addFunction]
    · simp only [statement, classLike, tables_addClass]
  | loopHeader cursor context => exact enters.elim
  | bind cursor context mode =>
    have form : PatternForm.ofKind cursor.kind = .name := enters
    show (facts.bind file cursor context mode).1.tables = _
    rw [bind, if_pos form]
    rw [Task.declares?, if_pos form] at quiet
    cases mode with
    | assign site => rfl
    | declare word site => cases quiet
    | param position rest optional hasDefault => cases quiet
  | expression cursor context hint =>
    show (facts.expression file cursor context hint).1.tables = _
    simp only [Task.Enters, List.mem_cons, List.not_mem_nil, or_false] at enters
    rcases enters with function | method | classLike | call
    · simp only [expression, function, tables_addFunction]
    · simp only [expression, method, tables_addFunction]
    · simp only [expression, classLike, tables_addClass]
    · simp only [expression, call]
      rfl

/-- A task that declares a name declares it in its scope, unless it is declared there already. -/
theorem variableIn?_step {cursor : Cursor} {context : Context} {mode : BindMode} {node : Node}
    (declares : task.declares? file = some (cursor, context, mode, node))
    (there : context.scope < facts.scopes.list.size) (scope : Nat) (name : String) :
    (facts.step file task).1.scopes.variableIn? scope name =
      (facts.scopes.variableIn? scope name).or
        (if mode.scope facts.scopes context.scope = scope ∧ file.textOf cursor = name then
          some (facts.place node context.parent).2 else none) := by
  cases task with
  | bind other place given =>
    simp only [Task.declares?, Option.ite_none_right_eq_some, Option.map_eq_some_iff,
      Prod.mk.injEq] at declares
    obtain ⟨form, _, drawn, rfl, rfl, rfl, rfl⟩ := declares
    show (facts.bind file other place given).1.scopes.variableIn? scope name = _
    rw [bind, if_pos form]
    have inside := (given.hoistTarget_scope there).1
    cases given with
    | assign site => cases drawn
    | declare word site =>
      obtain rfl := Option.some.inj drawn
      exact Scopes.variableIn?_declareVariable _ inside _ _ _ _
    | param position rest optional hasDefault =>
      obtain rfl := Option.some.inj drawn
      exact Scopes.variableIn?_declareVariable _ inside _ _ _ _
  | statement other place => cases declares
  | loopHeader other place => cases declares
  | expression other place given => cases declares

/-- What a task declares is the node of a yield of its look. -/
theorem Charted.declares_yield {rest : List Task} {sight : Sight} {ahead : List Sight}
    (charted : Charted file facts (task :: rest) (sight :: ahead)) {cursor : Cursor}
    {context : Context} {mode : BindMode} {node : Node}
    (declares : task.declares? file = some (cursor, context, mode, node)) :
    task = .bind cursor context mode ∧ PatternForm.ofKind cursor.kind = .name ∧
      mode.node? file cursor = some node ∧
      { cursor, node, home := sight.look.home : Yield } ∈ file.yields := by
  have within := Scheme.subset_of_puts charted.puts_subset
  cases task with
  | bind other place given =>
    simp only [Task.declares?, Option.ite_none_right_eq_some, Option.map_eq_some_iff,
      Prod.mk.injEq] at declares
    obtain ⟨form, _, drawn, rfl, rfl, rfl, rfl⟩ := declares
    refine ⟨rfl, form, drawn, within ?_⟩
    rw [← charted.head.same]
    show _ ∈ (Scheme.pattern file other sight.look.home given.plain).yields
    unfold Scheme.pattern
    simp only [if_pos form]
    cases given with
    | assign site => cases drawn
    | declare word site =>
      obtain rfl := Option.some.inj drawn
      exact List.mem_singleton_self _
    | param position rest optional hasDefault =>
      obtain rfl := Option.some.inj drawn
      exact List.mem_singleton_self _
  | statement other place => cases declares
  | loopHeader other place => cases declares
  | expression other place given => cases declares

/-- Declaring a name places its node. -/
theorem graph_of_declares {cursor : Cursor} {context : Context} {mode : BindMode}
    {node : Node} (declares : task.declares? file = some (cursor, context, mode, node)) :
    (facts.step file task).1.graph = (facts.place node context.parent).1.graph := by
  cases task with
  | bind other place given =>
    simp only [Task.declares?, Option.ite_none_right_eq_some, Option.map_eq_some_iff,
      Prod.mk.injEq] at declares
    obtain ⟨form, _, drawn, rfl, rfl, rfl, rfl⟩ := declares
    show (facts.bind file other place given).1.graph = _
    rw [bind, if_pos form]
    cases given with
    | assign site => cases drawn
    | declare word site =>
      obtain rfl := Option.some.inj drawn
      rfl
    | param position rest optional hasDefault =>
      obtain rfl := Option.some.inj drawn
      rfl
  | statement other place => cases declares
  | loopHeader other place => cases declares
  | expression other place given => cases declares

/-- What scopes declare are yields that declare. -/
def Bound (file : SourceFile) (facts : Facts) : Prop :=
  ∀ (scope : Nat) (name : String) (handle : Nat), facts.scopes.variableIn? scope name = some handle →
    ∃ yield ∈ file.yields, facts.graph.IdAt handle yield.node.id ∧ file.textOf yield.cursor = name ∧
      ∃ mode : BindMode, mode.node? file yield.cursor = some yield.node

theorem Bound.step {rest : List Task} {sight : Sight} {ahead : List Sight}
    (bound : Bound file facts) (charted : Charted file facts (task :: rest) (sight :: ahead))
    (there : task.context.scope < facts.scopes.list.size) :
    Bound file (facts.step file task).1 := by
  have kept := charted.plays.extend.graph
  intro scope name handle found
  cases declares : task.declares? file with
  | none =>
    have same : (facts.step file task).1.tables scope name = facts.tables scope name := by
      rw [tables_step declares]
    obtain ⟨yield, inside, spot, known⟩ := bound scope name handle (same.symm.trans found)
    exact ⟨yield, inside, spot.kept kept, known⟩
  | some entry =>
    obtain ⟨cursor, context, mode, node⟩ := entry
    obtain ⟨rfl, form, drawn, inside⟩ := charted.declares_yield declares
    rw [variableIn?_step declares there, Option.or_eq_some_iff] at found
    rcases found with old | ⟨-, new⟩
    · obtain ⟨yield, inside, spot, known⟩ := bound scope name handle old
      exact ⟨yield, inside, spot.kept kept, known⟩
    · rw [Option.ite_none_right_eq_some, Option.some.injEq] at new
      obtain ⟨⟨-, text⟩, rfl⟩ := new
      refine ⟨_, inside, ?_, text, mode, drawn⟩
      rw [graph_of_declares declares]
      exact handle_place charted.charts.formed.wellFormed node context.parent

theorem bound_start (file : SourceFile) : Bound file {} := by
  intro scope name handle found
  rw [show ({} : Facts).scopes = .initial from rfl, Scopes.variableIn?_initial] at found
  cases found

theorem Visits.bound {pending : List Task} (visits : Visits file facts pending) :
    Bound file facts := by
  obtain ⟨_, -, bound⟩ := visits.follow (P := fun facts _ _ => Bound file facts) (bound_start file)
    fun visits charted bound =>
      bound.step charted (visits.sound.2 _ List.mem_cons_self).1.context.scope
  exact bound

theorem bound_of (file : SourceFile) : Bound file (Facts.of file) :=
  (Visits.last file).bound

end Facts

end CodeGraph

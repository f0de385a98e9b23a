import CodeGraph.Proofs.Facts.Run

/-!
# What is recorded of functions and calls

At every moment of the walk the tables agree with the graph (`Facts.Recorded`): each function node has a
fact of its name, the index leads from the node of each fact to a fact with that node, methods of classes
and functions that scopes declare have facts, and each call node is written like a call of the tree and
has a fact. This holds because a function or a call is entered together with its node.
-/

namespace CodeGraph

/-- A call in the syntax tree of a file. -/
def SourceFile.HasCall (file : SourceFile) (cursor : Cursor) : Prop :=
  file.Has cursor ∧ ExpressionForm.ofKind cursor.kind = .call

namespace Facts

variable {file : SourceFile} {base facts : Facts} {outer : Context} {adds : Bool}

/-! ## Nodes of functions -/

theorem name_functionNode (file : SourceFile) (cursor : Cursor) (name : Option String)
    (isMethod : Bool) (paramCount : Nat) :
    (functionNode file cursor name isMethod paramCount).name = name := by
  unfold functionNode
  cases isMethod <;> rfl

theorem isSet_functionNode (file : SourceFile) (cursor : Cursor) (name : Option String)
    (isMethod : Bool) (paramCount : Nat) :
    (functionNode file cursor name isMethod paramCount).properties.isSet "isMethod" = isMethod := by
  unfold functionNode
  cases isMethod <;> simp [Node.set, Properties.isSet, Properties.get?_insert_of_ne]

theorem id_functionNode (file : SourceFile) (cursor : Cursor) (name : Option String)
    (isMethod : Bool) (paramCount : Nat) :
    (functionNode file cursor name isMethod paramCount).id = (file.nodeOf cursor .func none).id := by
  unfold functionNode
  cases isMethod <;> rfl

/-- The node of a function that was entered has the id of its syntax node. -/
theorem idAt_enterFunction (sound : Sound file facts) (cursor : Cursor) (context : Context)
    (hint : Option Hint) (isMethod : Bool) :
    (facts.enterFunction file cursor context hint isMethod).facts.graph.IdAt
      (facts.enterFunction file cursor context hint isMethod).node
      (file.nodeOf cursor .func none).id := by
  obtain ⟨held, found, same⟩ := handle_place sound.formed (functionNode file cursor
    (givenName file cursor hint) isMethod
    (Parameter.ofFunction cursor).length) context.parent
  rw [graph_enterFunction]
  exact ⟨held, found, same.trans (id_functionNode _ _ _ _ _)⟩

/-- A node after a function was entered is an old one or that of the function. -/
theorem node_enterFunction {cursor : Cursor} {context : Context} {hint : Option Hint}
    {isMethod : Bool} {handle : Nat} {held : Node}
    (found : (facts.enterFunction file cursor context hint isMethod).facts.graph.nodes[handle]? =
      some held) : facts.graph.nodes[handle]? = some held ∨
      held = functionNode file cursor (givenName file cursor hint) isMethod
        (Parameter.ofFunction cursor).length ∧
      handle = (facts.enterFunction file cursor context hint isMethod).node := by
  rw [graph_enterFunction] at found
  exact node_of_place found

/-! ## Scopes -/

/-- What a function is declared as: a declaration in the scope around it, a function expression with a
name of its own inside itself, one that is bound to a name around it, and a method not at all. -/
def declaredIn? {Place : Type} (file : SourceFile) (cursor : Cursor) (around inside : Place)
    (hint : Option Hint) : Option (Place × String) :=
  match cursor.field? "name", hint with
  | some name, _ =>
    some (if StatementForm.ofKind cursor.kind = .function then around else inside, file.textOf name)
  | none, some hint => if hint.bindable then some (around, hint.name) else none
  | none, none => none

/-- A function is declared under its name. -/
theorem givenName_of_declaredIn? {cursor : Cursor} {around inside scope : Nat}
    {hint : Option Hint} {name : String}
    (declares : declaredIn? file cursor around inside hint = some (scope, name)) :
    givenName file cursor hint = some name := by
  unfold declaredIn? at declares
  unfold givenName
  split at declares
  · next own _ held =>
    rw [held]
    exact congrArg some (Prod.mk.inj (Option.some.inj declares)).2
  · next hint held =>
    simp only [Option.ite_none_right_eq_some, Option.some.injEq, Prod.mk.injEq] at declares
    rw [held]
    exact congrArg some declares.2.2
  · cases declares

theorem isDeclaration_iff {kind : String} : (kind == "function_declaration" ||
    kind == "generator_function_declaration") = true ↔ StatementForm.ofKind kind = .function := by
  rw [StatementForm.ofKind_eq_function, Bool.or_eq_true, beq_iff_eq, beq_iff_eq]

/-- A method is declared nowhere. -/
theorem declareFunction_method {cursor : Cursor} (around inside : Nat) (ownName : Option String)
    (hint : Option Hint) (node : Nat) (plain : StatementForm.ofKind cursor.kind ≠ .function) :
    facts.declareFunction cursor around inside ownName hint true node = facts := by
  unfold Facts.declareFunction
  simp only [if_neg (mt isDeclaration_iff.1 plain), if_true, Bool.not_true, Bool.and_false]
  split
  · rfl
  · rfl
  · rfl

/-- A function that is no method is declared once at most, unless its name is declared there already. -/
theorem functionIn?_declareFunction {cursor : Cursor} {around inside : Nat} {hint : Option Hint}
    {node : Nat} (there : around < facts.scopes.list.size) (stands : inside < facts.scopes.list.size)
    (scope : Nat) (name : String) :
    (facts.declareFunction cursor around inside ((cursor.field? "name").map file.textOf) hint false
      node).scopes.functionIn? scope name = (facts.scopes.functionIn? scope name).or
        (if declaredIn? file cursor around inside hint = some (scope, name) then some node
          else none) := by
  unfold Facts.declareFunction declaredIn?
  simp only [isDeclaration_iff]
  cases cursor.field? "name" with
  | some own =>
    simp only [Option.map_some, Option.some.injEq, Prod.mk.injEq]
    split
    · exact Scopes.functionIn?_declareFunction _ there _ _ _ _
    · exact Scopes.functionIn?_declareFunction _ stands _ _ _ _
  | none =>
    cases hint with
    | none => simp
    | some hint =>
      cases bindable : hint.bindable with
      | false => simp [bindable]
      | true =>
        simp only [Option.map_none, bindable, Bool.not_false, Bool.and_self, if_true,
          Option.some.injEq, Prod.mk.injEq]
        exact Scopes.functionIn?_declareFunction _ there _ _ _ _

/-- Entering a function declares it, unless it is a method. -/
theorem functionIn?_enterFunction (cursor : Cursor) {context : Context}
    (there : context.scope < facts.scopes.list.size) (hint : Option Hint) {isMethod : Bool}
    (plain : isMethod = true → StatementForm.ofKind cursor.kind ≠ .function)
    (scope : Nat) (name : String) :
    (facts.enterFunction file cursor context hint isMethod).facts.scopes.functionIn? scope name =
      (facts.scopes.functionIn? scope name).or
        (if isMethod = false ∧ declaredIn? file cursor context.scope facts.scopes.list.size hint =
            some (scope, name) then
          some (facts.enterFunction file cursor context hint isMethod).node
        else none) := by
  let placed := facts.place (functionNode file cursor (givenName file cursor hint) isMethod
    (Parameter.ofFunction cursor).length) context.parent
  let opened := placed.1.pushScope context.scope true
  have size : opened.1.scopes.list.size = facts.scopes.list.size + 1 := by
    simp [opened, placed, pushScope, Scopes.push, place]
  have old : opened.1.scopes.functionIn? scope name = facts.scopes.functionIn? scope name :=
    Scopes.functionIn?_push _ _ _ _ _
  have scopes : (facts.enterFunction file cursor context hint isMethod).facts.scopes =
      (opened.1.declareFunction cursor context.scope facts.scopes.list.size
        ((cursor.field? "name").map file.textOf) hint isMethod placed.2).scopes := rfl
  rw [scopes, ← old]
  cases isMethod with
  | true =>
    rw [declareFunction_method _ _ _ _ _ (plain rfl)]
    simp
  | false =>
    rw [functionIn?_declareFunction (by omega) (by omega)]
    simp only [true_and]
    rfl

/-! ## The invariant -/

/-- What the tables say of functions and calls agrees with the graph. -/
structure Recorded (file : SourceFile) (facts : Facts) : Prop where
  function : ∀ (handle : Nat) (node : Node), facts.graph.nodes[handle]? = some node →
    node.kind = .func →
    ⟨handle, node.name, node.properties.isSet "isMethod"⟩ ∈ facts.signatures
  /-- Of several functions with one node the index leads to the last one. -/
  indexed : ∀ (place : Nat) (signature : Signature), facts.signatures[place]? = some signature →
    ∃ number, facts.functionIndex[signature.node]? = some number ∧ place ≤ number
  index : ∀ (handle number : Nat), facts.functionIndex[handle]? = some number →
    ∃ signature, facts.signatures[number]? = some signature ∧ signature.node = handle
  methods : ∀ (number : Nat) (fact : ClassFact), facts.classes[number]? = some fact →
    ∀ node ∈ fact.methods, ∃ signature ∈ facts.signatures, signature.node = node
  declared : ∀ (scope : Nat) (name : String) (node : Nat),
    facts.scopes.functionIn? scope name = some node → ∃ signature ∈ facts.signatures,
      signature.node = node ∧ signature.name = some name ∧ signature.isMethod = false
  call : ∀ (handle : Nat) (node : Node), facts.graph.nodes[handle]? = some node →
    node.kind = .call → (∃ cursor, file.HasCall cursor ∧
      node = callNode file cursor (callSyntax file cursor)) ∧ ∃ call ∈ facts.calls, call.node = handle

namespace Recorded

/-- What does not touch the tables keeps them in agreement with the graph. -/
theorem keep (recorded : Recorded file facts) {after : Facts}
    (nodes : ∀ (handle : Nat) (node : Node), after.graph.nodes[handle]? = some node →
      node.kind ∈ NodeKind.entered → facts.graph.nodes[handle]? = some node)
    (signatures : after.signatures = facts.signatures)
    (index : after.functionIndex = facts.functionIndex) (classes : after.classes = facts.classes)
    (scopes : ∀ scope name, after.scopes.functionIn? scope name =
      facts.scopes.functionIn? scope name)
    (calls : after.calls = facts.calls) : Recorded file after := by
  refine ⟨fun handle node found kind => ?function, ?indexed, ?index, ?methods,
    fun scope name node found => ?declared, fun handle node found kind => ?call⟩
  case function =>
    rw [signatures]
    exact recorded.function handle node (nodes handle node found (by rw [kind]; decide)) kind
  case indexed =>
    rw [signatures, index]
    exact recorded.indexed
  case index =>
    rw [signatures, index]
    exact recorded.index
  case methods =>
    rw [signatures, classes]
    exact recorded.methods
  case declared =>
    rw [signatures]
    exact recorded.declared scope name node (scopes scope name ▸ found)
  case call =>
    rw [calls]
    exact recorded.call handle node (nodes handle node found (by rw [kind]; decide)) kind

/-- What changes the regions alone keeps the tables in agreement with the graph. -/
theorem withRegions (recorded : Recorded file facts) (regions : Array Region) :
    Recorded file { facts with regions } :=
  recorded.keep (fun _ _ found _ => found) rfl rfl rfl (fun _ _ => rfl) rfl

theorem withFunctions (recorded : Recorded file facts) (number : Nat)
    {change : FunctionFact → FunctionFact}
    (keeps : ∀ fact, (change fact).signature = fact.signature) :
    Recorded file { facts with functions := facts.functions.modify number change } :=
  recorded.keep (fun _ _ found _ => found) (signatures_modify facts number keeps) rfl rfl
    (fun _ _ => rfl) rfl

theorem place (recorded : Recorded file facts) {node : Node} (plain : node.kind ∉ NodeKind.entered)
    (parent : Option Nat) : Recorded file (facts.place node parent).1 :=
  recorded.keep (fun _ _ found kind => (node_of_place found).elim id fun new =>
    absurd (new.1 ▸ kind) plain) rfl rfl rfl (fun _ _ => rfl) rfl

theorem enterFunction (recorded : Recorded file facts) (cursor : Cursor) {context : Context}
    (there : context.scope < facts.scopes.list.size) (hint : Option Hint) {isMethod : Bool}
    (plain : isMethod = true → StatementForm.ofKind cursor.kind ≠ .function) :
    Recorded file (facts.enterFunction file cursor context hint isMethod).facts := by
  have signatures := facts.signatures_enterFunction file cursor context hint isMethod
  have old : ∀ {signature}, signature ∈ facts.signatures →
      signature ∈ (facts.enterFunction file cursor context hint isMethod).facts.signatures := by
    intro signature inside
    rw [signatures]
    exact List.mem_append_left _ inside
  have last := facts.signature_enterFunction file cursor context hint isMethod
  have new := List.mem_of_getElem? last
  refine ⟨fun handle node found kind => ?function, fun place signature listed => ?indexed,
    fun handle number found => ?index, ?methods, fun scope name node found => ?declared,
    fun handle node found kind => ?call⟩
  case function =>
    rcases node_enterFunction found with held | ⟨rfl, rfl⟩
    · exact old (recorded.function handle node held kind)
    · rw [name_functionNode, isSet_functionNode]
      exact new
  case indexed =>
    have count : facts.signatures.length = facts.functions.size := by
      rw [Facts.signatures, List.length_map, Array.length_toList]
    rw [signatures, List.getElem?_append] at listed
    rw [functionIndex_enterFunction, Std.HashMap.getElem?_insert]
    split at listed
    · next before =>
      split
      · exact ⟨_, rfl, Nat.le_of_lt (count ▸ before)⟩
      · exact recorded.indexed place signature listed
    · obtain ⟨less, rfl⟩ := List.getElem?_eq_some_iff.1 listed
      have last : place = facts.functions.size := by
        rw [List.length_singleton] at less
        omega
      rw [List.getElem_singleton, if_pos (beq_self_eq_true _)]
      exact ⟨_, rfl, Nat.le_of_eq last⟩
  case index =>
    rw [functionIndex_enterFunction, Std.HashMap.getElem?_insert] at found
    split at found
    · next same =>
      obtain rfl := Option.some.inj found
      exact ⟨_, last, eq_of_beq same⟩
    · obtain ⟨signature, held, same⟩ := recorded.index handle number found
      refine ⟨signature, ?_, same⟩
      rw [signatures, List.getElem?_append_left (List.getElem?_eq_some_iff.1 held).1]
      exact held
  case methods =>
    rw [classes_enterFunction]
    intro number fact found node inside
    obtain ⟨signature, listed, same⟩ := recorded.methods number fact found node inside
    exact ⟨signature, old listed, same⟩
  case declared =>
    rw [functionIn?_enterFunction cursor there hint plain, Option.or_eq_some_iff] at found
    rcases found with before | ⟨-, found⟩
    · obtain ⟨signature, listed, rest⟩ := recorded.declared scope name node before
      exact ⟨signature, old listed, rest⟩
    · simp only [Option.ite_none_right_eq_some, Option.some.injEq] at found
      obtain ⟨⟨rfl, declares⟩, rfl⟩ := found
      refine ⟨_, new, rfl, ?_, rfl⟩
      exact givenName_of_declaredIn? declares
  case call =>
    rcases node_enterFunction found with held | ⟨rfl, -⟩
    · rw [calls_enterFunction]
      exact recorded.call handle node held kind
    · rw [kind_functionNode] at kind
      cases kind

theorem addCall (recorded : Recorded file facts) {cursor : Cursor} (has : file.Has cursor)
    (form : ExpressionForm.ofKind cursor.kind = .call) (context : Context) :
    Recorded file (facts.addCall file cursor context).1 := by
  obtain ⟨name, -, called, -⟩ := sameNode_callNode file cursor (callSyntax file cursor)
  refine { recorded with function := fun handle node found kind => ?_,
                         call := fun handle node found kind => ?_ }
  · rcases node_of_place found with held | ⟨rfl, -⟩
    · exact recorded.function handle node held kind
    · rw [called] at kind
      cases kind
  · rcases node_of_place found with held | ⟨rfl, rfl⟩
    · obtain ⟨written, call, listed, same⟩ := recorded.call handle node held kind
      exact ⟨written, call, Array.mem_push_of_mem _ listed, same⟩
    · exact ⟨⟨cursor, ⟨has, form⟩, rfl⟩, _, Array.mem_push_self, rfl⟩

theorem pushClass (recorded : Recorded file facts) (name : Option String) :
    Recorded file { facts with classes := facts.classes.push { name } } :=
  { recorded with methods := each_pushed recorded.methods fun _ none => (nomatch none) }

theorem noteMethod (recorded : Recorded file facts) (number : Nat) {node : Nat}
    (there : ∃ signature ∈ facts.signatures, signature.node = node) :
    Recorded file { facts with classes := facts.classes.modify number fun fact =>
      { fact with methods := fact.methods.push node } } := by
  refine { recorded with
    methods := each_modified (fun _ => Array.getElem?_modify) recorded.methods ?_ }
  intro fact _ all other inside
  rcases Array.mem_push.1 inside with old | rfl
  · exact all other old
  · exact there

end Recorded

/-- The walk begins with empty tables. -/
theorem recorded_start (file : SourceFile) : Recorded file {} where
  function := by
    intro handle node found
    simp at found
  indexed := by
    intro place signature listed
    simp [signatures] at listed
  index := by
    intro handle number found
    simp at found
  methods := by
    intro number fact found
    simp at found
  declared := by
    intro scope name node found
    rw [Scopes.functionIn?_initial] at found
    cases found
  call := by
    intro handle node found
    simp at found

/-- The walk keeps the tables in agreement with the graph. -/
theorem Makes.recorded (made : Makes file base outer adds facts) (recorded : Recorded file base) :
    Recorded file facts := by
  induction made with
  | start => exact recorded
  | place node parent _ _ plain _ ih => exact ih.place plain parent
  | record context access _ _ _ _ ih => exact ih.withRegions _
  | pushScope parent _ _ ih =>
    exact ih.keep (fun _ _ found _ => found) rfl rfl rfl
      (Scopes.functionIn?_push _ parent false) rfl
  | pushStatement context site kind _ _ _ _ _ ih =>
    rw [pushStatement_eq]
    exact ih.withRegions _
  | pushArm context statement role _ _ _ _ _ ih =>
    rw [pushArm_eq]
    exact ih.withRegions _
  | recordReturn function site _ _ ih =>
    cases function with
    | none => exact ih
    | some number => exact ih.withFunctions number fun _ => rfl
  | declareVariable scope name node _ _ _ ih =>
    exact ih.keep (fun _ _ found _ => found) rfl rfl rfl
      (Scopes.functionIn?_declareVariable _ scope name node) rfl
  | declareIn context node _ _ _ _ ih =>
    exact ih.keep (fun _ _ found _ => found) rfl rfl rfl (fun _ _ => rfl) rfl
  | addParam context node _ _ _ _ ih => exact ih.withRegions _
  | noteParam number position node _ _ _ ih => exact ih.withFunctions number fun _ => rfl
  | enterFunction cursor context hint isMethod _ known plain ih =>
    exact ih.enterFunction cursor known.scope hint plain
  | pushClass name _ ih => exact ih.pushClass name
  | noteMethod number node _ _ there ih => exact ih.noteMethod number there
  | enterCall cursor context _ _ _ has form ih => exact ih.addCall has form context

/-- The tables agree with the graph at every moment of the walk. -/
theorem Visits.recorded {tasks : List Task} (visits : Visits file facts tasks) :
    Recorded file facts := by
  induction visits with
  | start => exact recorded_start file
  | @step facts task rest before ih =>
    obtain ⟨sound, ready⟩ := before.sound
    obtain ⟨known, has⟩ := ready task List.mem_cons_self
    exact (proceeds_step sound known has).made.recorded ih

/-- The tables of the facts about a file agree with its graph. -/
theorem recorded_of (file : SourceFile) : Recorded file (Facts.of file) :=
  (Visits.last file).recorded.withRegions _

end Facts

end CodeGraph

import CodeGraph.Proofs.Facts.ChartStep
import CodeGraph.Proofs.Facts.Steady
import CodeGraph.Proofs.Facts.Visit

/-!
# The scopes of a step

A step of the walk opens as many scopes as the look says for which its task stands, all below the scope of
the task (`Facts.Charted.parents_step`), and each task that it leaves is in the scope that the depth of its
look tells (`Facts.Charted.depths_step`). Functions are entered together with their scopes: what is left
inside one has the number of its fact and that of its scope (`Facts.Goes`).
-/

namespace CodeGraph

namespace Depth

/-- The scope of what follows at a depth: that around, or a new one. New scopes have numbers from a given one
on. -/
def scope (around count : Nat) : Depth → Nat
  | level => around
  | block => count
  | inside number => count + number

/-- The function of what follows at a depth: that around, or a new one. -/
def function (around : Option Nat) (count : Nat) : Depth → Option Nat
  | level => around
  | block => around
  | inside number => some (count + number)

end Depth

/-! ## Depths of sights -/

namespace Look

variable {file : SourceFile}

/-- What follows in the same function is at no depth inside another one. -/
theorem function_of_mem_along {look : Look} {next : Look × Depth} (inside : next ∈ look.along file)
    (around : Option Nat) (count : Nat) : next.2.function around count = around := by
  have leveled : ∀ {depth : Depth} {looks : List Look}, next ∈ depth.looks looks →
      depth = .level ∨ depth = .block → next.2.function around count = around := by
    intro depth looks there plain
    obtain ⟨other, -, rfl⟩ := List.mem_map.1 there
    rcases plain with rfl | rfl <;> rfl
  cases look with
  | statement cursor home =>
    simp only [along, alongStatement] at inside
    cases form : StatementForm.ofKind cursor.kind with
    | switch =>
      simp only [form, List.mem_map] at inside
      obtain ⟨other, -, rfl⟩ := inside
      dsimp only
      split <;> rfl
    | guarded =>
      simp only [form, List.mem_append] at inside
      rcases inside with (body | handler) | cleanup
      · exact leveled body (.inl rfl)
      · exact leveled handler (.inr rfl)
      · exact leveled cleanup (.inl rfl)
    | block => exact leveled (form ▸ inside) (.inr rfl)
    | forLoop => exact leveled (form ▸ inside) (.inr rfl)
    | forEach => exact leveled (form ▸ inside) (.inr rfl)
    | _ => exact leveled (form ▸ inside) (.inl rfl)
  | loopHeader cursor home => exact leveled inside (.inl rfl)
  | bind cursor home mode => exact leveled inside (.inl rfl)
  | expression cursor home hint => exact leveled inside (.inl rfl)

theorem scopeCountStatement_of_flat {cursor : Cursor} {home : Home}
    (flat : StatementForm.ofKind cursor.kind ∉ StatementForm.opening) :
    scopeCountStatement file cursor home = (Scheme.statement file cursor home).functions.length := by
  unfold scopeCountStatement
  cases form : StatementForm.ofKind cursor.kind with
  | block => simp [form, StatementForm.opening] at flat
  | forLoop => simp [form, StatementForm.opening] at flat
  | forEach => simp [form, StatementForm.opening] at flat
  | switch => simp [form, StatementForm.opening] at flat
  | guarded => simp [form, StatementForm.opening] at flat
  | _ => rfl

/-- A statement that opens a scope enters no function, and nothing in it is looked at again. -/
theorem onward_of_opening {cursor : Cursor} {home : Home}
    (opening : StatementForm.ofKind cursor.kind ∈ StatementForm.opening) :
    (statement cursor home).onward file = alongStatement file cursor home := by
  have bare : (Scheme.statement file cursor home).functions = [] ∧
      (Scheme.statement file cursor home).again = [] := by
    simp only [StatementForm.opening, List.mem_cons, List.not_mem_nil, or_false] at opening
    unfold Scheme.statement
    rcases opening with form | form | form | form | form <;> rw [form] <;> exact ⟨rfl, rfl⟩
  rw [onward, scheme, Scheme.inside, bare.1, bare.2]
  simp only [List.zipIdx_nil, List.reverse_nil, List.flatMap_nil, List.append_nil, Depth.looks,
    List.map_nil]
  rfl

/-- What follows any other look is in no block of its own. -/
theorem depth_of_flat {look : Look} {next : Look × Depth} (inside : next ∈ look.onward file)
    (flat : ∀ cursor home, look = .statement cursor home →
      StatementForm.ofKind cursor.kind ∉ StatementForm.opening) : next.2 ≠ .block := by
  have leveled : ∀ {looks : List Look}, next ∈ Depth.level.looks looks → next.2 ≠ .block := by
    intro looks there
    obtain ⟨other, -, rfl⟩ := List.mem_map.1 there
    intro same
    cases same
  rcases List.mem_append.1 inside with first | again
  · rcases List.mem_append.1 first with along | entered
    · cases look with
      | statement cursor home =>
        have flat := flat cursor home rfl
        simp only [Look.along, alongStatement] at along
        cases form : StatementForm.ofKind cursor.kind with
        | block => simp [form, StatementForm.opening] at flat
        | forLoop => simp [form, StatementForm.opening] at flat
        | forEach => simp [form, StatementForm.opening] at flat
        | switch => simp [form, StatementForm.opening] at flat
        | guarded => simp [form, StatementForm.opening] at flat
        | _ => exact leveled (form ▸ along)
      | loopHeader cursor home => exact leveled along
      | bind cursor home mode => exact leveled along
      | expression cursor home hint => exact leveled along
    · obtain ⟨entry, -, there⟩ := List.mem_flatMap.1 entered
      obtain ⟨other, -, rfl⟩ := List.mem_map.1 there
      intro same
      cases same
  · exact leveled again

end Look

/-- The sights of a scheme are those of the looks that follow, with the functions in which they are. -/
theorem Look.sights_eq (file : SourceFile) (look : Look) (function : Option Nat) (count : Nat) :
    (look.scheme file).sights file function count =
      (look.onward file).map fun next => ⟨next.2.function function count, next.1⟩ := by
  have along : (look.along file).map (fun next : Look × Depth =>
      (⟨next.2.function function count, next.1⟩ : Sight)) =
        sightsIn function (look.scheme file).next := by
    rw [← map_fst_along, sightsIn, List.map_map]
    exact List.map_congr_left fun next inside =>
      congrArg (Sight.mk · next.1) (function_of_mem_along inside function count)
  have again : (Depth.level.looks (look.scheme file).again).map (fun next : Look × Depth =>
      (⟨next.2.function function count, next.1⟩ : Sight)) =
        sightsIn function (look.scheme file).again := by
    rw [Depth.looks, List.map_map]
    rfl
  have inside : ((look.scheme file).inside file).map (fun next : Look × Depth =>
      (⟨next.2.function function count, next.1⟩ : Sight)) =
        Entry.sights file (look.scheme file).functions count := by
    rw [Entry.sights, List.zipIdx_eq_map_add, ← List.map_reverse, List.flatMap_map, Scheme.inside,
      List.map_flatMap]
    refine List.flatMap_congr fun entry _ => ?_
    rw [Depth.looks, List.map_map]
    rfl
  rw [onward, List.map_append, List.map_append, along, inside, again, Scheme.sights]

namespace Facts

variable {file : SourceFile} {facts : Facts} {context : Context}

/-! ## Entering functions -/

/-- The parents of the scopes. -/
def parents (facts : Facts) : List (Option Nat) := facts.scopes.frames.map Prod.fst

theorem length_parents (facts : Facts) : facts.parents.length = facts.scopes.list.size := by
  rw [parents, List.length_map, Scopes.length_frames]

/-- The nodes of the functions that were entered, with what is noted of their parameters. -/
def slots (facts : Facts) : List (Nat × Array (Nat × Nat)) :=
  facts.functions.toList.map fun fact => (fact.node, fact.params)

theorem length_slots (facts : Facts) : facts.slots.length = facts.functions.size := by
  rw [slots, List.length_map, Array.length_toList]

theorem parents_pushScope (facts : Facts) {parent : Nat} (there : parent < facts.scopes.list.size)
    (hoists : Bool) :
    (facts.pushScope parent hoists).1.parents = facts.parents ++ [some parent] := by
  have pushed := Scopes.frames_push facts.scopes parent hoists
  rw [parents, pushScope, pushed, List.map_append, List.map_singleton, Scopes.parentIn, if_pos there]
  rfl

theorem firm_parents : Firm parents where
  place := fun _ _ _ => rfl
  pushStatement := fun _ _ _ _ => by
    rw [pushStatement_eq]
    rfl
  pushArm := fun _ _ _ _ => by
    rw [pushArm_eq]
    rfl
  recordReturn := fun _ function _ => by cases function <;> rfl

theorem steady_slots : Steady slots where
  place := fun _ _ _ => rfl
  record := fun _ _ _ => rfl
  pushScope := fun _ _ _ => rfl
  pushStatement := fun _ _ _ _ => by
    rw [pushStatement_eq]
    rfl
  pushArm := fun _ _ _ _ => by
    rw [pushArm_eq]
    rfl
  recordReturn := fun facts function site => by
    cases function with
    | none => rfl
    | some number =>
      refine List.ext_getElem? fun place => ?_
      simp only [slots, recordReturn, List.getElem?_map, Array.getElem?_toList,
        Array.getElem?_modify]
      split
      · cases facts.functions[place]? <;> rfl
      · rfl

theorem steady_classes : Steady Facts.classes where
  place := fun _ _ _ => rfl
  record := fun _ _ _ => rfl
  pushScope := fun _ _ _ => rfl
  pushStatement := fun _ _ _ _ => by rw [pushStatement_eq]
  pushArm := fun _ _ _ _ => by rw [pushArm_eq]
  recordReturn := fun _ function _ => by cases function <;> rfl

/-- On the way from one to another, the facts have got functions with given nodes, and a scope below a given
one for each of these. -/
structure Goes (before after : Facts) (scope : Nat) (nodes : List Nat) : Prop where
  slots : after.slots = before.slots ++ nodes.map fun node => (node, #[])
  parents : after.parents = before.parents ++ List.replicate nodes.length (some scope)

namespace Goes

variable {before middle after : Facts} {scope : Nat} {nodes more : List Nat}

theorem of_eq (slots : after.slots = before.slots) (parents : after.parents = before.parents) :
    before.Goes after scope [] :=
  ⟨slots.trans (List.append_nil _).symm, parents.trans (List.append_nil _).symm⟩

theorem trans (first : before.Goes middle scope nodes) (second : middle.Goes after scope more) :
    before.Goes after scope (nodes ++ more) := by
  refine ⟨?_, ?_⟩
  · rw [second.slots, first.slots, List.append_assoc, List.map_append]
  · rw [second.parents, first.parents, List.append_assoc, List.length_append, List.replicate_append_replicate]

theorem functions (goes : before.Goes after scope nodes) :
    after.functions.size = before.functions.size + nodes.length := by
  rw [← length_slots, goes.slots, List.length_append, length_slots, List.length_map]

theorem scopes (goes : before.Goes after scope nodes) :
    after.scopes.list.size = before.scopes.list.size + nodes.length := by
  rw [← length_parents, goes.parents, List.length_append, length_parents, List.length_replicate]

end Goes

/-- A function that is looked at gets a fact and a scope. -/
theorem goes_addFunction (facts : Facts) (file : SourceFile) (cursor : Cursor)
    (there : context.scope < facts.scopes.list.size) (hint : Option Hint) (isMethod : Bool) :
    facts.Goes (facts.addFunction file cursor context hint isMethod).facts context.scope
      [(facts.addFunction file cursor context hint isMethod).node] := by
  refine ⟨?_, ?_⟩
  · rw [steady_slots.addFunction, slots, functions_enterFunction, Array.toList_push, List.map_append]
    rfl
  · rw [firm_parents.addFunction, parents, frames_enterFunction, List.map_append, Scopes.parentIn,
      if_pos there]
    rfl

theorem classes_addFunction (facts : Facts) (file : SourceFile) (cursor : Cursor) (context : Context)
    (hint : Option Hint) (isMethod : Bool) :
    (facts.addFunction file cursor context hint isMethod).facts.classes = facts.classes := by
  rw [steady_classes.addFunction, classes_enterFunction]

/-- What is left of a function has the numbers of its fact and of its scope. -/
theorem tasks_addFunction (facts : Facts) (file : SourceFile) (cursor : Cursor) (context : Context)
    (hint : Option Hint) (isMethod : Bool) :
    ∀ task ∈ (facts.addFunction file cursor context hint isMethod).tasks,
      task.context.function = some facts.functions.size ∧
        task.context.scope = facts.scopes.list.size := by
  have inner := inner_enterFunction facts file cursor context hint isMethod
  have inside : ∀ {place : Context}, place.function =
      (facts.enterFunction file cursor context hint isMethod).inner.function →
      place.scope = (facts.enterFunction file cursor context hint isMethod).inner.scope →
      place.function = some facts.functions.size ∧ place.scope = facts.scopes.list.size := by
    intro place function scope
    rw [function, scope, inner]
    exact ⟨rfl, rfl⟩
  intro task listed
  rcases List.mem_append.1 listed with params | body
  · obtain ⟨entry, -, here⟩ := List.mem_flatMap.1 params
    rcases List.mem_append.1 here with fallback | pattern
    · obtain ⟨value, -, rfl⟩ := Option.map_eq_some_iff.1 (Option.mem_toList.1 fallback)
      exact inside rfl rfl
    · obtain rfl := List.mem_singleton.1 pattern
      exact inside rfl rfl
  · unfold functionBody at body
    split at body
    · cases body
    · split at body
      · obtain ⟨child, -, rfl⟩ := List.mem_map.1 body
        exact inside rfl rfl
      · obtain rfl := List.mem_singleton.1 body
        exact inside rfl rfl

/-- A task is where the walk was, or inside a function that was entered since: then the numbers of its fact
and of its scope are as far on as each other. -/
def Near (before : Facts) (context : Context) (task : Task) : Prop :=
  (task.context.function = context.function ∧ task.context.scope = context.scope) ∨
    ∃ number, task.context.function = some (before.functions.size + number) ∧
      task.context.scope = before.scopes.list.size + number

/-- Tasks in one context are where the walk was if the context is in the same function and scope. -/
theorem near_of_alike {inner : Context} (home : Home) {tasks plain : List Task}
    (alike : AllAlike inner home tasks plain) (function : inner.function = context.function)
    (scope : inner.scope = context.scope) : ∀ task ∈ tasks, facts.Near context task := by
  intro task listed
  induction alike with
  | nil => cases listed
  | cons same _ ih =>
    rcases List.mem_cons.1 listed with rfl | later
    · exact .inl ⟨same.context ▸ function, same.context ▸ scope⟩
    · exact ih later

/-- What is left of a function that is looked at is inside it. -/
theorem near_addFunction (facts : Facts) (file : SourceFile) (cursor : Cursor) (context : Context)
    (hint : Option Hint) (isMethod : Bool) :
    ∀ task ∈ (facts.addFunction file cursor context hint isMethod).tasks, facts.Near context task :=
  fun task listed => .inr ⟨0, tasks_addFunction facts file cursor context hint isMethod task listed⟩

/-! ## Classes -/

/-- A class is being added: it has its fact, which lists the nodes of the methods that were entered, and what
is left is near the class. -/
structure Rallies (before : Facts) (name : Option String) (context : Context) (adding : Adding)
    (nodes : List Nat) : Prop where
  goes : before.Goes adding.facts context.scope nodes
  classes : adding.facts.classes = before.classes.push { name, methods := nodes.toArray }
  own : ∀ task ∈ adding.own, before.Near context task
  methods : ∀ task ∈ adding.methods, before.Near context task

namespace Rallies

variable {before : Facts} {name : Option String} {adding : Adding} {nodes : List Nat}

theorem method (rallies : Rallies before name context adding nodes)
    (there : context.scope < before.scopes.list.size) (member : Cursor) (hint : Option Hint) :
    ∃ node, Rallies before name context
      (adding.method file member context hint before.classes.size) (nodes ++ [node]) := by
  have further : context.scope < adding.facts.scopes.list.size := by
    rw [rallies.goes.scopes]
    exact Nat.lt_add_right _ there
  have entered := goes_addFunction adding.facts file member further hint true
  refine ⟨_, ⟨(rallies.goes.trans entered).slots, (rallies.goes.trans entered).parents⟩, ?_,
    rallies.own, List.forall_mem_append.2 ⟨fun task listed => ?_, rallies.methods⟩⟩
  · have listed : (adding.method file member context hint before.classes.size).facts.classes =
        (adding.facts.addFunction file member context hint true).facts.classes.modify
          before.classes.size fun fact =>
            let node := (adding.facts.addFunction file member context hint true).node
            { fact with methods := fact.methods.push node } := rfl
    rw [listed, classes_addFunction, rallies.classes]
    refine Array.ext_getElem? fun place => ?_
    simp only [Array.getElem?_modify, Array.getElem?_push]
    split
    · next same => simp [same]
    · next other => rw [if_neg (Ne.symm other), if_neg (Ne.symm other)]
  · obtain ⟨function, scope⟩ := tasks_addFunction adding.facts file member context hint true task listed
    rw [rallies.goes.functions] at function
    rw [rallies.goes.scopes] at scope
    exact .inr ⟨nodes.length, function, scope⟩

theorem field (rallies : Rallies before name context adding nodes) (member : Cursor)
    (value : Option Cursor) (node : Nat) :
    Rallies before name context (adding.field file member value context node) nodes := by
  refine ⟨⟨rallies.goes.slots, rallies.goes.parents⟩, rallies.classes,
    List.forall_mem_append.2 ⟨rallies.own, fun task listed => ?_⟩, rallies.methods⟩
  obtain ⟨cursor, -, rfl⟩ := Option.map_eq_some_iff.1 (Option.mem_toList.1 listed)
  exact .inl ⟨rfl, rfl⟩

theorem member (rallies : Rallies before name context adding nodes)
    (there : context.scope < before.scopes.list.size) (node : Nat) (cursor : Cursor) :
    ∃ more, Rallies before name context
      (adding.member file context before.classes.size node cursor) more := by
  unfold Adding.member
  split
  · obtain ⟨made, more⟩ := rallies.method there cursor none
    exact ⟨_, more⟩
  · split
    · split
      · exact ⟨nodes, rallies⟩
      · split
        · exact ⟨nodes, rallies.field _ _ node⟩
        · next value _ =>
          split
          · obtain ⟨made, more⟩ := rallies.method there value _
            exact ⟨_, more⟩
          · exact ⟨nodes, rallies.field _ _ node⟩
    · exact ⟨nodes, rallies⟩

theorem members (rallies : Rallies before name context adding nodes)
    (there : context.scope < before.scopes.list.size) (node : Nat) (cursors : List Cursor) :
    ∃ more, Rallies before name context
      (cursors.foldl (Adding.member file context before.classes.size node) adding) more := by
  induction cursors generalizing adding nodes with
  | nil => exact ⟨nodes, rallies⟩
  | cons cursor rest ih =>
    obtain ⟨more, next⟩ := rallies.member there node cursor
    exact ih next

end Rallies

/-- A class that is looked at gets a fact, which lists the functions that were entered for it. -/
theorem rallies_addClass (facts : Facts) (file : SourceFile) (cursor : Cursor)
    (there : context.scope < facts.scopes.list.size) (hint : Option Hint) :
    ∃ nodes, facts.Goes (facts.addClass file cursor context hint).1 context.scope nodes ∧
      (facts.addClass file cursor context hint).1.classes =
        facts.classes.push { name := givenName file cursor hint, methods := nodes.toArray } ∧
      ∀ task ∈ (facts.addClass file cursor context hint).2, facts.Near context task := by
  unfold addClass
  simp only
  split
  · exact ⟨[], .of_eq rfl rfl, rfl, List.forall_mem_nil _⟩
  · let node := classNode file cursor (givenName file cursor hint)
    let placed := facts.place node context.parent
    let start : Facts := { placed.1 with
      classes := placed.1.classes.push { name := givenName file cursor hint } }
    have begun : Rallies facts (givenName file cursor hint) (context.atSite placed.2)
        { facts := start } [] :=
      ⟨.of_eq rfl rfl, rfl, List.forall_mem_nil _, List.forall_mem_nil _⟩
    obtain ⟨nodes, done⟩ := begun.members there placed.2
      (((cursor.field? "body").map Cursor.named).getD [])
    refine ⟨nodes, ⟨done.goes.slots, done.goes.parents⟩, done.classes, ?_⟩
    have moved : ∀ {task : Task}, facts.Near (context.atSite placed.2) task →
        facts.Near context task := id
    refine List.forall_mem_append.2 ⟨List.forall_mem_append.2 ⟨fun task listed => ?_,
      fun task listed => moved (done.own task listed)⟩, fun task listed => moved (done.methods task listed)⟩
    obtain ⟨base, -, rfl⟩ := Option.map_eq_some_iff.1 (Option.mem_toList.1 listed)
    exact .inl ⟨rfl, rfl⟩

/-! ## What is left of other tasks -/

section Near

variable (facts : Facts) (file : SourceFile) (cursor : Cursor) (context : Context)

theorem near_addLoopBody {before : Facts} (statement site : Nat) :
    ∀ task ∈ (facts.addLoopBody cursor context statement site).2, before.Near context task := by
  unfold addLoopBody
  split
  · exact List.forall_mem_nil _
  · exact List.forall_mem_singleton.2 (.inl ⟨rfl, rfl⟩)

theorem near_addLoopHeader :
    ∀ task ∈ (facts.addLoopHeader file cursor context).2, facts.Near context task :=
  List.forall_mem_append.2 ⟨near_of_alike {} (.append
    (.option _ fun child => alike_expression child none) (alike_fieldExpression cursor "increment"))
    rfl rfl, near_addLoopBody _ _ _ _ _⟩

theorem near_addConditional :
    ∀ task ∈ (facts.addConditional file cursor context).2, facts.Near context task := by
  have test : ∀ task ∈ fieldExpression cursor "condition"
      (facts.openStatement file cursor context .conditional).context, facts.Near context task :=
    near_of_alike {} (alike_fieldExpression cursor "condition") rfl rfl
  unfold addConditional
  refine List.forall_mem_append.2 ⟨List.forall_mem_append.2 ⟨test, ?_⟩, ?_⟩
  · split
    · exact List.forall_mem_nil _
    · exact List.forall_mem_singleton.2 (.inl ⟨rfl, rfl⟩)
  · dsimp only
    split
    · exact List.forall_mem_nil _
    · exact near_of_alike {} (.option _ alike_statement) rfl rfl

/-- What is left of a statement that opens no scope is near it. -/
theorem near_statement (there : context.scope < facts.scopes.list.size)
    (flat : StatementForm.ofKind cursor.kind ∉ StatementForm.opening) :
    ∀ task ∈ (facts.statement file cursor context).2, facts.Near context task := by
  have one : ∀ {task : Task}, task.context.function = context.function →
      task.context.scope = context.scope → ∀ other ∈ [task], facts.Near context other :=
    fun function scope => List.forall_mem_singleton.2 (.inl ⟨function, scope⟩)
  have none : ∀ other ∈ ([] : List Task), facts.Near context other := List.forall_mem_nil _
  unfold Facts.statement
  cases form : StatementForm.ofKind cursor.kind with
  | block => simp [form, StatementForm.opening] at flat
  | declaration =>
    exact near_of_alike {} (.flatMap _ fun declarator => alike_declaratorTasks file _ _ declarator)
      rfl rfl
  | expression =>
    show ∀ task ∈ (facts.addExpressionStatement file cursor context).2, _
    unfold addExpressionStatement
    split
    · exact none
    · split
      · exact near_of_alike {} (alike_fieldStatement _ "body") rfl rfl
      · exact one rfl rfl
  | returns => exact near_of_alike {} (alike_expressionTasks cursor) rfl rfl
  | throws => exact near_of_alike {} (alike_expressionTasks cursor) rfl rfl
  | conditional => exact near_addConditional facts file cursor context
  | forLoop => simp [form, StatementForm.opening] at flat
  | forEach => simp [form, StatementForm.opening] at flat
  | loop =>
    exact List.forall_mem_append.2 ⟨near_of_alike {} (alike_fieldExpression cursor "condition") rfl rfl,
      near_addLoopBody _ _ _ _ _⟩
  | switch => simp [form, StatementForm.opening] at flat
  | guarded => simp [form, StatementForm.opening] at flat
  | breaks => exact none
  | continues => exact none
  | labelled => exact near_of_alike {} (alike_fieldStatement cursor "body") rfl rfl
  | exported =>
    show ∀ task ∈ (facts.addExport file cursor context).2, _
    unfold addExport
    split
    · exact one rfl rfl
    · exact one rfl rfl
    · exact none
  | function => exact near_addFunction facts file cursor context Option.none false
  | classLike =>
    obtain ⟨nodes, -, -, left⟩ := rallies_addClass facts file cursor there Option.none
    exact left
  | module => exact near_of_alike {} (alike_fieldStatement cursor "body") rfl rfl
  | faulty => exact near_of_alike {} (alike_statementTasks cursor) rfl rfl
  | inert => exact none
  | plain => exact one rfl rfl

theorem near_bind (mode : BindMode) :
    ∀ task ∈ (facts.bind file cursor context mode).2, facts.Near context task := by
  -- A home where parameters can be bound is as good as any.
  let home : Home := { container := some "", function := some "" }
  have direct : (Task.bind cursor context mode).Direct home := by
    cases mode with
    | param position rest optional hasDefault => exact ⟨rfl, rfl⟩
    | declare word site => trivial
    | assign site => trivial
  unfold bind
  split
  · exact List.forall_mem_nil _
  · exact near_of_alike home (alike_patternTasks cursor direct) rfl rfl

theorem near_expression (there : context.scope < facts.scopes.list.size) (hint : Option Hint) :
    ∀ task ∈ (facts.expression file cursor context hint).2, facts.Near context task := by
  have descends : ∀ task ∈ descend cursor context, facts.Near context task :=
    near_of_alike {} (alike_descend cursor) rfl rfl
  have same : ∀ {task : Task}, task.context.function = context.function →
      task.context.scope = context.scope → facts.Near context task :=
    fun function scope => .inl ⟨function, scope⟩
  have assigns : ∀ augmented, ∀ task ∈ (facts.addAssignment file cursor context augmented).2,
      facts.Near context task := by
    intro augmented
    unfold addAssignment
    split
    · cases augmented
      · exact List.forall_mem_cons.2 ⟨same rfl rfl, List.forall_mem_singleton.2 (same rfl rfl)⟩
      · exact List.forall_mem_cons.2 ⟨same rfl rfl,
          List.forall_mem_cons.2 ⟨same rfl rfl, List.forall_mem_singleton.2 (same rfl rfl)⟩⟩
    · exact descends
  unfold Facts.expression
  cases ExpressionForm.ofKind cursor.kind with
  | reference => exact List.forall_mem_nil _
  | function => exact near_addFunction facts file cursor context hint false
  | method => exact near_addFunction facts file cursor context none true
  | classLike =>
    obtain ⟨nodes, -, -, left⟩ := rallies_addClass facts file cursor there hint
    exact left
  | call =>
    exact near_of_alike {} (.append (.option _ fun target => alike_expression target none)
      (.map _ fun argument => alike_expression argument none)) rfl rfl
  | assignment => exact assigns false
  | augmented => exact assigns true
  | update =>
    show ∀ task ∈ (facts.addUpdate file cursor context).2, _
    unfold addUpdate
    split
    · exact List.forall_mem_cons.2 ⟨same rfl rfl, List.forall_mem_singleton.2 (same rfl rfl)⟩
    · exact descends
  | pair => exact near_of_alike {} (alike_pairTasks file cursor) rfl rfl
  | type => exact List.forall_mem_nil _
  | compound => exact descends

end Near

/-! ## Statements that open a scope -/

section Opening

variable (facts : Facts) (file : SourceFile) (cursor : Cursor) (context : Context)

theorem size_of_parents {before after : Facts} (same : after.parents = before.parents) :
    after.scopes.list.size = before.scopes.list.size := by
  rw [← length_parents, same, length_parents]

theorem parents_addSwitch (there : context.scope < facts.scopes.list.size) :
    (facts.addSwitch file cursor context).1.parents = facts.parents ++ [some context.scope] := by
  have opened := firm_parents.openStatement file facts cursor context .switch
  refine (firm_parents.addCases context _ _ _ _).trans ((parents_pushScope _ ?_ false).trans ?_)
  · rwa [size_of_parents opened]
  · rw [opened]

theorem parents_addHandler (there : context.scope < facts.scopes.list.size) (statement site : Nat) :
    (facts.addHandler file cursor context statement site).1.parents = facts.parents ++
      List.replicate (if (cursor.field? "handler").isSome then 1 else 0) (some context.scope) := by
  unfold addHandler
  split
  · next missing =>
    rw [missing]
    exact (List.append_nil _).symm
  · next handler held =>
    have armed := firm_parents.pushArm facts context statement .handler
    rw [held]
    refine (firm_parents.openStatement file _ _ _ _).trans ((parents_pushScope _ ?_ false).trans ?_)
    · rwa [size_of_parents armed]
    · rw [armed]
      rfl

theorem parents_addGuarded (there : context.scope < facts.scopes.list.size) :
    (facts.addGuarded file cursor context).1.parents = facts.parents ++
      List.replicate (if (cursor.field? "handler").isSome then 1 else 0) (some context.scope) := by
  have opened := firm_parents.openStatement file facts cursor context .guarded
  unfold addGuarded
  refine (firm_parents.addCleanup _ _ _ _ _).trans ?_
  cases cursor.field? "body" with
  | none =>
    rw [parents_addHandler _ _ _ _ (by rwa [size_of_parents opened]), opened]
  | some body =>
    have armed := (firm_parents.pushArm _ context
      (facts.openStatement file cursor context .guarded).statement .guardedBody).trans opened
    rw [parents_addHandler _ _ _ _ (by rwa [size_of_parents armed]), armed]

/-- A statement that opens a scope opens it below the one where it is. -/
theorem parents_statement (there : context.scope < facts.scopes.list.size) (home : Home)
    (opening : StatementForm.ofKind cursor.kind ∈ StatementForm.opening) :
    (facts.statement file cursor context).1.parents = facts.parents ++
      List.replicate (Look.scopeCountStatement file cursor home) (some context.scope) := by
  have pushed := parents_pushScope facts there false
  simp only [StatementForm.opening, List.mem_cons, List.not_mem_nil, or_false] at opening
  unfold Facts.statement Look.scopeCountStatement
  rcases opening with form | form | form | form | form <;> rw [form]
  · exact pushed
  · exact pushed
  · exact (firm_parents.addLoopBody _ _ _ _ _).trans
      ((firm_parents.openStatement file _ _ _ _).trans pushed)
  · exact parents_addSwitch facts file cursor context there
  · exact parents_addGuarded facts file cursor context there

/-- All that is left of a block, or of a loop with a header, is in the new scope. -/
theorem scope_of_block (block : StatementForm.ofKind cursor.kind ∈ [.block, .forLoop, .forEach]) :
    ∀ task ∈ (facts.statement file cursor context).2,
      task.context.scope = facts.scopes.list.size := by
  simp only [List.mem_cons, List.not_mem_nil, or_false] at block
  unfold Facts.statement
  rcases block with form | form | form <;> rw [form]
  · intro task listed
    obtain ⟨child, -, rfl⟩ := List.mem_map.1 listed
    rfl
  · refine List.forall_mem_append.2 ⟨fun task listed => ?_, List.forall_mem_singleton.2 rfl⟩
    obtain ⟨child, -, rfl⟩ := Option.map_eq_some_iff.1 (Option.mem_toList.1 listed)
    rfl
  · refine List.forall_mem_append.2 ⟨List.forall_mem_append.2 ⟨?_, ?_⟩, ?_⟩
    · intro task listed
      obtain ⟨child, -, rfl⟩ := Option.map_eq_some_iff.1 (Option.mem_toList.1 listed)
      rfl
    · intro task listed
      obtain ⟨child, -, rfl⟩ := Option.map_eq_some_iff.1 (Option.mem_toList.1 listed)
      rfl
    · unfold addLoopBody
      split
      · exact List.forall_mem_nil _
      · exact List.forall_mem_singleton.2 rfl

/-- The statements of the cases of a switch are in the new scope, and what it compares is not. -/
theorem scope_of_switch : ∀ task ∈ (facts.addSwitch file cursor context).2, task.context.scope =
    if (task.look {}).isStatement then facts.scopes.list.size else context.scope := by
  have opened := size_of_parents (firm_parents.openStatement file facts cursor context .switch)
  have cases_ : ∀ (body : Context) (opened : Opened) (entries : List Cursor) (state : Facts × List Task),
      opened.context.scope = context.scope → body.scope = facts.scopes.list.size →
      (∀ task ∈ state.2, task.context.scope =
        if (task.look {}).isStatement then facts.scopes.list.size else context.scope) →
      ∀ task ∈ (entries.foldl (addCase opened context body) state).2, task.context.scope =
        if (task.look {}).isStatement then facts.scopes.list.size else context.scope := by
    intro body opened entries state around scope
    induction entries generalizing state with
    | nil => exact id
    | cons entry rest ih =>
      intro before
      refine ih _ ?_
      unfold addCase
      dsimp only
      split
      · exact before
      · refine List.forall_mem_append.2 ⟨List.forall_mem_append.2 ⟨before, ?_⟩, ?_⟩
        · intro task listed
          obtain ⟨child, -, rfl⟩ := Option.map_eq_some_iff.1 (Option.mem_toList.1 listed)
          exact around
        · intro task listed
          obtain ⟨child, -, rfl⟩ := List.mem_map.1 listed
          exact scope
  refine List.forall_mem_append.2 ⟨fun task listed => ?_,
    cases_ _ _ _ _ rfl opened (List.forall_mem_nil _)⟩
  obtain ⟨child, -, rfl⟩ := Option.map_eq_some_iff.1 (Option.mem_toList.1 listed)
  rfl

end Opening

/-! ## Depths of what is left -/

/-- Tasks are in the scopes that the depths of looks tell, one by one. -/
def AllDeep (around count : Nat) : List Task → List (Look × Depth) → Prop :=
  List.Forall₂ fun task next => task.context.scope = next.2.scope around count

theorem allDeep_of_alike {around count : Nat} {inner : Context} (home : Home) {tasks plain : List Task}
    (alike : AllAlike inner home tasks plain) {depth : Depth} (other : Home)
    (scope : inner.scope = depth.scope around count) :
    AllDeep around count tasks (depth.looks (other.looks plain)) := by
  rw [AllDeep, Depth.looks, Home.looks, List.forall₂_map_right_iff, List.forall₂_map_right_iff]
  exact alike.imp fun task next same => same.context ▸ scope

theorem allDeep_addHandler (facts : Facts) (file : SourceFile) (cursor : Cursor) (context : Context)
    (home : Home) (statement site : Nat) : AllDeep context.scope facts.scopes.list.size
      (facts.addHandler file cursor context statement site).2
      (Depth.block.looks (Scheme.handled file cursor home).next) := by
  unfold addHandler Scheme.handled
  cases cursor.field? "handler" with
  | none => exact .nil
  | some handler =>
    have armed := size_of_parents (firm_parents.pushArm facts context statement .handler)
    dsimp only [Depth.looks, Home.looks]
    rw [List.map_append, List.map_append]
    have bind : ∀ (inner : Context) (site : Nat) (param : Cursor), Task.Alike inner {}
        (.bind param inner (.declare "catch" site)) (.bind param {} (.declare "catch" 0)) :=
      fun _ _ param => alike_bind param rfl trivial
    exact List.rel_append (allDeep_of_alike {} (.option _ (bind _ _)) _ armed)
      (allDeep_of_alike {} (alike_fieldStatement handler "body") _ armed)

theorem allDeep_addGuarded (facts : Facts) (file : SourceFile) (cursor : Cursor) (context : Context)
    (home : Home) (form : StatementForm.ofKind cursor.kind = .guarded) :
    AllDeep context.scope facts.scopes.list.size (facts.addGuarded file cursor context).2
      (Look.alongStatement file cursor home) := by
  have opened := firm_parents.openStatement file facts cursor context .guarded
  unfold Look.alongStatement addGuarded
  rw [form]
  refine List.rel_append (List.rel_append ?_ ?_) ?_
  · unfold fieldStatement
    cases cursor.field? "body" with
    | none => exact .nil
    | some body => exact .cons rfl .nil
  · have same : ∀ middle : Facts, middle.parents = facts.parents → ∀ statement site,
        AllDeep context.scope facts.scopes.list.size
          (middle.addHandler file cursor context statement site).2
          (Depth.block.looks (Scheme.handled file cursor (home.below (statementNode file cursor))).next) := by
      intro middle parents statement site
      rw [← size_of_parents parents]
      exact allDeep_addHandler middle file cursor context _ statement site
    refine same _ ?_ _ _
    cases cursor.field? "body" with
    | none => exact opened
    | some body => exact (firm_parents.pushArm _ _ _ _).trans opened
  · unfold addCleanup
    cases (cursor.field? "finalizer").bind fun finalizer => finalizer.field? "body" with
    | none => exact .nil
    | some body => exact .cons rfl .nil

/-! ## Steps -/

section Steps

variable (facts : Facts) (file : SourceFile) (cursor : Cursor) (context : Context)

/-- A statement that opens no scope of its own gets scopes for the functions that it enters. -/
theorem goes_statement (there : context.scope < facts.scopes.list.size)
    (flat : StatementForm.ofKind cursor.kind ∉ StatementForm.opening) :
    ∃ nodes, facts.Goes (facts.statement file cursor context).1 context.scope nodes := by
  by_cases enters : StatementForm.ofKind cursor.kind ∈ [.function, .classLike]
  swap
  · exact ⟨[], .of_eq (steady_slots.statement file facts cursor context enters)
      (firm_parents.statement file facts cursor context enters flat)⟩
  simp only [List.mem_cons, List.not_mem_nil, or_false] at enters
  unfold Facts.statement
  rcases enters with form | form <;> rw [form]
  · exact ⟨_, goes_addFunction facts file cursor there none false⟩
  · obtain ⟨nodes, goes, -⟩ := rallies_addClass facts file cursor there none
    exact ⟨nodes, goes⟩

theorem goes_expression (there : context.scope < facts.scopes.list.size) (hint : Option Hint) :
    ∃ nodes, facts.Goes (facts.expression file cursor context hint).1 context.scope nodes := by
  by_cases other :
      ExpressionForm.ofKind cursor.kind ∉ [.reference, .function, .method, .classLike, .call]
  · exact ⟨[], .of_eq (steady_slots.expression file facts cursor context hint other)
      (firm_parents.expression file facts cursor context hint other)⟩
  simp only [List.mem_cons, List.not_mem_nil, or_false, not_not] at other
  unfold Facts.expression
  rcases other with form | form | form | form | form <;> rw [form]
  · refine ⟨[], .of_eq (steady_slots.addReference file facts cursor context) ?_⟩
    show (facts.addReference file cursor context).parents = _
    unfold addReference
    split <;> rfl
  · exact ⟨_, goes_addFunction facts file cursor there hint false⟩
  · exact ⟨_, goes_addFunction facts file cursor there none true⟩
  · obtain ⟨nodes, goes, -⟩ := rallies_addClass facts file cursor there hint
    exact ⟨nodes, goes⟩
  · exact ⟨[], .of_eq rfl rfl⟩

theorem parents_bind (mode : BindMode) : (facts.bind file cursor context mode).1.parents = facts.parents := by
  unfold bind
  split
  · cases mode with
    | declare word site => exact congrArg (List.map Prod.fst) (Scopes.frames_declareVariable _ _ _ _)
    | assign site => rfl
    | param position rest optional hasDefault =>
      exact congrArg (List.map Prod.fst) (Scopes.frames_declareVariable _ _ _ _)
  · rfl

end Steps

/-- What is left of a statement that opens a scope is in the scopes that the depths tell. -/
theorem allDeep_statement (facts : Facts) {cursor : Cursor} {home : Home}
    (opening : StatementForm.ofKind cursor.kind ∈ StatementForm.opening) {chart : List Yield}
    {after : Facts} {function : Option Nat} {count : Nat}
    (stands : List.Forall₂ (fun next look =>
      next.Stands chart after ⟨look.2.function function count, look.1⟩)
      (facts.statement file cursor context).2 (Look.alongStatement file cursor home)) :
    AllDeep context.scope facts.scopes.list.size (facts.statement file cursor context).2
      (Look.alongStatement file cursor home) := by
  have block : StatementForm.ofKind cursor.kind ∈ [.block, .forLoop, .forEach] →
      Look.alongStatement file cursor home =
        Depth.block.looks (Scheme.statement file cursor home).next →
      AllDeep context.scope facts.scopes.list.size (facts.statement file cursor context).2
        (Look.alongStatement file cursor home) := by
    intro form along
    rw [along] at stands ⊢
    refine forall₂_sides stands (scope_of_block facts file cursor context form)
      (fun look listed => ?_ : ∀ look ∈ _, look.2 = .block) fun next look _ scope deep => ?_
    · obtain ⟨other, -, rfl⟩ := List.mem_map.1 listed
      rfl
    · rw [deep]
      exact scope
  simp only [StatementForm.opening, List.mem_cons, List.not_mem_nil, or_false] at opening
  rcases opening with form | form | form | form | form
  · exact block (by simp [form]) (by rw [Look.alongStatement, form])
  · exact block (by simp [form]) (by rw [Look.alongStatement, form])
  · exact block (by simp [form]) (by rw [Look.alongStatement, form])
  · have switch : facts.statement file cursor context = facts.addSwitch file cursor context := by
      rw [statement, form]
    have along : Look.alongStatement file cursor home = (Scheme.statement file cursor home).next.map
        fun look => (look, if look.isStatement then Depth.block else Depth.level) := by
      rw [Look.alongStatement, form]
    rw [switch, along] at stands ⊢
    refine forall₂_sides stands (scope_of_switch facts file cursor context)
      (fun look listed => ?_ :
        ∀ look ∈ _, look.2 = if look.1.isStatement then Depth.block else Depth.level)
      fun next look stands scope deep => ?_
    · obtain ⟨other, -, rfl⟩ := List.mem_map.1 listed
      rfl
    · have written : next.look look.1.home = look.1 := stands.same
      have same : (next.look {}).isStatement = look.1.isStatement := by
        rw [← written]
        cases next <;> rfl
      rw [scope, deep, same]
      split <;> rfl
  · have guarded : facts.statement file cursor context = facts.addGuarded file cursor context := by
      rw [statement, form]
    rw [guarded]
    exact allDeep_addGuarded facts file cursor context home form

namespace Charted

variable {task : Task} {rest : List Task} {sight : Sight} {ahead : List Sight}

/-- The context of the task that comes next is in a scope that is there. -/
theorem scope_lt (visits : Visits file facts (task :: rest)) :
    task.context.scope < facts.scopes.list.size :=
  (visits.sound.2 task List.mem_cons_self).1.context.scope

/-- As many scopes are opened as the look says, all below the one where the walk is. -/
theorem parents_step (visits : Visits file facts (task :: rest))
    (charted : Charted file facts (task :: rest) (sight :: ahead)) :
    (facts.step file task).1.parents = facts.parents ++
      List.replicate (sight.look.scopeCount file) (some task.context.scope) := by
  have there := scope_lt visits
  have size := charted.plays.size
  have same := charted.head.same
  have gone : (∃ nodes, facts.Goes (facts.step file task).1 task.context.scope nodes) →
      (facts.step file task).1.parents = facts.parents ++
        List.replicate (sight.look.scheme file).functions.length (some task.context.scope) := by
    rintro ⟨nodes, goes⟩
    rw [Nat.add_left_cancel (size.symm.trans goes.functions)]
    exact goes.parents
  cases task with
  | statement cursor context =>
    have opens : sight.look.scopeCount file = Look.scopeCountStatement file cursor sight.look.home := by
      rw [← same]
      rfl
    by_cases opening : StatementForm.ofKind cursor.kind ∈ StatementForm.opening
    · rw [opens]
      exact parents_statement facts file cursor context there _ opening
    · refine (gone (goes_statement facts file cursor context there opening)).trans ?_
      rw [opens, Look.scopeCountStatement_of_flat opening, ← same]
      rfl
  | loopHeader cursor context =>
    rw [← same]
    exact (firm_parents.addLoopHeader file facts cursor context).trans (List.append_nil _).symm
  | bind cursor context mode =>
    have none : sight.look.scopeCount file = 0 := by
      rw [← same]
      show (Scheme.pattern file cursor _ _).functions.length = 0
      unfold Scheme.pattern
      split
      · cases mode <;> rfl
      · rfl
    rw [none]
    exact (parents_bind facts file cursor context mode).trans (List.append_nil _).symm
  | expression cursor context hint =>
    have opens : sight.look.scopeCount file = (sight.look.scheme file).functions.length := by
      rw [← same]
      rfl
    rw [opens]
    exact gone (goes_expression facts file cursor context there hint)

/-- The tasks that are left stand for the looks that follow, one by one. -/
theorem stands_step (charted : Charted file facts (task :: rest) (sight :: ahead)) :
    List.Forall₂ (fun next look => next.Stands file.yields (facts.step file task).1
      ⟨look.2.function sight.function facts.functions.size, look.1⟩)
      (facts.step file task).2 (sight.look.onward file) := by
  have stands := charted.plays.stands
  rwa [Look.sights_eq, AllStand, List.forall₂_map_right_iff] at stands

/-- What is left is in the scopes that the depths of the looks tell. -/
theorem depths_step (visits : Visits file facts (task :: rest))
    (charted : Charted file facts (task :: rest) (sight :: ahead)) :
    AllDeep task.context.scope facts.scopes.list.size (facts.step file task).2
      (sight.look.onward file) := by
  have there := scope_lt visits
  have stands := charted.stands_step
  have flat : (∀ next ∈ (facts.step file task).2, facts.Near task.context next) →
      (∀ look ∈ sight.look.onward file, look.2 ≠ .block) →
      AllDeep task.context.scope facts.scopes.list.size (facts.step file task).2
        (sight.look.onward file) := by
    intro around plain
    refine forall₂_sides stands around plain fun next look stands near other => ?_
    have function := stands.function
    rw [← charted.head.function] at function
    -- The number of a function that is new tells it from the one that is around.
    have old : ∀ number, task.context.function ≠ some (facts.functions.size + number) := by
      intro number given
      obtain ⟨id, -, about⟩ := charted.head.context.about given
      exact absurd about.lt (Nat.not_lt.2 (Nat.le_add_right _ _))
    cases depth : look.2 with
    | block => exact absurd depth other
    | level =>
      rw [depth] at function
      rcases near with ⟨-, same⟩ | ⟨number, given, -⟩
      · exact same
      · exact absurd (function.symm.trans given) (old number)
    | inside number =>
      rw [depth] at function
      rcases near with ⟨same, -⟩ | ⟨other, given, scope⟩
      · exact absurd (same.symm.trans function) (old number)
      · rw [Nat.add_left_cancel (Option.some.inj (given.symm.trans function))] at scope
        exact scope
  have plain := fun (cond : _) (look : Look × Depth) (listed : look ∈ sight.look.onward file) =>
    Look.depth_of_flat listed cond
  have same := charted.head.same
  cases task with
  | statement cursor context =>
    by_cases opening : StatementForm.ofKind cursor.kind ∈ StatementForm.opening
    swap
    · refine flat (near_statement facts file cursor context there opening)
        (plain fun other home known => ?_)
      obtain ⟨rfl, -⟩ := Look.statement.inj (same.trans known)
      exact opening
    have whole : sight.look.onward file = Look.alongStatement file cursor sight.look.home := by
      rw [← Look.onward_of_opening opening, ← same]
      rfl
    rw [whole] at stands ⊢
    exact allDeep_statement facts opening stands
  | loopHeader cursor context =>
    exact flat (near_addLoopHeader facts file cursor context) (plain (same ▸ nofun))
  | bind cursor context mode =>
    exact flat (near_bind facts file cursor context mode) (plain (same ▸ nofun))
  | expression cursor context hint =>
    exact flat (near_expression facts file cursor context there hint) (plain (same ▸ nofun))

end Charted

end Facts

end CodeGraph

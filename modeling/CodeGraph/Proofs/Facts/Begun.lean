import CodeGraph.Proofs.Facts.Recital

/-!
# Where functions begin

A function whose body is a block has a region without statements and accesses when the walk has just entered
it, and all that is left to do inside it is at no statement yet, at the root of the body, and in a scope that
receives the hoisted declarations (`Facts.Begins`). So it is after every step (`Facts.Charted.begins`).
-/

namespace CodeGraph

/-- The body of a function is a block, if there is one. -/
def Entry.Block (entry : Entry) : Prop :=
  ∀ body, entry.cursor.field? "body" = some body → body.kind = "statement_block"

/-- A scope goes on to receive hoisted declarations. -/
theorem Scopes.hoistsAt_of_prefix {scopes after : Scopes} (grown : scopes.frames <+: after.frames)
    {id : Nat} (hoists : scopes.hoistsAt id = true) : after.hoistsAt id = true := by
  unfold hoistsAt at hoists ⊢
  cases found : scopes.frames[id]? with
  | none =>
    rw [found] at hoists
    cases hoists
  | some frame =>
    obtain ⟨more, whole⟩ := grown
    rw [← whole, List.getElem?_append_left (List.getElem?_eq_some_iff.1 found).1]
    exact hoists

/-- A task is at no statement yet, at the root of a body, and in the scope of the body. -/
structure Task.Begun (facts : Facts) (task : Task) : Prop where
  statement : task.context.statement = none
  block : task.context.block = Skeleton.root
  hoists : facts.scopes.hoistsAt task.context.scope = true

/-- A region has neither statements nor accesses. -/
structure Region.Blank (region : Region) : Prop where
  skeleton : region.skeleton = .empty
  entry : region.entryAccesses = #[]
  accesses : region.accesses = #[]

namespace Facts

variable {file : SourceFile} {facts : Facts} {context : Context} {home : Home}

/-- On the way from one to another, the facts have got regions for functions, with nothing in them. Tasks are
inside these functions, and have not begun. -/
structure Begins (before after : Facts) (tasks : List Task) (functions : List Entry) : Prop where
  size : after.regions.size = before.regions.size + functions.length
  frames : before.scopes.frames <+: after.scopes.frames
  blank : ∀ (place : Nat) (entry : Entry), functions[place]? = some entry → entry.Block →
    ∃ region, after.regions[before.regions.size + place]? = some region ∧ region.Blank
  fresh : ∀ task ∈ tasks, before.regions.size ≤ task.context.region ∧
    task.context.region < after.regions.size
  begun : ∀ task ∈ tasks, ∀ (place : Nat) (entry : Entry), functions[place]? = some entry →
    entry.Block → task.context.region = before.regions.size + place → task.Begun after

namespace Begins

variable {before middle after : Facts} {tasks more : List Task} {functions others : List Entry}

theorem of_none (size : after.regions.size = before.regions.size)
    (frames : before.scopes.frames <+: after.scopes.frames) : Begins before after [] [] where
  size := size
  frames := frames
  blank := fun _ _ found => nomatch found
  fresh := List.forall_mem_nil _
  begun := List.forall_mem_nil _

/-- What comes later leaves the new regions alone. -/
theorem trans (first : Begins before middle tasks functions) (second : Begins middle after more others)
    (same : ∀ number, before.regions.size ≤ number → number < middle.regions.size →
      after.regions[number]? = middle.regions[number]?) :
    Begins before after (more ++ tasks) (functions ++ others) := by
  have size := first.size
  have regions : ∀ place, functions.length ≤ place →
      before.regions.size + place = middle.regions.size + (place - functions.length) := by
    intro place beyond
    omega
  refine ⟨?_, first.frames.trans second.frames, fun place entry found block => ?_,
    fun task there => ?_, fun task there place entry found block here => ?_⟩
  · rw [second.size, size, List.length_append, Nat.add_assoc]
  · rw [List.getElem?_append] at found
    split at found
    · next less =>
      rw [same _ (Nat.le_add_right _ _) (by omega)]
      exact first.blank place entry found block
    · next beyond =>
      rw [regions place (Nat.le_of_not_lt beyond)]
      exact second.blank _ entry found block
  · rcases List.mem_append.1 there with new | old
    · have fresh := second.fresh task new
      omega
    · have fresh := first.fresh task old
      rw [second.size]
      omega
  · rw [List.getElem?_append] at found
    rcases List.mem_append.1 there with new | old
    · have fresh := second.fresh task new
      split at found
      · omega
      · next beyond =>
        exact second.begun task new _ entry found block
          (here.trans (regions place (Nat.le_of_not_lt beyond)))
    · split at found
      · obtain ⟨statement, block, hoists⟩ := first.begun task old place entry found block here
        exact ⟨statement, block, Scopes.hoistsAt_of_prefix second.frames hoists⟩
      · next beyond =>
        have fresh := first.fresh task old
        omega

end Begins

theorem still_size : Still fun facts => facts.regions.size where
  place := fun _ _ _ => rfl
  pushScope := fun _ _ _ => rfl
  pushStatement := size_pushStatement
  pushArm := size_pushArm
  recordReturn := fun _ function _ => by cases function <;> rfl

section Function

variable (facts : Facts) (file : SourceFile) (cursor : Cursor) (context : Context) (hint : Option Hint)
  (isMethod : Bool) (node : Node)

/-- All that is left of a function is inside it, and right inside it if its body is a block. -/
theorem inside_addFunction {task : Task}
    (there : task ∈ (facts.addFunction file cursor context hint isMethod).tasks) :
    task.context.region = facts.regions.size ∧ (({ cursor, node } : Entry).Block →
      task.context = (facts.enterFunction file cursor context hint isMethod).inner) := by
  let entered := facts.enterFunction file cursor context hint isMethod
  have number : entered.inner.region = facts.regions.size :=
    congrArg Context.region (inner_enterFunction facts file cursor context hint isMethod)
  have at_ : task.context = entered.inner → task.context.region = facts.regions.size ∧
      (({ cursor, node } : Entry).Block → task.context = entered.inner) := fun same =>
    ⟨(congrArg Context.region same).trans number, fun _ => same⟩
  rcases List.mem_append.1 there with param | body
  · obtain ⟨entry, -, here⟩ := List.mem_flatMap.1 param
    refine at_ ?_
    unfold Parameter.tasks at here
    rcases List.mem_append.1 here with fallback | bound
    · obtain ⟨child, -, rfl⟩ := Option.map_eq_some_iff.1 (Option.mem_toList.1 fallback)
      rfl
    · obtain rfl := List.mem_singleton.1 bound
      rfl
  · change task ∈ (entered.facts.functionBody file cursor entered.inner).2 at body
    unfold functionBody at body
    split at body
    · cases body
    · next given =>
      split at body
      · obtain ⟨child, -, rfl⟩ := List.mem_map.1 body
        exact at_ rfl
      · next other =>
        obtain rfl := List.mem_singleton.1 body
        exact ⟨number, fun block => absurd (block _ given) other⟩

/-- Nothing is done for a body that is a block when the function is entered. -/
theorem facts_addFunction_of_block (block : ({ cursor, node } : Entry).Block) :
    (facts.addFunction file cursor context hint isMethod).facts =
      (facts.enterFunction file cursor context hint isMethod).facts := by
  show (functionBody _ file cursor _).1 = _
  unfold functionBody
  split
  · rfl
  · next given => rw [if_pos (block _ given)]

/-- All that is left of a function is inside it, and has not begun if its body is a block. -/
theorem begins_addFunction : Begins facts (facts.addFunction file cursor context hint isMethod).facts
    (facts.addFunction file cursor context hint isMethod).tasks [{ cursor, node }] := by
  let entered := facts.enterFunction file cursor context hint isMethod
  have inner := inner_enterFunction facts file cursor context hint isMethod
  have regions := regions_enterFunction facts file cursor context hint isMethod
  have grown := extends_functionBody entered.facts file cursor entered.inner
  have size : (facts.addFunction file cursor context hint isMethod).facts.regions.size =
      facts.regions.size + 1 := by
    rw [still_size.addFunction, ← Array.size_push]
    exact congrArg Array.size regions
  have only : ∀ {place : Nat} {entry : Entry}, [({ cursor, node } : Entry)][place]? = some entry →
      place = 0 ∧ entry = { cursor, node } := by
    intro place entry found
    cases place with
    | zero => exact ⟨rfl, (Option.some.inj found).symm⟩
    | succ place => cases found
  refine ⟨size, (extends_addFunction facts file cursor context hint isMethod).frames,
    fun place entry found block => ?_, fun task there => ?_, fun task there place entry found block _ => ?_⟩
  · obtain ⟨rfl, rfl⟩ := only found
    refine ⟨{ owner := some entered.node }, ?_, rfl, rfl, rfl⟩
    rw [facts_addFunction_of_block facts file cursor context hint isMethod node block]
    exact region_enterFunction facts file cursor context hint isMethod
  · have here := (inside_addFunction facts file cursor context hint isMethod node there).1
    omega
  · obtain ⟨rfl, rfl⟩ := only found
    have here := (inside_addFunction facts file cursor context hint isMethod node there).2 block
    have scope : entered.inner.scope = facts.scopes.list.size := congrArg Context.scope inner
    have hoists : entered.facts.scopes.hoistsAt task.context.scope = true := by
      rw [here, scope]
      exact hoistsAt_enterFunction facts file cursor context hint isMethod
    exact ⟨by rw [here]; exact congrArg Context.statement inner,
      by rw [here]; exact congrArg Context.block inner, Scopes.hoistsAt_of_prefix grown.frames hoists⟩

end Function

/-! ## Classes -/

section Members

variable {chart : List Yield} {begun : Facts} {adding : Adding} {yields : List Yield} {own : List Look}
  {functions : List Entry}

/-- The methods among the members of a class have not begun. -/
theorem Gathers.begins_members (cursors : List Cursor)
    (gathers : Gathers file chart begun context home adding yields own functions)
    (within : ∀ cursor ∈ cursors, (Scheme.member file cursor home).puts file ⊆ chart) {node : Nat}
    (parent : context.parent = some node) (number : Nat) {before : Facts}
    (outside : context.region < before.regions.size) {done : List Entry}
    (begins : Begins before adding.facts adding.methods done) :
    Begins before (cursors.foldl (Adding.member file context number node) adding).facts
      (cursors.foldl (Adding.member file context number node) adding).methods
      (done ++ (cursors.map fun cursor => Scheme.member file cursor home).flatMap
        Scheme.Member.functions) := by
  refine Gathers.relate_members (fun first second _ functions => ∀ done,
      Begins before first.facts first.methods done →
        Begins before second.facts second.methods (done ++ functions))
    (fun adding done begins => by rwa [List.append_nil])
    (fun one two done begins => by rw [← List.append_assoc]; exact two _ (one done begins))
    (fun {adding} _ _ _ _ cursor hint done begins => ?_)
    (fun {adding} _ _ _ _ name value done begins => ?_) cursors gathers within parent done begins
  · have added := begins_addFunction adding.facts file cursor context hint true
      (functionNode file cursor (givenName file cursor hint) true (Parameter.ofFunction cursor).length)
    have method : Begins adding.facts (adding.method file cursor context hint number).facts
        (adding.facts.addFunction file cursor context hint true).tasks
        (Scheme.method file cursor home hint).functions :=
      ⟨added.size, added.frames, added.blank, added.fresh, fun task there place entry found block here =>
        have begun := added.begun task there place entry found block here
        ⟨begun.statement, begun.block, begun.hoists⟩⟩
    exact begins.trans method fun number _ old =>
      getElem?_addFunction adding.facts file cursor context hint true old
  · have field : Begins adding.facts (adding.field file name value context node).facts [] [] :=
      .of_none Array.size_modify (List.prefix_refl _)
    refine begins.trans field fun number new _ => ?_
    have other : context.region ≠ number := Nat.ne_of_lt (Nat.lt_of_lt_of_le outside new)
    show (Facts.record _ context _).regions[number]? = _
    rw [getElem?_record, if_neg other]
    rfl

/-- What the members of a class leave for the class itself is at the class. -/
theorem Gathers.own_members (cursors : List Cursor)
    (gathers : Gathers file chart begun context home adding yields own functions)
    (within : ∀ cursor ∈ cursors, (Scheme.member file cursor home).puts file ⊆ chart) {node : Nat}
    (parent : context.parent = some node) (number : Nat) :
    ∀ task ∈ (cursors.foldl (Adding.member file context number node) adding).own,
      task ∈ adding.own ∨ ∃ value, task = .expression value context none := by
  refine Gathers.relate_members (fun first second _ _ => ∀ task ∈ second.own,
      task ∈ first.own ∨ ∃ value, task = .expression value context none)
    (fun _ _ there => .inl there) (fun one two task there => ?_) (fun _ _ _ _ there => .inl there)
    (fun _ name value task there => ?_) cursors gathers within parent
  · rcases two task there with old | new
    · exact one task old
    · exact .inr new
  · rcases List.mem_append.1 there with old | new
    · exact .inl old
    · obtain ⟨child, -, rfl⟩ := Option.map_eq_some_iff.1 (Option.mem_toList.1 new)
      exact .inr ⟨child, rfl⟩

end Members

end Facts

/-! ## Steps -/

/-- A task goes on in the body in which another one was, at a statement or at none. -/
structure Task.GoesOn (context : Context) (statement : Option Nat) (task : Task) : Prop where
  region : task.context.region = context.region
  scope : task.context.scope = context.scope
  statement : task.context.statement = statement
  part : task.adds = false

/-- A look that enters functions is simple. -/
theorem Look.isSimple_of_enters {file : SourceFile} {look : Look}
    (enters : (look.scheme file).functions ≠ []) : look.isSimple = true := by
  cases look with
  | loopHeader cursor home => exact absurd rfl enters
  | bind cursor home mode => rfl
  | expression cursor home hint => rfl
  | statement cursor home =>
    change (Scheme.statement file cursor home).functions ≠ [] at enters
    show cursor.isSimple = true
    unfold Scheme.statement at enters
    unfold Cursor.isSimple
    have single : (Scheme.single file cursor home).functions = [] := by
      unfold Scheme.single
      split
      · rfl
      · split <;> rfl
    have exported : (Scheme.exported file cursor home).functions = [] := by
      unfold Scheme.exported
      split <;> rfl
    cases form : StatementForm.ofKind cursor.kind <;> simp only [form] at enters ⊢ <;>
      first | exact absurd rfl enters | exact absurd single enters | exact absurd exported enters

namespace Facts

variable {file : SourceFile} {facts : Facts} {context : Context} {home : Home} {task : Task}
  {rest : List Task} {sight : Sight} {ahead : List Sight}

/-- What a task leaves goes on in its body, at a statement or at none, or is inside functions that have not
begun. -/
def Leaves (facts : Facts) (context : Context) (statement : Option Nat) (result : Facts × List Task)
    (functions : List Entry) : Prop :=
  ∃ own later, result.2 = own ++ later ∧ (∀ next ∈ own, next.GoesOn context statement) ∧
    Begins facts result.1 later functions

/-- No function is entered, and nothing is left. -/
theorem Leaves.of_nothing {context : Context} {statement : Option Nat} {after : Facts}
    (begins : Begins facts after [] []) : Leaves facts context statement (after, []) [] :=
  ⟨[], [], rfl, List.forall_mem_nil _, begins⟩

/-- If no function is entered, everything that is left goes on. -/
theorem Leaves.of_goesOn {context : Context} {statement : Option Nat} {result : Facts × List Task}
    {functions : List Entry} (begins : functions = [] → Begins facts result.1 [] [])
    (none : functions = []) (all : ∀ next ∈ result.2, next.GoesOn context statement) :
    Leaves facts context statement result functions :=
  ⟨result.2, [], (List.append_nil _).symm, all, none ▸ begins none⟩

theorem leaves_class (on : On file file.yields facts 0 facts context home) {cursor : Cursor}
    {hint : Option Hint} (outside : context.region < facts.regions.size)
    (within : (Scheme.classLike file cursor home hint).puts file ⊆ file.yields) :
    Leaves facts context context.statement (facts.addClass file cursor context hint)
      (Scheme.classLike file cursor home hint).functions := by
  let node := classNode file cursor (givenName file cursor hint)
  have opening := on.openClass within
  have members := fun plain : cursor.kind ≠ "enum_declaration" => subset_of_members plain within
  have begins : Begins facts
      { (facts.place node context.parent).1 with
        classes := facts.classes.push { name := givenName file cursor hint } } [] [] :=
    .of_none rfl (List.prefix_refl _)
  unfold Facts.addClass Scheme.classLike
  by_cases enumeration : cursor.kind = "enum_declaration"
  · simp only [if_pos enumeration]
    exact .of_nothing begins
  · simp only [if_neg enumeration]
    have start := opening.gathers (List.forall_mem_nil _)
    refine ⟨_, _, rfl, fun next there => ?_,
      start.begins_members _ (members enumeration) rfl _ outside begins⟩
    rcases List.mem_append.1 there with base | own
    · obtain ⟨child, -, rfl⟩ := Option.map_eq_some_iff.1 (Option.mem_toList.1 base)
      exact ⟨rfl, rfl, rfl, rfl⟩
    · rcases start.own_members _ (members enumeration) rfl _ next own with none | ⟨value, rfl⟩
      · cases none
      · exact ⟨rfl, rfl, rfl, rfl⟩

/-- Tasks of a function that is added are inside it, and have not begun. -/
theorem leaves_function (facts : Facts) (file : SourceFile) (cursor : Cursor) (context : Context)
    (hint : Option Hint) (isMethod : Bool) (statement : Option Nat) (node : Node) :
    Leaves facts context statement
      ((facts.addFunction file cursor context hint isMethod).facts,
        (facts.addFunction file cursor context hint isMethod).tasks) [{ cursor, node }] :=
  ⟨[], _, rfl, List.forall_mem_nil _, begins_addFunction facts file cursor context hint isMethod node⟩

/-- Tasks in one context go on there, if they are at patterns and expressions. -/
theorem goesOn_of_alike {other : Context} {statement : Option Nat} {tasks plain : List Task}
    (home : Home)
    (alike : AllAlike other home tasks plain) (parts : ∀ next ∈ tasks, next.adds = false)
    (region : other.region = context.region) (scope : other.scope = context.scope)
    (place : other.statement = statement) : ∀ next ∈ tasks, next.GoesOn context statement := by
  induction alike with
  | nil => exact List.forall_mem_nil _
  | cons first _ ih =>
    intro next there
    rcases List.mem_cons.1 there with rfl | later
    · rw [← first.context] at region scope place
      exact ⟨region, scope, place, parts next there⟩
    · exact ih (fun other inside => parts other (List.mem_cons_of_mem _ inside)) next later

section Parts

variable (facts : Facts) (file : SourceFile) (cursor : Cursor) (context : Context)

theorem goesOn_descend : ∀ next ∈ descend cursor context, next.GoesOn context context.statement :=
  goesOn_of_alike {} (alike_descend cursor) Look.parts_expressions rfl rfl rfl

/-- The parts of a site are looked at in its context, which is in the same body and at the same statement. -/
theorem goesOn_atSite (site : Nat) {tasks : List Task}
    (parts : ∀ next ∈ tasks, next.context = context.atSite site ∧ next.adds = false) :
    ∀ next ∈ tasks, next.GoesOn context context.statement := by
  intro next there
  obtain ⟨same, part⟩ := parts next there
  exact ⟨by rw [same]; rfl, by rw [same]; rfl, by rw [same]; rfl, part⟩

theorem goesOn_addCall : ∀ next ∈ (facts.addCall file cursor context).2,
    next.GoesOn context context.statement := by
  refine goesOn_atSite context
    (facts.place (callNode file cursor (callSyntax file cursor)) context.parent).2 fun next there => ?_
  rcases List.mem_append.1 there with target | argument
  · obtain ⟨child, -, rfl⟩ := Option.map_eq_some_iff.1 (Option.mem_toList.1 target)
    exact ⟨rfl, rfl⟩
  · obtain ⟨child, -, rfl⟩ := List.mem_map.1 argument
    exact ⟨rfl, rfl⟩

/-- The parts of an assignment are looked at in one order or the other. -/
theorem goesOn_addAssignment (augmented : Bool) :
    ∀ next ∈ (facts.addAssignment file cursor context augmented).2,
      next.GoesOn context context.statement := by
  unfold addAssignment
  cases cursor.field? "left" with
  | none => exact goesOn_descend cursor context
  | some left =>
    cases cursor.field? "right" with
    | none => exact goesOn_descend cursor context
    | some right =>
      refine goesOn_atSite context (facts.openExpression file cursor context).2 fun next there => ?_
      cases augmented <;>
        simp only [Bool.false_eq_true, if_true, if_false, List.mem_cons, List.not_mem_nil,
          or_false] at there <;>
        rcases there with rfl | rfl | rfl <;> exact ⟨rfl, rfl⟩

theorem goesOn_addUpdate : ∀ next ∈ (facts.addUpdate file cursor context).2,
    next.GoesOn context context.statement := by
  unfold addUpdate
  cases cursor.field? "argument" with
  | none => exact goesOn_descend cursor context
  | some argument =>
    refine goesOn_atSite context (facts.openExpression file cursor context).2 fun next there => ?_
    rcases List.mem_pair.1 there with rfl | rfl <;> exact ⟨rfl, rfl⟩

end Parts

theorem functions_assignment {cursor : Cursor} (augmented : Bool) :
    (Scheme.assignment file cursor home augmented).functions = [] := by
  unfold Scheme.assignment
  split <;> rfl

theorem functions_update {cursor : Cursor} : (Scheme.update file cursor home).functions = [] := by
  unfold Scheme.update
  split <;> rfl

/-- The statement that is opened has the next number. -/
theorem statement_openStatement (known : context.Known facts) (file : SourceFile) (cursor : Cursor)
    (kind : StatementKind) : (facts.openStatement file cursor context kind).context.statement =
      some (facts.statementsIn context.region) :=
  congrArg some (Inside.number_pushStatement (known.later (extends_place facts _ _)) _ kind).1

section Steps

variable (on : On file file.yields facts 0 facts context home) {cursor : Cursor}
  (known : context.Known facts) (outside : context.region < facts.regions.size)
include on known outside

theorem leaves_statement (within : (Scheme.statement file cursor home).puts file ⊆ file.yields)
    (simple : cursor.isSimple = true)
    (begins : (Scheme.statement file cursor home).functions = [] →
      Begins facts (facts.statement file cursor context).1 [] []) :
    Leaves facts context
      (if cursor.opens = true then some (facts.statementsIn context.region) else context.statement)
      (facts.statement file cursor context) (Scheme.statement file cursor home).functions := by
  have number := statement_openStatement known file cursor .simple
  have single : ∀ value, ∀ next ∈
      [Task.expression value (facts.openStatement file cursor context .simple).context none],
        next.GoesOn context (some (facts.statementsIn context.region)) := by
    intro value next there
    obtain rfl := List.mem_singleton.1 there
    exact ⟨rfl, rfl, number, rfl⟩
  unfold Cursor.isSimple at simple
  unfold Cursor.opens
  unfold Scheme.statement Facts.statement at begins ⊢
  unfold Scheme.statement at within
  cases form : StatementForm.ofKind cursor.kind <;> simp only [form] at simple within begins ⊢ <;>
    try contradiction
  case declaration =>
    refine .of_goesOn begins rfl (goesOn_of_alike home (.flatMap _ fun declarator =>
      alike_declaratorTasks file _ _ declarator) ?_ rfl rfl number)
    intro next there
    obtain ⟨declarator, -, here⟩ := List.mem_flatMap.1 there
    exact Look.parts_declaratorTasks _ _ _ declarator next here
  case expression =>
    unfold addExpressionStatement Scheme.single at begins ⊢
    cases found : cursor.firstNamed? with
    | none =>
      exact .of_nothing (.of_none rfl (List.prefix_refl _))
    | some inner =>
      have plain : ¬(inner.kind = "internal_module" ∨ inner.kind = "module") := by
        rw [found] at simple
        simpa [not_or] using simple
      simp only [found, if_neg plain] at begins ⊢
      exact .of_goesOn begins rfl (single inner)
  case function => exact leaves_function facts file cursor context none false _ _
  case classLike => exact leaves_class on outside within
  case inert => exact .of_nothing (.of_none rfl (List.prefix_refl _))
  case plain => exact .of_goesOn begins rfl (single cursor)

omit known in
theorem leaves_expression {hint : Option Hint}
    (within : (Scheme.expression file cursor home hint).puts file ⊆ file.yields)
    (begins : (Scheme.expression file cursor home hint).functions = [] →
      Begins facts (facts.expression file cursor context hint).1 [] []) :
    Leaves facts context context.statement (facts.expression file cursor context hint)
      (Scheme.expression file cursor home hint).functions := by
  have quiet : Begins facts facts [] [] := .of_none rfl (List.prefix_refl _)
  unfold Scheme.expression Facts.expression at begins ⊢
  unfold Scheme.expression at within
  cases form : ExpressionForm.ofKind cursor.kind <;> simp only [form] at within begins ⊢
  case reference => exact .of_nothing (begins trivial)
  case function => exact leaves_function facts file cursor context hint false _ _
  case method => exact leaves_function facts file cursor context none true _ _
  case classLike => exact leaves_class on outside within
  case call => exact .of_goesOn begins rfl (goesOn_addCall facts file cursor context)
  case assignment =>
    exact .of_goesOn begins (functions_assignment false) (goesOn_addAssignment facts file cursor context _)
  case augmented =>
    exact .of_goesOn begins (functions_assignment true) (goesOn_addAssignment facts file cursor context _)
  case update =>
    exact .of_goesOn begins functions_update (goesOn_addUpdate facts file cursor context)
  case pair =>
    exact .of_goesOn (fun _ => quiet) rfl
      (goesOn_of_alike home (alike_pairTasks file cursor) (Look.parts_pairTasks cursor context) rfl rfl
        rfl)
  case type => exact .of_nothing quiet
  case compound => exact .of_goesOn (fun _ => quiet) rfl (goesOn_descend cursor context)

end Steps

/-- What a step at a simple look leaves. -/
theorem Charted.leaves (charted : Charted file facts (task :: rest) (sight :: ahead))
    (known : task.Known facts) (simple : sight.look.isSimple = true) :
    Leaves facts task.context
      (if sight.look.opens = true then some (facts.statementsIn task.context.region)
        else task.context.statement)
      (facts.step file task) (sight.look.scheme file).functions := by
  have plays := charted.plays
  have within := charted.puts_subset
  have on := charted.on
  have outside := known.context.region_lt
  have begins : (sight.look.scheme file).functions = [] →
      Begins facts (facts.step file task).1 [] [] := by
    intro none
    have size := plays.size
    rw [none, List.length_nil] at size
    have before := charted.charts.size_regions
    have after := plays.charts.size_regions
    exact .of_none (by omega) plays.extend.frames
  have direct := charted.head.direct
  rw [← charted.head.same] at within simple begins ⊢
  generalize sight.look.home = home at within simple on begins direct ⊢
  cases task with
  | statement cursor context => exact leaves_statement on known.context outside within simple begins
  | loopHeader cursor context => cases simple
  | bind cursor context mode =>
    show Leaves facts context context.statement (facts.bind file cursor context mode)
      (Scheme.pattern file cursor home mode.plain).functions
    change (Scheme.pattern file cursor home mode.plain).functions = [] →
      Begins facts (facts.bind file cursor context mode).1 [] [] at begins
    have none : (Scheme.pattern file cursor home mode.plain).functions = [] := by
      unfold Scheme.pattern
      split
      · cases mode <;> rfl
      · rfl
    refine .of_goesOn begins none ?_
    unfold Facts.bind
    split
    · exact List.forall_mem_nil _
    · exact goesOn_of_alike home (alike_patternTasks cursor direct)
        (Look.parts_patternTasks cursor context mode) rfl rfl rfl
  | expression cursor context hint => exact leaves_expression on outside within begins

section Left

variable (charted : Charted file facts (task :: rest) (sight :: ahead)) (known : task.Known facts)
include charted known

/-- What a step at a simple look leaves in its own region goes on there. -/
theorem Charted.goesOn (simple : sight.look.isSimple = true) {next : Task}
    (listed : next ∈ (facts.step file task).2) (here : next.context.region = task.context.region) :
    next.GoesOn task.context (if sight.look.opens = true
      then some (facts.statementsIn task.context.region) else task.context.statement) := by
  have outside := known.context.region_lt
  obtain ⟨going, later, leaves, goesOn, begins⟩ := charted.leaves known simple
  rw [leaves] at listed
  rcases List.mem_append.1 listed with on | new
  · exact goesOn next on
  · have fresh := (begins.fresh next new).1
    omega

variable {place : Nat} {entry : Entry} (found : (sight.look.scheme file).functions[place]? = some entry)
include found

omit charted known in
/-- A look that enters a function is simple. -/
theorem simple_of_enters : sight.look.isSimple = true :=
  Look.isSimple_of_enters fun none => by
    rw [none] at found
    cases found

variable (block : entry.Block)
include block

/-- A function that a step enters has a region with nothing in it, if its body is a block. -/
theorem Charted.blank_entered : ∃ region,
    (facts.step file task).1.regions[facts.regions.size + place]? = some region ∧ region.Blank := by
  obtain ⟨going, later, leaves, goesOn, begins⟩ := charted.leaves known (simple_of_enters found)
  exact begins.blank place entry found block

/-- What a step leaves inside such a function has not begun. -/
theorem Charted.begun_entered {next : Task} (listed : next ∈ (facts.step file task).2)
    (here : next.context.region = facts.regions.size + place) :
    next.Begun (facts.step file task).1 := by
  have outside := known.context.region_lt
  obtain ⟨going, later, leaves, goesOn, begins⟩ := charted.leaves known (simple_of_enters found)
  rw [leaves] at listed
  rcases List.mem_append.1 listed with on | new
  · have same := (goesOn next on).region
    omega
  · exact begins.begun next new place entry found block here

end Left

end Facts

end CodeGraph

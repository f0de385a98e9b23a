import CodeGraph.Proofs.Facts.Sound

/-!
# Inside a step

How the operations follow each other inside a step. `Facts.Inside` says where the walk is in the
middle of a step, `Facts.Proceeds` that it gets from there to some facts and leaves tasks that fit them
(`Task.Fits`). There is one lemma for each operation, and one for each way of making a context out of
another.
-/

namespace CodeGraph

/-- A task fits the facts, and lies within the context in which the walk began. -/
structure Task.Fits (base : Facts) (outer : Context) (adds : Bool) (facts : Facts) (task : Task) :
    Prop where
  within : outer.Within base task.context
  allowed : base.regions.size ≤ task.context.region ∨ (task.adds = true → adds = true)
  known : task.Known facts

theorem Task.Fits.later {base before after : Facts} {outer : Context} {adds : Bool} {task : Task}
    (fits : task.Fits base outer adds before) (extend : before.Extends after) :
    task.Fits base outer adds after :=
  ⟨fits.within, fits.allowed, fits.known.later extend⟩

namespace Facts

/-- `Inside file base outer adds begun facts context`: a walk that began with `base` in `outer` has made
`facts`, is now in `context`, and came by the facts `begun`. -/
structure Inside (file : SourceFile) (base : Facts) (outer : Context) (adds : Bool)
    (begun facts : Facts) (context : Context) : Prop where
  begins : Sound file base
  made : Makes file base outer adds facts
  extend : begun.Extends facts
  within : outer.Within base context
  known : context.Known facts

/-- `Proceeds file base outer adds begun result`: the walk gets from the facts `begun` to those of the
result, and the tasks of the result fit them. -/
structure Proceeds (file : SourceFile) (base : Facts) (outer : Context) (adds : Bool) (begun : Facts)
    (result : Facts × List Task) : Prop where
  made : Makes file base outer adds result.1
  extend : begun.Extends result.1
  fits : ∀ task ∈ result.2, task.Fits base outer adds result.1

/-- A statement of a region that has come since the walk began with `base`. -/
structure Fresh (base facts : Facts) (region number : Nat) : Prop where
  there : number < facts.statementsIn region
  new : base.statementsIn region ≤ number

theorem Fresh.later {base before after : Facts} {region number : Nat}
    (fresh : Fresh base before region number) (extend : before.Extends after) :
    Fresh base after region number :=
  ⟨Nat.lt_of_lt_of_le fresh.there (extend.statements region), fresh.new⟩

variable {file : SourceFile} {base begun facts : Facts} {outer context : Context} {adds : Bool}

namespace Inside

/-! ## Contexts -/

/-- The facts stay sound. -/
theorem sound (inside : Inside file base outer adds begun facts context) : Sound file facts :=
  inside.made.sound inside.begins

/-- The walk is where it was when more has been made. -/
theorem later (inside : Inside file base outer adds begun facts context) {after : Facts}
    (made : Makes file base outer adds after) (extend : facts.Extends after) :
    Inside file base outer adds begun after context :=
  ⟨inside.begins, made, inside.extend.trans extend, inside.within, inside.known.later extend⟩

/-- The walk is where it was when a part of the step is done. -/
theorem past (inside : Inside file base outer adds begun facts context)
    {result : Facts × List Task} (proceeds : Proceeds file base outer adds facts result) :
    Inside file base outer adds begun result.1 context :=
  inside.later proceeds.made proceeds.extend

/-- A part of the step begins. -/
theorem restart (inside : Inside file base outer adds begun facts context) :
    Inside file base outer adds facts facts context :=
  { inside with extend := .refl facts }

/-- The walk goes to another context of the same region, at the same statement or at none. -/
theorem go (inside : Inside file base outer adds begun facts context) {other : Context}
    (region : other.region = context.region)
    (statement : other.statement = context.statement ∨ other.statement = none)
    (known : other.Known facts) : Inside file base outer adds begun facts other := by
  refine ⟨inside.begins, inside.made, inside.extend, ?_, known⟩
  cases inside.within with
  | elsewhere new => exact .elsewhere (region ▸ new)
  | here same at_ =>
    refine .here (region.trans same) fun number given => ?_
    rcases statement with kept | none
    · exact at_ number (kept ▸ given)
    · rw [none] at given
      cases given

theorem atSite (inside : Inside file base outer adds begun facts context) {site : Nat}
    (there : facts.graph.KindIn site NodeKind.sites) (around : context.Around facts site) :
    Inside file base outer adds begun facts (context.atSite site) :=
  inside.go rfl (.inl rfl)
    { inside.known with
      site := fun _ given => Option.some.inj given ▸ there
      parent := fun _ given => Option.some.inj given ▸ there.lt
      inside := fun _ => rfl
      around := fun _ given => Option.some.inj given ▸ around
      seat := fun _ given => given }

theorem inScope (inside : Inside file base outer adds begun facts context) {scope : Nat}
    (there : scope < facts.scopes.list.size)
    (body : facts.scopes.bodies[context.region]? = some (facts.scopes.hoistTarget scope)) :
    Inside file base outer adds begun facts { context with scope } :=
  inside.go rfl (.inl rfl) { inside.known with scope := there, body }

theorem below (inside : Inside file base outer adds begun facts context) {parent : Nat}
    (there : parent < facts.graph.nodes.size) (around : context.Around facts parent)
    (free : context.site = none) :
    Inside file base outer adds begun facts { context with parent := some parent } :=
  inside.go rfl (.inl rfl)
    { inside.known with
      parent := fun _ given => Option.some.inj given ▸ there
      inside := fun _ => rfl
      around := fun _ given => Option.some.inj given ▸ around
      seat := fun _ given => nomatch free.symm.trans given }

theorem enter (inside : Inside file base outer adds begun facts context) {block parent : Nat}
    (there : block < facts.blocksIn context.region) (stands : parent < facts.graph.nodes.size)
    (around : context.Around facts parent) :
    Inside file base outer adds begun facts (context.enter block parent) :=
  inside.go rfl (.inr rfl)
    { inside.known with
      block := there
      statement := fun _ given => nomatch given
      site := fun _ given => nomatch given
      parent := fun _ given => Option.some.inj given ▸ stands
      inside := fun _ => rfl
      around := fun _ given => Option.some.inj given ▸ around
      seat := fun _ given => nomatch given }

/-- The walk comes to a statement that is new. -/
theorem atStatement (inside : Inside file base outer adds begun facts context) {number : Nat}
    (fresh : Fresh base facts context.region number) :
    Inside file base outer adds begun facts { context with statement := some number } := by
  refine ⟨inside.begins, inside.made, inside.extend, ?_,
    { inside.known with statement := fun _ given => Option.some.inj given ▸ fresh.there }⟩
  cases inside.within with
  | elsewhere new => exact .elsewhere new
  | here same at_ =>
    refine .here same fun other given => ?_
    obtain rfl := Option.some.inj given
    exact .inr (same ▸ fresh.new)

/-! ## Tasks -/

theorem statement (inside : Inside file base outer adds begun facts context)
    (may : base.regions.size ≤ context.region ∨ adds = true) (cursor : Cursor) :
    (Task.statement cursor context).Fits base outer adds facts :=
  ⟨inside.within, may.imp id fun yes _ => yes,
    inside.known, (fun _ given => nomatch given), fun no => nomatch no⟩

theorem loopHeader (inside : Inside file base outer adds begun facts context)
    (may : base.regions.size ≤ context.region ∨ adds = true) (cursor : Cursor) :
    (Task.loopHeader cursor context).Fits base outer adds facts :=
  ⟨inside.within, may.imp id fun yes _ => yes,
    inside.known, (fun _ given => nomatch given), fun no => nomatch no⟩

theorem expression (inside : Inside file base outer adds begun facts context)
    (sited : context.Sited) (cursor : Cursor) (hint : Option Hint) :
    (Task.expression cursor context hint).Fits base outer adds facts :=
  ⟨inside.within, .inr (fun no => nomatch no),
    inside.known, (fun _ given => nomatch given), fun _ => sited⟩

theorem bind (inside : Inside file base outer adds begun facts context) (sited : context.Sited)
    (cursor : Cursor) (mode : BindMode)
    (there : ∀ site, mode.site? = some site →
      facts.graph.KindIn site NodeKind.writers ∧ context.parent = some site) :
    (Task.bind cursor context mode).Fits base outer adds facts :=
  ⟨inside.within, .inr (fun no => nomatch no), inside.known, there, fun _ => sited⟩

theorem statements (inside : Inside file base outer adds begun facts context)
    (may : base.regions.size ≤ context.region ∨ adds = true) (cursors : List Cursor) :
    ∀ task ∈ cursors.map fun child => Task.statement child context,
      task.Fits base outer adds facts := by
  intro task there
  obtain ⟨child, -, rfl⟩ := List.mem_map.1 there
  exact inside.statement may child

theorem expressions (inside : Inside file base outer adds begun facts context)
    (sited : context.Sited) (cursors : List Cursor) :
    ∀ task ∈ cursors.map fun child => Task.expression child context none,
      task.Fits base outer adds facts := by
  intro task there
  obtain ⟨child, -, rfl⟩ := List.mem_map.1 there
  exact inside.expression sited child none

/-- The task of an expression that may be missing. -/
theorem expression? (inside : Inside file base outer adds begun facts context)
    (sited : context.Sited) (cursor : Option Cursor) (hint : Option Hint) :
    ∀ task ∈ (cursor.map fun child => Task.expression child context hint).toList,
      task.Fits base outer adds facts := by
  intro task there
  rw [Option.mem_toList, Option.map_eq_some_iff] at there
  obtain ⟨child, -, rfl⟩ := there
  exact inside.expression sited child hint

/-- The task of a statement that may be missing. -/
theorem statement? (inside : Inside file base outer adds begun facts context)
    (may : base.regions.size ≤ context.region ∨ adds = true) (cursor : Option Cursor) :
    ∀ task ∈ (cursor.map fun child => Task.statement child context).toList,
      task.Fits base outer adds facts := by
  intro task there
  rw [Option.mem_toList, Option.map_eq_some_iff] at there
  obtain ⟨child, -, rfl⟩ := there
  exact inside.statement may child

/-- The task of a pattern that may be missing. -/
theorem bind? (inside : Inside file base outer adds begun facts context) (sited : context.Sited)
    (cursor : Option Cursor) {mode : BindMode}
    (there : ∀ site, mode.site? = some site →
      facts.graph.KindIn site NodeKind.writers ∧ context.parent = some site) :
    ∀ task ∈ (cursor.map fun child => Task.bind child context mode).toList,
      task.Fits base outer adds facts := by
  intro task inList
  rw [Option.mem_toList, Option.map_eq_some_iff] at inList
  obtain ⟨child, -, rfl⟩ := inList
  exact inside.bind sited child mode there

/-- Nothing happens, and tasks that fit are left. -/
theorem leave (inside : Inside file base outer adds begun facts context) {tasks : List Task}
    (fits : ∀ task ∈ tasks, task.Fits base outer adds facts) :
    Proceeds file base outer adds begun (facts, tasks) :=
  ⟨inside.made, inside.extend, fits⟩

/-- Nothing happens, and nothing is left to do. -/
theorem stop (inside : Inside file base outer adds begun facts context) :
    Proceeds file base outer adds begun (facts, []) :=
  inside.leave fun _ none => nomatch none

end Inside

theorem fits_none : ∀ task ∈ ([] : List Task), task.Fits base outer adds facts :=
  fun _ none => nomatch none

theorem fits_append {tasks others : List Task}
    (left : ∀ task ∈ tasks, task.Fits base outer adds facts)
    (right : ∀ task ∈ others, task.Fits base outer adds facts) :
    ∀ task ∈ tasks ++ others, task.Fits base outer adds facts :=
  fun task there => (List.mem_append.1 there).elim (left task) (right task)

theorem fits_cons {task : Task} {tasks : List Task} (first : task.Fits base outer adds facts)
    (rest : ∀ task ∈ tasks, task.Fits base outer adds facts) :
    ∀ other ∈ task :: tasks, other.Fits base outer adds facts :=
  List.forall_mem_cons.2 ⟨first, rest⟩

theorem fits_one {task : Task} (fits : task.Fits base outer adds facts) :
    ∀ other ∈ [task], other.Fits base outer adds facts :=
  fits_cons fits fits_none

theorem fits_later {before after : Facts} {tasks : List Task}
    (fits : ∀ task ∈ tasks, task.Fits base outer adds before) (extend : before.Extends after) :
    ∀ task ∈ tasks, task.Fits base outer adds after :=
  fun task there => (fits task there).later extend

/-! ## Operations -/

namespace Inside

/-- A node is placed, and its handle is that of a node of its kind. -/
theorem place (inside : Inside file base outer adds begun facts context) (kind : NodeKind)
    {node : Node} (draws : file.Draws node) (same : node.kind = kind)
    (plain : kind ∉ NodeKind.entered) {parent : Option Nat}
    (there : ∀ handle, parent = some handle → handle < facts.graph.nodes.size) :
    Inside file base outer adds begun (facts.place node parent).1 context ∧
      (facts.place node parent).1.graph.KindIn (facts.place node parent).2 [kind] := by
  subst same
  exact ⟨inside.later (inside.made.place node parent draws plain there)
    (extends_place facts node parent), inside.sound.kind_place draws parent⟩

theorem record (inside : Inside file base outer adds begun facts context) {access : Access}
    (known : access.Known facts) :
    Inside file base outer adds begun (facts.record context access) context :=
  inside.later (inside.made.record context access inside.within inside.known known)
    (extends_record _ _ _)

/-- A variable is defined. -/
theorem define (inside : Inside file base outer adds begun facts context) {node site : Nat}
    (there : facts.graph.KindIn node NodeKind.bindings)
    (stands : facts.graph.KindIn site NodeKind.writers) :
    Inside file base outer adds begun
      (facts.record context { kind := .write, binding := .node node, site }) context :=
  inside.record ⟨stands, (fun _ given => Option.some.inj given ▸ there),
    fun _ _ given => nomatch given⟩

/-- A name is read or written. -/
theorem mention (inside : Inside file base outer adds begun facts context) {site : Nat}
    {kind : AccessKind} (stands : facts.graph.KindIn site kind.sites) (text : String) :
    Inside file base outer adds begun
      (facts.record context { kind, binding := .name text context.scope, site }) context := by
  refine inside.record ⟨stands, (fun _ given => nomatch given), fun _ scope given => ?_⟩
  cases given
  exact inside.known.scope

theorem pushScope (inside : Inside file base outer adds begun facts context) :
    Inside file base outer adds begun (facts.pushScope context.scope false).1
      { context with scope := (facts.pushScope context.scope false).2 } := by
  have pushed := inside.later (inside.made.pushScope context.scope inside.known.scope)
    (extends_pushScope _ _ _)
  have held : (facts.pushScope context.scope false).1.scopes.frames[facts.scopes.list.size]? =
      some (some context.scope, false) := by
    rw [Facts.pushScope, Scopes.frames_push, ← Scopes.length_frames, List.getElem?_concat_length,
      Scopes.parentIn, if_pos inside.known.scope]
  exact pushed.inScope (by simp [Facts.pushScope, Scopes.push])
    (pushed.known.body.trans (congrArg some (Scopes.hoistTarget_of_block held).symm))

/-- The number of a statement that is pushed is the number of statements before. -/
theorem number_pushStatement (known : context.Known facts) (site : Nat) (kind : StatementKind) :
    (facts.pushStatement context site kind).2 = facts.statementsIn context.region ∧
      (facts.pushStatement context site kind).1.statementsIn context.region =
        facts.statementsIn context.region + 1 := by
  obtain ⟨region, found⟩ := region_of_block known.block
  refine ⟨(number_of_pushStatement found site kind).trans (statementsIn_of_found found).symm, ?_⟩
  rw [pushStatement_eq, statementsIn_of_found found, statementsIn, Array.getElem?_modify, if_pos rfl,
    found]
  simp

/-- The number of an arm that is pushed is the number of blocks before. -/
theorem number_pushArm (known : context.Known facts) (statement : Nat) (role : Role) :
    (facts.pushArm context statement role).2 = facts.blocksIn context.region ∧
      (facts.pushArm context statement role).1.blocksIn context.region =
        facts.blocksIn context.region + 1 := by
  obtain ⟨region, found⟩ := region_of_block known.block
  refine ⟨(number_of_pushArm found statement role).trans (blocksIn_of_found found).symm, ?_⟩
  rw [pushArm_eq, blocksIn_of_found found, blocksIn, Array.getElem?_modify, if_pos rfl, found]
  simp

/-- A statement is pushed; it is new, and the graph is the same. -/
theorem pushStatement (inside : Inside file base outer adds begun facts context)
    (may : base.regions.size ≤ context.region ∨ adds = true) {site : Nat}
    (there : facts.graph.KindIn site NodeKind.steps) (kind : StatementKind) :
    Inside file base outer adds begun (facts.pushStatement context site kind).1 context ∧
      Fresh base (facts.pushStatement context site kind).1 context.region
        (facts.pushStatement context site kind).2 := by
  obtain ⟨number, more⟩ := number_pushStatement inside.known site kind
  refine ⟨inside.later (inside.made.pushStatement context site kind inside.within inside.known may
    there) (extends_pushStatement _ _ _ _), ?_, ?_⟩
  · rw [number, more]
    exact Nat.lt_succ_self _
  · rw [number]
    exact inside.made.extends.statements _

/-- An arm of a new statement is pushed; its block is there. -/
theorem pushArm (inside : Inside file base outer adds begun facts context)
    (may : base.regions.size ≤ context.region ∨ adds = true) {statement : Nat}
    (fresh : Fresh base facts context.region statement) (role : Role) :
    Inside file base outer adds begun (facts.pushArm context statement role).1 context ∧
      (facts.pushArm context statement role).2 <
        (facts.pushArm context statement role).1.blocksIn context.region := by
  refine ⟨inside.later (inside.made.pushArm context statement role inside.within inside.known
    fresh.there (may.imp id fun yes => ⟨yes, fresh.new⟩)) (extends_pushArm _ _ _ _), ?_⟩
  obtain ⟨number, more⟩ := number_pushArm inside.known statement role
  rw [number, more]
  exact Nat.lt_succ_self _

theorem recordReturn (inside : Inside file base outer adds begun facts context) {site : Nat}
    (there : facts.graph.KindIn site NodeKind.steps) (function : Option Nat) :
    Inside file base outer adds begun (facts.recordReturn function site) context :=
  inside.later (inside.made.recordReturn function site there) (extends_recordReturn _ _ _)

theorem declareVariable (inside : Inside file base outer adds begun facts context) {scope : Nat}
    (stands : scope < facts.scopes.list.size) (name : String) {node : Nat}
    (there : facts.graph.KindIn node NodeKind.bindings) :
    Inside file base outer adds begun
      { facts with scopes := facts.scopes.declareVariable scope name node } context :=
  inside.later (inside.made.declareVariable scope name node stands there)
    (extends_declareVariable _ _ _ _)

theorem declareIn (inside : Inside file base outer adds begun facts context) {node : Nat}
    (there : facts.graph.KindIn node NodeKind.bindings) :
    Inside file base outer adds begun
      { facts with regionOf := facts.regionOf.insert node context.region } context :=
  inside.later (inside.made.declareIn context node inside.within inside.known there)
    (extends_declareIn _ _ _)

theorem addParam (inside : Inside file base outer adds begun facts context) {node : Nat}
    (there : facts.graph.KindIn node [.param]) :
    Inside file base outer adds begun
      { facts with regions := facts.regions.modify context.region fun region =>
          { region with params := region.params.push node } } context :=
  inside.later (inside.made.addParam context node inside.within inside.known there)
    (extends_addParam _ _ _)

theorem noteParam (inside : Inside file base outer adds begun facts context) {number : Nat}
    (stands : number < facts.functions.size) (position : Nat) {node : Nat}
    (there : facts.graph.KindIn node [.param]) :
    Inside file base outer adds begun
      { facts with functions := facts.functions.modify number fun fact =>
          { fact with params := fact.params.push (position, node) } } context :=
  inside.later (inside.made.noteParam number position node stands there)
    (extends_modifyFunction _ _ fun _ => rfl)

/-- A function is entered: the walk gets into its region, and stays where it was around it. -/
theorem enterFunction (inside : Inside file base outer adds begun facts context) (cursor : Cursor)
    (hint : Option Hint) {isMethod : Bool}
    (plain : isMethod = true → StatementForm.ofKind cursor.kind ≠ .function) :
    Inside file base outer adds begun
        (facts.enterFunction file cursor context hint isMethod).facts context ∧
      Inside file base outer adds begun
        (facts.enterFunction file cursor context hint isMethod).facts
        (facts.enterFunction file cursor context hint isMethod).inner := by
  have entered := inside.later
    (inside.made.enterFunction cursor context hint isMethod inside.known plain)
    (extends_enterFunction facts file cursor context hint isMethod)
  have node := kind_enterFunction inside.sound cursor context hint isMethod
  refine ⟨entered, ?_⟩
  rw [inner_enterFunction]
  refine ⟨inside.begins, entered.made, entered.extend, .elsewhere inside.made.extends.regions,
    ?block, ?scope, ?statement, ?site, ?parent, fun _ => rfl, ?around, ?body, fun _ given => given⟩
  case block =>
    have last := facts.region_enterFunction file cursor context hint isMethod
    exact Nat.lt_of_lt_of_eq Nat.one_pos (blocksIn_of_found last).symm
  case scope =>
    rw [size_enterFunction]
    exact Nat.lt_succ_self _
  case statement => exact fun _ given => nomatch given
  case site => exact fun _ given => Option.some.inj given ▸ node.mono (by decide)
  case parent => exact fun _ given => Option.some.inj given ▸ node.lt
  case body =>
    have frames := frames_enterFunction facts file cursor context hint isMethod
    have hoists := hoistsAt_enterFunction facts file cursor context hint isMethod
    show (Facts.scopes _).bodies[facts.regions.size]? = _
    rw [Scopes.bodies_of_frames_push frames, if_pos rfl, ← inside.sound.bodies,
      List.getElem?_concat_length, Scopes.hoistTarget_of_hoists hoists]
  case around =>
    intro handle parent number given
    obtain rfl := Option.some.inj parent
    obtain rfl := Option.some.inj given
    exact ⟨_, facts.signature_enterFunction file cursor context hint isMethod, .self⟩

/-- A class is added; its number is that of the classes before. -/
theorem pushClass (inside : Inside file base outer adds begun facts context)
    (name : Option String) :
    Inside file base outer adds begun { facts with classes := facts.classes.push { name } } context ∧
      facts.classes.size < (facts.classes.push { name }).size :=
  ⟨inside.later (inside.made.pushClass name) (extends_pushClass _ _), by simp⟩

theorem noteMethod (inside : Inside file base outer adds begun facts context) {number : Nat}
    (stands : number < facts.classes.size) {node : Nat}
    (there : ∃ signature ∈ facts.signatures, signature.node = node) :
    Inside file base outer adds begun
      { facts with classes := facts.classes.modify number fun fact =>
          { fact with methods := fact.methods.push node } } context :=
  inside.later (inside.made.noteMethod number node stands there) (extends_modifyClass _ _ _)

end Inside

end Facts

end CodeGraph

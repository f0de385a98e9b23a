import CodeGraph.Proofs.Facts.FileEdges
import CodeGraph.Proofs.Flow.Loop

/-!
# Loops with a header

What the walk makes of `for (let v = e; …; …) body`: the initialiser and the header, one behind the other
in the region where the walk comes by the loop (`Facts.Visits.loopAt`). The condition and the increment
are both looked at as part of the header. So an increment that writes `v` stands between the initialiser
and the body, although it runs behind the body only; and the graph of the file has the flow edges from the
initialiser to the reads in the body exactly if the header does not write `v`
(`Facts.Visits.initialiser_flows`).
-/

namespace CodeGraph

/-- A loop with a body whose initialiser declares one variable under a plain name. -/
structure Cursor.Initialises (loop declaration declarator name : Cursor) : Prop where
  form : StatementForm.ofKind loop.kind = .forLoop
  initializer : loop.field? "initializer" = some declaration
  isNamed : declaration.isNamed = true
  declares : StatementForm.ofKind declaration.kind = .declaration
  single : declaration.named = [declarator]
  isDeclarator : declarator.kind = "variable_declarator"
  calls : declarator.field? "name" = some name
  plain : PatternForm.ofKind name.kind = .name
  hasBody : (loop.field? "body").isSome = true

namespace Facts

variable {file : SourceFile} {facts : Facts}

/-! ## What the operations make -/

/-- A statement that was just opened comes last in its block, and stands for its syntax node. -/
structure Opened.Last (opened : Opened) (file : SourceFile) (cursor : Cursor) (context : Context)
    (kind : StatementKind) (region : Region) : Prop where
  same : opened.context.region = context.region
  inside : opened.context.statement = some region.skeleton.statements.size
  statement : opened.statement = region.skeleton.statements.size
  pushed : opened.facts.regions[context.region]? =
    some (region.push context.block opened.site kind).1
  drawn : opened.facts.graph.IdAt opened.site (file.nodeOf cursor .stmt none).id

theorem last_openStatement (formed : facts.graph.WellFormed) (cursor : Cursor) {context : Context}
    (kind : StatementKind) {region : Region}
    (found : facts.regions[context.region]? = some region) :
    (facts.openStatement file cursor context kind).Last file cursor context kind region := by
  obtain ⟨held, there, same⟩ :=
    handle_place formed ((file.nodeOf cursor .stmt none).set "kind" (.text cursor.kind)) context.parent
  have still : (facts.place ((file.nodeOf cursor .stmt none).set "kind" (.text cursor.kind))
      context.parent).1.regions[context.region]? = some region := found
  have number : (facts.openStatement file cursor context kind).statement =
      region.skeleton.statements.size := number_of_pushStatement still _ kind
  refine ⟨rfl, congrArg some number, number, ?_, held, ?_, same⟩
  · simp only [openStatement]
    rw [getElem?_pushStatement, if_pos rfl, still]
    rfl
  · simp only [openStatement, graph_pushStatement]
    exact there

/-- A variable that is declared is defined by the last access of the statement around. -/
theorem declare_spec (formed : facts.graph.WellFormed) (cursor : Cursor) {context : Context}
    (word : String) (site : Nat) {region : Region}
    (found : facts.regions[context.region]? = some region) :
    ∃ binding, (facts.declare file cursor context word site).regions[context.region]? =
        some (region.record context.statement ⟨.write, .node binding, site⟩) ∧
      (facts.declare file cursor context word site).graph.IdAt binding
        (file.nodeOf cursor .var none).id := by
  obtain ⟨held, there, same⟩ := handle_place formed
    ((file.nodeOf cursor .var (some (file.textOf cursor))).set "declarationKind" (.text word))
    context.parent
  refine ⟨_, ?_, held, there, same⟩
  unfold declare
  simp only
  rw [getElem?_record, if_pos rfl]
  exact congrArg (Option.map _) found

/-- The header of a loop is the last statement of its block, and owns the body. What is left to do
belongs to the header or to no statement yet. -/
theorem addLoopHeader_spec (formed : facts.graph.WellFormed) {cursor body : Cursor}
    (hasBody : cursor.field? "body" = some body) {context : Context} {region : Region}
    (found : facts.regions[context.region]? = some region) :
    (∃ site, (facts.addLoopHeader file cursor context).1.regions[context.region]? =
      some ((region.push context.block site .loop).1.addArm
        region.skeleton.statements.size .loopBody).1) ∧
      ∀ task ∈ (facts.addLoopHeader file cursor context).2, ∀ number,
        task.context.statement = some number → number = region.skeleton.statements.size := by
  have last : (facts.openStatement file cursor context .loop).Last file cursor context .loop region :=
    last_openStatement formed cursor .loop found
  unfold addLoopHeader addLoopBody
  simp only [hasBody]
  refine ⟨⟨(facts.openStatement file cursor context .loop).site, ?_⟩, ?_⟩
  · rw [getElem?_pushArm, if_pos rfl, last.pushed, last.statement]
    rfl
  · intro task inside number given
    simp only [fieldExpression, List.mem_append, Option.mem_toList, Option.map_eq_some_iff,
      List.mem_singleton] at inside
    rcases inside with (⟨child, -, rfl⟩ | ⟨child, -, rfl⟩) | rfl
    · exact Option.some.inj (given.symm.trans last.inside)
    · exact Option.some.inj (given.symm.trans last.inside)
    · cases given

end Facts

namespace Region

/-- What is laid out when an initialiser is pushed, looked at and made to define a variable, and then
the header is pushed with its body. -/
theorem loopAt_pushed {region middle : Region} {block site headerSite binding : Nat}
    (inside : block < region.skeleton.blocks.size)
    (spares : (region.push block site .simple).1.Spares (some region.skeleton.statements.size) false
      middle) (built : middle.Built) :
    let defined := middle.record (some region.skeleton.statements.size)
      ⟨.write, .node binding, site⟩
    ((defined.push block headerSite .loop).1.addArm
        (region.skeleton.statements.size + 1) .loopBody).1.LoopAt region.skeleton.statements.size
      (region.skeleton.statements.size + 1) region.skeleton.blocks.size site binding := by
  intro defined
  have skeleton : defined.skeleton = (region.skeleton.push block site .simple).1 :=
    (skeleton_record middle _ _).trans (spares.skeleton rfl)
  have blocks : (defined.push block headerSite .loop).1.skeleton.blocks.size =
      region.skeleton.blocks.size := by
    rw [skeleton_push, skeleton, Skeleton.size_blocks_push, Skeleton.size_blocks_push]
  have place : region.skeleton.blockIn block = block := if_pos inside
  have place' : defined.skeleton.blockIn block = block := by
    rw [skeleton]
    exact if_pos ((Skeleton.size_blocks_push ..).symm ▸ inside)
  have size : defined.skeleton.statements.size = region.skeleton.statements.size + 1 := by
    rw [skeleton, Skeleton.size_statements_push]
  have index : (defined.skeleton.statementsOf block).size =
      (region.skeleton.statementsOf block).size + 1 := by
    rw [skeleton, Skeleton.statementsOf_push, if_pos place, Array.size_push]
  have first : defined.skeleton.statements[region.skeleton.statements.size]? =
      some ⟨site, .simple, block, (region.skeleton.statementsOf block).size, #[]⟩ := by
    rw [skeleton, Skeleton.statements_push, Array.getElem?_push, if_pos rfl, place]
  refine ⟨⟨block, (region.skeleton.statementsOf block).size, headerSite, ?initial, ?header⟩,
    ?owned, ?defines⟩
  case initial =>
    rw [skeleton_addArm, Skeleton.statements_addArm, Array.getElem?_modify,
      if_neg (Nat.succ_ne_self _), skeleton_push, Skeleton.statements_push, Array.getElem?_push,
      if_neg (by omega)]
    exact first
  case header =>
    rw [skeleton_addArm, Skeleton.statements_addArm, Array.getElem?_modify, if_pos rfl, blocks,
      skeleton_push, Skeleton.statements_push, Array.getElem?_push, if_pos size.symm, place', index]
    rfl
  case owned =>
    have there : region.skeleton.statements.size + 1 <
        (defined.push block headerSite .loop).1.skeleton.statements.size := by
      rw [skeleton_push, Skeleton.size_statements_push, size]
      exact Nat.lt_succ_self _
    refine (Skeleton.ownerOf?_addArm _ there .loopBody _).trans ?_
    rw [if_pos blocks.symm]
  case defines =>
    have there : region.skeleton.statements.size < middle.accesses.size := by
      rw [built.size_accesses, spares.skeleton rfl, skeleton_push, Skeleton.size_statements_push]
      exact Nat.lt_succ_self _
    refine ⟨middle.accessesOf region.skeleton.statements.size, ?_⟩
    change (defined.push block headerSite .loop).1.accessesOf _ = _
    rw [accessesOf_push]
    exact accessesOf_record_self middle _ there

/-- What the walk does later leaves the loop as it is. -/
theorem LoopAt.kept {before after : Region} {initial header body site binding : Nat}
    (loop : before.LoopAt initial header body site binding) (keeps : before.KeepsAt initial after) :
    after.LoopAt initial header body site binding := by
  obtain ⟨⟨block, index, headerSite, first, second⟩, owned, defines⟩ := loop
  have there := (Array.getElem?_eq_some_iff.1 first).1
  refine ⟨⟨block, index, headerSite, ?_, ?_⟩, ?_, ?_⟩
  · exact (keeps.statements _ there).trans first
  · exact (keeps.statements _ (Array.getElem?_eq_some_iff.1 second).1).trans second
  · exact (keeps.owners body (Skeleton.ownerOf?_lt owned)).trans owned
  · rw [keeps.accesses there]
    exact defines

/-- Looking up the names of accesses leaves the loop as it is. -/
theorem LoopAt.resolve {region : Region} {initial header body site binding : Nat}
    (loop : region.LoopAt initial header body site binding) (scopes : Scopes) :
    (region.resolve scopes).LoopAt initial header body site binding := by
  obtain ⟨earlier, same⟩ := loop.defines
  refine ⟨loop.placed, loop.owned, earlier.filterMap (Access.resolve scopes), ?_⟩
  have mapped : (region.resolve scopes).accessesOf initial =
      (region.accessesOf initial).filterMap (Access.resolve scopes) := by
    simp only [Region.resolve, accessesOf, Array.getElem?_map]
    cases region.accesses[initial]? <;> simp
  rw [mapped, same, List.filterMap_append]
  rfl

end Region

namespace Facts

section Steps

variable {file : SourceFile} {loop declaration declarator name : Cursor}
  (shape : loop.Initialises declaration declarator name)
include shape

theorem step_loop (facts : Facts) (context : Context) :
    facts.step file (.statement loop context) =
      ((facts.pushScope context.scope false).1,
        [.statement declaration { context with scope := (facts.pushScope context.scope false).2 },
          .loopHeader loop { context with scope := (facts.pushScope context.scope false).2 }]) := by
  have kept : (some declaration).filter Cursor.isNamed = some declaration := if_pos shape.isNamed
  simp only [step, Facts.statement, shape.form, addForLoop, shape.initializer, kept]
  rfl

/-- The step at the initialiser opens its statement, and leaves the value to be looked at, and then the
name. -/
theorem step_declaration {facts : Facts} (formed : facts.graph.WellFormed) {context : Context}
    {region : Region} (found : facts.regions[context.region]? = some region) :
    ∃ (opened : Opened) (values : List Task) (word : String),
      facts.step file (.statement declaration context) =
        (opened.facts, values ++ [.bind name opened.context (.declare word opened.site)]) ∧
      opened.Last file declaration context .simple region ∧
      ∀ task ∈ values, task.adds = false ∧ task.context = opened.context := by
  have last : (facts.openStatement file declaration context .simple).Last file declaration context
      .simple region := last_openStatement formed declaration .simple found
  simp only [step, Facts.statement, shape.declares, addDeclaration, shape.single,
    List.flatMap_singleton, declaratorTasks, if_pos shape.isDeclarator, shape.calls]
  refine ⟨_, _, _, rfl, last, fun task there => ?_⟩
  rw [Option.mem_toList, Option.map_eq_some_iff] at there
  obtain ⟨value, -, rfl⟩ := there
  exact ⟨rfl, rfl⟩

theorem step_name (facts : Facts) (context : Context) (word : String) (site : Nat) :
    facts.step file (.bind name context (.declare word site)) =
      (facts.declare file name context word site, []) := by
  simp only [step, Facts.bind, if_pos shape.plain, bindName]

end Steps

variable {file : SourceFile} {facts : Facts} {context : Context} {rest : List Task}
  {loop declaration declarator name : Cursor}

/-- The initialiser is looked at: its statement comes last in its block and defines the variable last of
all. -/
theorem Visits.initialiser (visits : Visits file facts (.statement declaration context :: rest))
    (shape : loop.Initialises declaration declarator name) {region : Region}
    (found : facts.regions[context.region]? = some region) :
    ∃ after middle site binding, Visits file after rest ∧ facts.Extends after ∧
      after.regions[context.region]? = some (middle.record (some region.skeleton.statements.size)
        ⟨.write, .node binding, site⟩) ∧
      (region.push context.block site .simple).1.Spares (some region.skeleton.statements.size) false
        middle ∧ middle.Built ∧
      after.graph.IdAt site (file.nodeOf declaration .stmt none).id ∧
      after.graph.IdAt binding (file.nodeOf name .var none).id := by
  obtain ⟨sound, ready⟩ := visits.sound
  obtain ⟨known, has⟩ := ready _ List.mem_cons_self
  have grown : facts.Extends (facts.step file (.statement declaration context)).1 :=
    (proceeds_step sound known has).extend
  -- The statement is opened.
  obtain ⟨opened, values, word, stepped, last, plain⟩ :
      ∃ (opened : Opened) (values : List Task) (word : String),
        facts.step file (.statement declaration context) = _ ∧ _ :=
    step_declaration shape sound.formed found
  have opens := visits.next stepped
  rw [List.append_assoc] at opens
  rw [stepped] at grown
  -- The value is looked at, which leaves the statements as they are.
  obtain ⟨whole, fit⟩ := opens.sound
  have inside : Ready file opened.facts values :=
    fun task given => fit task (List.mem_append_left _ given)
  have spared : ∃ middle, (Facts.runAll file opened.facts values).regions[context.region]? =
        some middle ∧ (region.push context.block opened.site .simple).1.Spares
          (some region.skeleton.statements.size) false middle := by
    refine region_runAll .refl (fun one two => one.trans two) whole inside
      (fun task given _ before after spares => ?_) last.pushed
    obtain ⟨still, where_⟩ := plain task given
    rw [still, where_, last.inside] at spares
    exact spares
  obtain ⟨middle, stood, spares⟩ := spared
  obtain ⟨sound', further⟩ : Sound file (Facts.runAll file opened.facts values) ∧ _ :=
    sound_runAll whole inside
  -- The name is bound.
  have looked : Visits file (Facts.runAll file opened.facts values)
      (.bind name opened.context (.declare word opened.site) :: rest) := opens.runAll
  have more : (Facts.runAll file opened.facts values).Extends ((Facts.runAll file opened.facts
      values).step file (.bind name opened.context (.declare word opened.site))).1 :=
    (proceeds_step sound' (looked.sound.2 _ List.mem_cons_self).1
      (looked.sound.2 _ List.mem_cons_self).2).extend
  have bound := looked.next (step_name shape _ opened.context word opened.site)
  rw [step_name shape] at more
  have here : (Facts.runAll file opened.facts values).regions[opened.context.region]? =
      some middle := last.same ▸ stood
  obtain ⟨binding, recorded, drawn⟩ : ∃ binding, ((Facts.runAll file opened.facts values).declare file
      name opened.context word opened.site).regions[opened.context.region]? = _ ∧ _ :=
    declare_spec sound'.formed name word opened.site here
  rw [last.same, last.inside] at recorded
  exact ⟨_, middle, opened.site, binding, bound, (grown.trans further).trans more, recorded, spares,
    (sound'.regions _ _ stood).built, last.drawn.kept (further.trans more).graph, drawn⟩

/-- The header is looked at, and then everything else. The statements that are there stay, and so do the
accesses of one to which no task belongs. -/
theorem Visits.header (visits : Visits file facts (.loopHeader loop context :: rest)) {body : Cursor}
    (hasBody : loop.field? "body" = some body) {region : Region}
    (found : facts.regions[context.region]? = some region) {number : Nat}
    (old : number < region.skeleton.statements.size)
    (apart : ∀ task ∈ rest, task.context.region = context.region →
      task.context.statement ≠ some number) :
    ∃ (site : Nat) (after : Region) (scopes : Scopes),
      (Facts.of file).regions[context.region]? = some (after.resolve scopes) ∧
      ((region.push context.block site .loop).1.addArm region.skeleton.statements.size
        .loopBody).1.KeepsAt number after ∧
      facts.graph.Kept (Facts.of file).graph := by
  obtain ⟨sound, ready⟩ := visits.sound
  obtain ⟨known, has⟩ := ready _ List.mem_cons_self
  obtain ⟨⟨site, pushed⟩, below⟩ :
      (∃ site, (facts.addLoopHeader file loop context).1.regions[context.region]? = _) ∧ _ :=
    addLoopHeader_spec sound.formed hasBody found
  have opens := visits.step
  have grown : facts.Extends (facts.step file (.loopHeader loop context)).1 :=
    (proceeds_step sound known has).extend
  obtain ⟨whole, fit⟩ := opens.sound
  -- The tasks of the header belong to the header, those of the body to no statement yet.
  have apart' : ∀ task ∈ (facts.step file (.loopHeader loop context)).2 ++ rest,
      task.context.region = context.region → task.context.statement ≠ some number := by
    intro task there same given
    rcases List.mem_append.1 there with new | late
    · have := below task new number given
      omega
    · exact apart task late same given
  have kept : ∃ after, (Facts.runAll file (facts.step file (.loopHeader loop context)).1
        ((facts.step file (.loopHeader loop context)).2 ++ rest)).regions[context.region]? =
          some after ∧
      ((region.push context.block site .loop).1.addArm region.skeleton.statements.size
        .loopBody).1.KeepsAt number after :=
    region_runAll .refl (fun one two => one.trans two) whole fit
      (fun task there same _ _ spares => .of_spares spares (apart' task there same)) pushed
  obtain ⟨after, stood, keeps⟩ := kept
  have more := (sound_runAll whole fit).2
  rw [opens.of_eq]
  refine ⟨site, after, (Facts.runAll file (facts.step file (.loopHeader loop context)).1
    ((facts.step file (.loopHeader loop context)).2 ++ rest)).scopes, ?_, keeps,
    (grown.trans more).graph⟩
  simp only [resolveNames, Array.getElem?_map, stood]
  rfl

/-- A loop by which the walk comes is laid out behind its initialiser, in the region where the walk is
at that moment. -/
theorem Visits.loopAt (visits : Visits file facts (.statement loop context :: rest))
    (shape : loop.Initialises declaration declarator name) :
    ∃ (region : Region) (initial header body site binding : Nat),
      (Facts.of file).regions[context.region]? = some region ∧
      region.LoopAt initial header body site binding ∧
      (Facts.of file).graph.IdAt site (file.nodeOf declaration .stmt none).id ∧
      (Facts.of file).graph.IdAt binding (file.nodeOf name .var none).id := by
  obtain ⟨sound, ready⟩ := visits.sound
  obtain ⟨known, -⟩ := ready _ List.mem_cons_self
  obtain ⟨region, found⟩ : ∃ region, facts.regions[context.region]? = some region :=
    region_of_block known.context.block
  obtain ⟨body, hasBody⟩ := Option.isSome_iff_exists.1 shape.hasBody
  have inside : context.block < region.skeleton.blocks.size :=
    blocksIn_of_found found ▸ known.context.block
  have opens := visits.next (step_loop shape facts context)
  obtain ⟨after, middle, site, binding, initialised, grown, defined, spares, built, drawn, named⟩ :=
    opens.initialiser shape found
  -- The tasks behind the loop belong to statements that were there before it.
  have apart : ∀ task ∈ rest, task.context.region = context.region →
      task.context.statement ≠ some region.skeleton.statements.size := by
    intro task there same given
    have old := (ready task (List.mem_cons_of_mem _ there)).1.1.statement _ given
    rw [same, statementsIn_of_found found] at old
    exact Nat.lt_irrefl _ old
  have size : (middle.record (some region.skeleton.statements.size)
      ⟨.write, .node binding, site⟩).skeleton.statements.size =
        region.skeleton.statements.size + 1 := by
    rw [Region.skeleton_record, spares.skeleton rfl, Region.skeleton_push,
      Skeleton.size_statements_push]
  obtain ⟨headerSite, last, scopes, stood, keeps, kept⟩ :=
    initialised.header hasBody defined (by rw [size]; exact Nat.lt_succ_self _) apart
  rw [size] at keeps
  have laid := (Region.loopAt_pushed inside spares built).kept keeps
  exact ⟨_, _, _, _, site, binding, stood, laid.resolve scopes, drawn.kept kept, named.kept kept⟩

/-! ## Flow from the initialiser -/

/-- `Undisturbed facts number initial site binding s target`: nothing but the initialiser is written at
its site and nothing but the statement `s` reads the variable at the target, the variable is declared
in the region `number` alone, and the calls ask for no flow between the two sites. -/
structure Undisturbed (facts : Facts) (number initial site binding s target : Nat) : Prop where
  writes : ∀ (other : Nat) (region : Region) (place : Option Nat) (access : Access) (written : Nat),
    facts.regions[other]? = some region → access ∈ region.accessesAt place →
    access.defined? = some written → access.site = site →
    other = number ∧ place = some initial ∧ written = binding
  params : ∀ region ∈ facts.regions.toList, site ∉ region.params.toList
  reads : ∀ (other : Nat) (region : Region) (place : Option Nat) (access : Access),
    facts.regions[other]? = some region → access ∈ region.accessesAt place →
    access.used? = some binding → access.site = target → other = number ∧ place = some s
  declared : facts.region? binding = some number
  calls : ∀ tag, ¬ Graph.Asked facts.callFlows .flow site target tag

/-- Where the header writes the variable, and nothing else makes the initialiser reach the read, there is
no flow edge. -/
theorem not_hasEdge_of_written (present : Instant) {region : Region}
    {number initial header body site binding s target : Nat}
    (found : (Facts.of file).regions[number]? = some region)
    (laid : region.LoopAt initial header body site binding)
    (written : writes (region.accessesOf header) binding = true) (other : s ≠ header)
    (apart : s ≠ initial)
    (undisturbed : (Facts.of file).Undisturbed number initial site binding s target)
    (tag : Option String) : ¬ (Graph.ofFile present file).HasEdge .flow site target tag := by
  have sound := sound_of file
  have listed : region ∈ (Facts.of file).regions.toList :=
    Array.mem_toList_iff.2 (Array.mem_of_getElem? found)
  rw [hasEdge_flow]
  rintro (⟨number', region', place, earlier, access, found', ⟨later, split⟩, read, uses, here, -, -,
    reaches⟩ | asked)
  · have there : access ∈ region'.accessesAt place := by
      rw [split]
      simp
    have inside : region' ∈ (Facts.of file).regions.toList :=
      Array.mem_toList_iff.2 (Array.mem_of_getElem? found')
    -- The definition that reaches the read is the one that the initialiser makes.
    obtain rfl : read = binding := by
      rcases DataFlow.made_of_liveAfter inside split reaches with
        ⟨maker, made, ⟨param, same⟩ | ⟨access', stood, defines, same⟩⟩
      · obtain rfl : site = read := same
        exact absurd param (undisturbed.params maker made)
      · obtain ⟨number'', held⟩ := List.getElem?_of_mem made
        obtain ⟨place', stood'⟩ := Region.mem_allAccesses.1 stood
        rw [Array.getElem?_toList] at held
        exact (undisturbed.writes number'' maker place' access' read held stood' defines same).2.2
    obtain ⟨rfl, rfl⟩ := undisturbed.reads number' region' place access found' there uses here
    obtain rfl : region' = region := Option.some.inj (found'.symm.trans found)
    refine laid.not_reaches (sound.regions _ _ found).built.laid written other apart
      ⟨access :: later, split⟩ (fun place' access' stood defines same => ?_) ?_ reaches
    · exact (undisturbed.writes _ region' place' access' read found stood defines same).2.1
    · rintro (⟨param, same⟩ | ⟨-, ⟨owner, declared, elsewhere⟩, -⟩)
      · obtain rfl : site = read := same
        exact undisturbed.params region' inside param
      · exact elsewhere (Option.some.inj (declared.symm.trans undisturbed.declared))
  · exact undisturbed.calls tag asked

/-- A loop by which the walk over a file comes and whose initialiser declares a variable `v`: for every
read of `v` behind a path from the start of the body that leaves `v` alone, the graph of the file has a
flow edge, tagged with `v`, from the initialiser to the reading site, if neither the condition nor the
increment writes `v`. If one of them does, the definition is lost in the header, and there is no such
edge unless something else makes it. -/
theorem Visits.initialiser_flows (present : Instant)
    (visits : Visits file facts (.statement loop context :: rest))
    (shape : loop.Initialises declaration declarator name) :
    ∃ (region : Region) (initial header body site binding : Nat),
      (Facts.of file).regions[context.region]? = some region ∧
      region.LoopAt initial header body site binding ∧
      (Facts.of file).graph.IdAt site (file.nodeOf declaration .stmt none).id ∧
      (Facts.of file).graph.IdAt binding (file.nodeOf name .var none).id ∧
      ∀ (s : Nat) (access : Access), region.ReadBehind binding body s access → s ≠ header →
        s ≠ initial → access.site ≠ site →
        (writes (region.accessesOf header) binding = false →
          (Graph.ofFile present file).HasEdge .flow site access.site
            (some (file.textOf name))) ∧
        ((Facts.of file).Undisturbed context.region initial site binding s access.site →
          (Graph.ofFile present file).HasEdge .flow site access.site (some (file.textOf name)) →
          writes (region.accessesOf header) binding = false) := by
  obtain ⟨region, initial, header, body, site, binding, found, laid, drawn, named⟩ :=
    visits.loopAt shape
  refine ⟨region, initial, header, body, site, binding, found, laid, drawn, named, ?_⟩
  intro s access behind other apart elsewhere
  obtain ⟨⟨first, begins, path⟩, ⟨earlier, stands, unwritten⟩, reads⟩ := behind
  have sound := sound_of file
  refine ⟨fun clear => ?_, fun undisturbed has => ?_⟩
  · obtain ⟨held, there, id⟩ := named
    have text : (Facts.of file).graph.nameOf binding = file.textOf name :=
      sound.nameOf_eq there id rfl
    refine (hasEdge_flow present file site access.site _).2 (.inl ?_)
    refine ⟨context.region, region, some s, earlier, access, found, stands, binding, reads, rfl,
      elsewhere.symm, by rw [text], ?_⟩
    exact laid.reaches (sound.regions _ _ found).built.laid begins path clear unwritten
  · cases written : writes (region.accessesOf header) binding with
    | false => rfl
    | true =>
      exact absurd has (not_hasEdge_of_written present found laid written other apart undisturbed _)

end Facts

/-! ## Counting

The smallest loop of which the initialiser can be lost is `for (let i = 0; ; i++) i;`. With another
variable in its increment it keeps its initialiser. -/

namespace Facts

namespace Counting

/-- A plain token. -/
def token (kind : String) (field : Option String) (start stop : Nat) : Tree :=
  .node { kind, field, start, stop } []

/-- A node with a name in the grammar. -/
def node (kind : String) (field : Option String) (start stop : Nat) (children : List Tree) : Tree :=
  .node { kind, field, start, stop, named := true } children

def name : Cursor where
  tree := node "identifier" (some "name") 9 10 []
  above := ["variable_declarator", "lexical_declaration", "for_statement", "program"]

def value : Cursor where
  tree := node "number" (some "value") 13 14 []
  above := ["variable_declarator", "lexical_declaration", "for_statement", "program"]

def declarator : Cursor where
  tree := node "variable_declarator" none 9 14 [name.tree, token "=" none 11 12, value.tree]
  above := ["lexical_declaration", "for_statement", "program"]

def declaration : Cursor where
  tree := node "lexical_declaration" (some "initializer") 5 15
    [token "let" (some "kind") 5 8, declarator.tree, token ";" none 14 15]
  above := ["for_statement", "program"]

def counter : Cursor where
  tree := node "identifier" (some "argument") 18 19 []
  above := ["update_expression", "for_statement", "program"]

def increment : Cursor where
  tree := node "update_expression" (some "increment") 18 21
    [counter.tree, token "++" (some "operator") 19 21]
  above := ["for_statement", "program"]

def reading : Cursor where
  tree := node "identifier" none 23 24 []
  above := ["expression_statement", "for_statement", "program"]

def body : Cursor where
  tree := node "expression_statement" (some "body") 23 25 [reading.tree, token ";" none 24 25]
  above := ["for_statement", "program"]

def loop : Cursor where
  tree := node "for_statement" none 0 25
    [token "for" none 0 3, token "(" none 4 5, declaration.tree,
      node "empty_statement" (some "condition") 16 17 [token ";" none 16 17], increment.tree,
      token ")" none 21 22, body.tree]
  above := ["program"]

/-- The file that holds nothing but the loop. -/
def file (source : SourceText) : SourceFile where
  path := ⟨"a.ts"⟩
  source
  tree := node "program" none 0 25 [loop.tree]

theorem initialises : loop.Initialises declaration declarator name where
  form := by decide
  initializer := rfl
  isNamed := rfl
  declares := by decide
  single := rfl
  isDeclarator := rfl
  calls := rfl
  plain := by decide
  hasBody := rfl

/-- The text declares and reads `i`, and counts up some variable. -/
structure Spells (source : SourceText) (word : String) : Prop where
  name : source.slice 9 10 = "i"
  counter : source.slice 18 19 = word
  reading : source.slice 23 24 = "i"

variable {source : SourceText} {word : String}

/-! ### The walk -/

/-- The region behind the initialiser. -/
def declared : Region :=
  (({ owner := none } : Region).push 0 0 .simple).1.record (some 0) ⟨.write, .node 1, 0⟩

/-- The region with the header, before anything is done there. -/
def armed : Region := ((declared.push 0 2 .loop).1.addArm 1 .loopBody).1

/-- The region behind the header. -/
def headed (word : String) : Region :=
  (armed.record (some 1) ⟨.read, .name word 1, 3⟩).record (some 1) ⟨.write, .name word 1, 3⟩

/-- The region behind the loop. -/
def filled (word : String) : Region :=
  ((headed word).push 1 4 .simple).1.record (some 2) ⟨.read, .name "i" 1, 4⟩

/-- The facts that are made when the variable is declared and the region has got so far. -/
def made (graph : Graph) (region : Region) : Facts where
  graph
  regions := #[region]
  scopes := (Scopes.initial.push 0 false).1.declareVariable 1 "i" 1
  regionOf := ({} : Std.HashMap Nat Nat).insert 1 0

/-- The walk comes by the end of the initialiser. -/
theorem visits_declared (spells : Spells source word) : ∃ graph, graph.WellFormed ∧
    graph.nodes.toList.map Node.id = ["a.ts:statement:5-15", "a.ts:variable:9-10"] ∧
    Visits (file source) (made graph declared) [.loopHeader loop { scope := 1 }] := by
  have begins : Visits (file source) {} [.statement loop {}] := .start
  have enters : Visits (file source) (({} : Facts).pushScope 0 false).1
      [.statement declaration { scope := 1 }, .loopHeader loop { scope := 1 }] :=
    begins.next (step_loop initialises {} {})
  have text : (file source).textOf name = "i" := spells.name
  obtain ⟨first, placed, formed, ids⟩ := place_new (({} : Facts).pushScope 0 false).1
    (((file source).nodeOf declaration .stmt none).set "kind" (.text declaration.kind)) none
    Graph.wellFormed_empty rfl (rfl : _ = "a.ts:statement:5-15") (by decide)
  let opened : Facts :=
    { graph := first
      regions := #[(({ owner := none } : Region).push 0 0 .simple).1]
      scopes := (Scopes.initial.push 0 false).1 }
  let context : Context := { scope := 1, statement := some 0, site := some 0, parent := some 0 }
  have opens : Visits (file source) opened
      [.expression value context (some { name := "i", bindable := true }),
        .bind name context (.declare "let" 0), .loopHeader loop { scope := 1 }] := by
    have kind : name.kind = "identifier" := rfl
    refine enters.next (?_ : _ = (_, [_, _]))
    simp only [step, Facts.statement, initialises.declares, addDeclaration, initialises.single,
      List.flatMap_singleton, declaratorTasks, if_pos initialises.isDeclarator, initialises.calls,
      if_pos kind, openStatement, placed, pushStatement, text]
    rfl
  -- The value is a number, in which nothing is left to do.
  have valued : Visits (file source) opened
      [.bind name context (.declare "let" 0), .loopHeader loop { scope := 1 }] := by
    have kind : value.kind = "number" := rfl
    have compound : ExpressionForm.ofKind "number" = .compound := by decide +kernel
    refine opens.next (?_ : _ = (_, []))
    simp only [step, expression, kind, compound]
    rfl
  obtain ⟨graph, placed', formed', ids'⟩ := place_new opened
    (((file source).nodeOf name .var (some "i")).set "declarationKind" (.text "let")) (some 0)
    formed ids (rfl : _ = "a.ts:variable:9-10") (by decide)
  refine ⟨graph, formed', ids', valued.next (?_ : _ = (_, []))⟩
  rw [step_name initialises]
  simp only [declare, text, context, placed']
  rfl

/-- The walk comes by the end of the header, which reads and writes what it counts up. -/
theorem visits_headed (spells : Spells source word) : ∃ graph, graph.WellFormed ∧
    graph.nodes.toList.map Node.id = ["a.ts:statement:5-15", "a.ts:variable:9-10",
      "a.ts:statement:0-25", "a.ts:expression:18-21"] ∧
    Visits (file source) (made graph (headed word))
      [.statement body { block := 1, scope := 1, parent := some 2 }] := by
  obtain ⟨before, formed, ids, visits⟩ := visits_declared spells
  have text : (file source).textOf counter = word := spells.counter
  obtain ⟨first, placed, formed', ids'⟩ := place_new (made before declared)
    (((file source).nodeOf loop .stmt none).set "kind" (.text loop.kind)) none formed ids
    (rfl : _ = "a.ts:statement:0-25") (by decide)
  let context : Context := { scope := 1, statement := some 1, site := some 2, parent := some 2 }
  have opens : Visits (file source) (made first armed) [.expression increment context none,
      .statement body { block := 1, scope := 1, parent := some 2 }] := by
    refine visits.next (?_ : _ = (_, [_, _]))
    simp only [step, addLoopHeader, openStatement, placed, pushStatement]
    rfl
  obtain ⟨graph, placed', formed'', ids''⟩ := place_new (made first armed)
    (((file source).nodeOf increment .expr none).set "kind" (.text increment.kind)) (some 2)
    formed' ids' (rfl : _ = "a.ts:expression:18-21") (by decide)
  have updates : Visits (file source) (made graph armed)
      [.expression counter (context.atSite 3) none,
        .bind counter (context.atSite 3) (.assign 3),
        .statement body { block := 1, scope := 1, parent := some 2 }] := by
    have form : ExpressionForm.ofKind increment.kind = .update := by decide +kernel
    have argument : increment.field? "argument" = some counter := rfl
    refine opens.next (?_ : _ = (_, [_, _]))
    simp only [step, expression, form, addUpdate, argument, openExpression, context, placed']
    rfl
  have reads : Visits (file source)
      (made graph (armed.record (some 1) ⟨.read, .name word 1, 3⟩))
      [.bind counter (context.atSite 3) (.assign 3),
        .statement body { block := 1, scope := 1, parent := some 2 }] := by
    refine updates.next (?_ : _ = (_, []))
    rw [← text]
    rfl
  refine ⟨graph, formed'', ids'', reads.next (?_ : _ = (_, []))⟩
  rw [← text]
  rfl

/-- The walk ends behind the body, which reads the variable. -/
theorem visits_filled (spells : Spells source word) : ∃ graph, graph.WellFormed ∧
    graph.nodes.toList.map Node.id = ["a.ts:statement:5-15", "a.ts:variable:9-10",
      "a.ts:statement:0-25", "a.ts:expression:18-21", "a.ts:statement:23-25"] ∧
    Visits (file source) (made graph (filled word)) [] := by
  obtain ⟨before, formed, ids, visits⟩ := visits_headed spells
  have text : (file source).textOf reading = "i" := spells.reading
  obtain ⟨graph, placed, formed', ids'⟩ := place_new (made before (headed word))
    (((file source).nodeOf body .stmt none).set "kind" (.text body.kind)) (some 2) formed ids
    (rfl : _ = "a.ts:statement:23-25") (by decide)
  let context : Context :=
    { block := 1, scope := 1, statement := some 2, site := some 4, parent := some 4 }
  have opens : Visits (file source) (made graph ((headed word).push 1 4 .simple).1)
      [.expression reading context none] := by
    have form : StatementForm.ofKind body.kind = .expression := by decide +kernel
    have inner : body.firstNamed? = some reading := rfl
    refine visits.next (?_ : _ = (_, [_]))
    simp only [step, Facts.statement, form, addExpressionStatement, inner, openStatement, placed,
      pushStatement]
    rfl
  have reads : made graph (filled word) =
      (made graph ((headed word).push 1 4 .simple).1).record context ⟨.read, .name "i" 1, 4⟩ := rfl
  refine ⟨graph, formed', ids', opens.next (?_ : _ = (_, []))⟩
  rw [reads, ← text]
  rfl

/-! ### The facts -/

/-- What the header does with variables that are declared. -/
def header (word : String) : Array Access :=
  if word = "i" then #[⟨.read, .node 1, 3⟩, ⟨.write, .node 1, 3⟩] else #[]

/-- The region behind the loop, with its names looked up. -/
def settled (word : String) : Region :=
  { filled word with
    accesses := #[#[⟨.write, .node 1, 0⟩], header word, #[⟨.read, .node 1, 4⟩]] }

/-- In the scope of the loop there is one variable. -/
theorem resolveVariable_made (graph : Graph) (region : Region) (word : String) :
    (made graph region).scopes.resolveVariable 1 word = if word = "i" then some 1 else none := by
  let scope : Scope :=
    { parent := some 0
      hoists := false
      declaredVariables := ({} : Std.HashMap String Nat).insertIfNew "i" 1 }
  have inner : (made graph region).scopes.list[1]? = some scope := rfl
  have outer : (made graph region).scopes.list[0]? = some { parent := none, hoists := true } := rfl
  have parent : scope.parent = some 0 := rfl
  rw [Scopes.resolveVariable, Scopes.search_eq _ inner, parent, Option.bind_some,
    Scopes.search_eq _ outer]
  simp only [scope, Std.HashMap.getElem?_insertIfNew, Std.HashMap.getElem?_empty]
  by_cases same : word = "i"
  · simp [same]
  · simp [same, Ne.symm same]

theorem resolve_filled (graph : Graph) (word : String) :
    (filled word).resolve (made graph (filled word)).scopes = settled word := by
  have known := resolveVariable_made graph (filled word)
  have accesses : (filled word).accesses = #[#[⟨.write, .node 1, 0⟩],
      #[⟨.read, .name word 1, 3⟩, ⟨.write, .name word 1, 3⟩], #[⟨.read, .name "i" 1, 4⟩]] := rfl
  have found : (filled word).accesses.map (fun list => list.filterMap
      (Access.resolve (made graph (filled word)).scopes)) =
        #[#[⟨.write, .node 1, 0⟩], header word, #[⟨.read, .node 1, 4⟩]] := by
    rw [accesses, header]
    split <;> simp_all [Access.resolve]
  unfold Region.resolve settled
  rw [found]
  rfl

/-- The facts about the file, up to its graph. -/
theorem of_file (spells : Spells source word) : ∃ graph,
    graph.nodes.toList.map Node.id = ["a.ts:statement:5-15", "a.ts:variable:9-10",
      "a.ts:statement:0-25", "a.ts:expression:18-21", "a.ts:statement:23-25"] ∧
    Facts.of (file source) = made graph (settled word) := by
  obtain ⟨graph, -, ids, visits⟩ := visits_filled spells
  have regions : (made graph (filled word)).regions.map
      (fun region => region.resolve (made graph (filled word)).scopes) = #[settled word] := by
    rw [← resolve_filled graph word]
    exact Array.map_singleton
  refine ⟨graph, ids, ?_⟩
  rw [visits.of_eq, runAll, List.foldl_nil, resolveNames, regions]
  rfl

/-! ### The loop in its region -/

theorem loopAt_settled (word : String) : (settled word).LoopAt 0 1 1 0 1 where
  placed := ⟨0, 0, 2, rfl, rfl⟩
  owned := rfl
  defines := ⟨[], rfl⟩

theorem readBehind_settled (word : String) :
    (settled word).ReadBehind 1 1 2 ⟨.read, .node 1, 4⟩ where
  path := ⟨2, rfl, .here⟩
  stands := ⟨[], ⟨[], rfl⟩, rfl⟩
  reads := rfl

/-- The region has no other loop. -/
theorem eq_of_loopAt {initial header body site binding : Nat}
    (laid : (settled word).LoopAt initial header body site binding) :
    initial = 0 ∧ header = 1 ∧ body = 1 ∧ site = 0 ∧ binding = 1 := by
  obtain ⟨⟨block, index, headerSite, first, second⟩, -, earlier, defines⟩ := laid
  obtain ⟨rfl, rfl⟩ : header = 1 ∧ body = 1 := by
    match header, second with
    | 0, second => cases second
    | 1, second =>
      cases second
      exact ⟨rfl, rfl⟩
    | 2, second => cases second
    | s + 3, second => cases second
  match initial, first, defines with
  | 0, _, defines =>
    have last := congrArg List.getLast? defines
    rw [List.getLast?_concat] at last
    cases last
    exact ⟨rfl, rfl, rfl, rfl, rfl⟩
  | 1, first, _ => cases first
  | 2, _, defines =>
    have last := congrArg List.getLast? defines
    rw [List.getLast?_concat] at last
    cases last
  | s + 3, first, _ => cases first

theorem accessesAt_settled {place : Option Nat} {access : Access}
    (there : access ∈ (settled word).accessesAt place) :
    (place = some 0 ∧ access = ⟨.write, .node 1, 0⟩) ∨ (place = some 1 ∧ access.site = 3) ∨
      (place = some 2 ∧ access = ⟨.read, .node 1, 4⟩) := by
  match place, there with
  | none, there => cases there
  | some 0, there => exact .inl ⟨rfl, List.mem_singleton.1 there⟩
  | some 1, there =>
    have listed : access ∈ (header word).toList := there
    refine .inr (.inl ⟨rfl, ?_⟩)
    rw [header] at listed
    split at listed
    · simp only [List.mem_cons, List.not_mem_nil, or_false] at listed
      rcases listed with rfl | rfl <;> rfl
    · cases listed
  | some 2, there => exact .inr (.inr ⟨rfl, List.mem_singleton.1 there⟩)
  | some (s + 3), there => cases there

/-- Nothing else is written or read at the two sites. -/
theorem undisturbed_made (graph : Graph) (word : String) :
    (made graph (settled word)).Undisturbed 0 0 0 1 2 4 := by
  have only : ∀ (other : Nat) (region : Region),
      (made graph (settled word)).regions[other]? = some region →
      other = 0 ∧ region = settled word := by
    intro other region found
    have there : (#[settled word] : Array Region)[other]? = some region := found
    rw [Array.getElem?_singleton] at there
    split at there
    · next first => exact ⟨first, (Option.some.inj there).symm⟩
    · cases there
  constructor
  case writes =>
    intro other region place access written found there defines here
    obtain ⟨rfl, rfl⟩ := only other region found
    rcases accessesAt_settled there with ⟨rfl, rfl⟩ | ⟨-, elsewhere⟩ | ⟨-, rfl⟩
    · exact ⟨rfl, rfl, (Option.some.inj defines).symm⟩
    · rw [elsewhere] at here
      cases here
    · cases defines
  case params =>
    intro region inside
    obtain rfl := List.mem_singleton.1 inside
    exact List.not_mem_nil
  case reads =>
    intro other region place access found there uses here
    obtain ⟨rfl, rfl⟩ := only other region found
    rcases accessesAt_settled there with ⟨-, rfl⟩ | ⟨-, elsewhere⟩ | ⟨rfl, -⟩
    · cases uses
    · rw [elsewhere] at here
      cases here
    · exact ⟨rfl, rfl⟩
  case declared => simp [region?, made]
  case calls =>
    rintro tag ⟨connection, inside, -⟩
    cases inside

/-! ### Lost and kept -/

/-- The increment counts up the variable of the loop. -/
def same : SourceText := .ofString "for (let i = 0; ; i++) i;"

/-- The increment counts up another variable. -/
def another : SourceText := .ofString "for (let i = 0; ; j++) i;"

theorem spells_same : Spells same "i" := ⟨rfl, rfl, rfl⟩

theorem spells_another : Spells another "j" := ⟨rfl, rfl, rfl⟩

/-- The body reads the variable before the increment has written it, and the graph has no flow edge
from the initialiser to the reading site. -/
theorem initialiser_lost :
    Visits (file same) {} [.statement loop {}] ∧ loop.Initialises declaration declarator name ∧
    ∃ region : Region, (Facts.of (file same)).regions[0]? = some region ∧
      region.LoopAt 0 1 1 0 1 ∧
      (Facts.of (file same)).graph.IdAt 0 "a.ts:statement:5-15" ∧
      (Facts.of (file same)).graph.IdAt 4 "a.ts:statement:23-25" ∧
      region.ReadBehind 1 1 2 ⟨.read, .node 1, 4⟩ ∧
      ¬ (Graph.ofFile .epoch (file same)).HasEdge .flow 0 4 (some "i") := by
  obtain ⟨graph, ids, facts⟩ := of_file spells_same
  have found : (Facts.of (file same)).regions[0]? = some (settled "i") := by
    rw [facts]
    rfl
  refine ⟨.start, initialises, settled "i", found, loopAt_settled "i", ?_, ?_,
    readBehind_settled "i", ?_⟩
  · rw [facts]
    exact Graph.idAt_of_ids ids rfl
  · rw [facts]
    exact Graph.idAt_of_ids ids rfl
  · refine not_hasEdge_of_written .epoch found (loopAt_settled "i") (by decide)
      (by decide : 2 ≠ 1) (by decide : 2 ≠ 0) ?_ _
    rw [facts]
    exact undisturbed_made graph "i"

/-- With another variable in the increment, the graph has the flow edge. -/
theorem initialiser_kept :
    (Graph.ofFile .epoch (file another)).HasEdge .flow 0 4 (some "i") := by
  obtain ⟨graph, -, facts⟩ := of_file spells_another
  have begins : Visits (file another) {} [.statement loop {}] := .start
  obtain ⟨region, initial, header, body, site, binding, found, laid, -, -, flows⟩ :=
    Visits.initialiser_flows .epoch begins initialises
  obtain rfl : region = settled "j" := by
    rw [facts] at found
    exact (Option.some.inj found).symm
  obtain ⟨rfl, rfl, rfl, rfl, rfl⟩ := eq_of_loopAt laid
  have text : (file another).textOf name = "i" := rfl
  rw [← text]
  exact (flows 2 ⟨.read, .node 1, 4⟩ (readBehind_settled "j") (by decide) (by decide)
    (by decide)).1 (by decide)

end Counting

end Facts

end CodeGraph

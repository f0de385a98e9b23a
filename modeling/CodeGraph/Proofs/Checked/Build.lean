import CodeGraph.Checked.Build
import CodeGraph.Proofs.Calls.Across
import CodeGraph.Proofs.Checked.Control
import CodeGraph.Proofs.Checked.Walk
import CodeGraph.Proofs.Facts.FileEdges
import CodeGraph.Proofs.Facts.Numbered
import CodeGraph.Proofs.Graph.Parent
import CodeGraph.Proofs.Workspace

/-!
# Building finds every number

No number that a file or a list of files makes the build come by is without an entry, whatever the trees
of the files are. This is told in two ways. At every moment of the walk the numbers that are stored and
those that wait on the stack are those of entries (`Facts.InRange`, `Task.InRange`). And the stages
give what they give without looking, although they look every number up before they use it: the walk
(`Checked.halts_walk`), control flow and the worklist (`Checked.control_eq`, `Checked.halts_work`), the
edges of a file (`Checked.assemble_eq`), and the union with the calls between files
(`Checked.ofFiles_eq`).
-/

namespace CodeGraph

namespace Checked

/-! ## Names -/

theorem resolveAccess_eq {scopes : Scopes} {access : Access}
    (there : ∀ text scope, access.binding = .name text scope → scope < scopes.list.size) :
    resolveAccess scopes access = .ok (access.resolve scopes) := by
  unfold resolveAccess Access.resolve
  cases named : access.binding with
  | node _ => rfl
  | name text scope => exact bind_eq (resolveVariable_eq (there text scope named) text) rfl

theorem reduceOption_map {Item Result : Type} (find : Item → Option Result) (items : List Item) :
    (items.map find).reduceOption = items.filterMap find := by
  change (items.map find).filterMap id = _
  rw [List.filterMap_map]
  rfl

theorem toArray_reduceOption {Item Result : Type} (find : Item → Option Result)
    (items : Array Item) : (items.toList.map find).reduceOption.toArray = items.filterMap find := by
  rw [reduceOption_map, ← Array.toList_filterMap]

theorem resolveRegion_eq {scopes : Scopes} {region : Region} (names : region.NamesIn scopes) :
    resolveRegion scopes region = .ok (region.resolve scopes) := by
  have entry : region.entryAccesses.toList.mapM (resolveAccess scopes) =
      .ok (region.entryAccesses.toList.map (Access.resolve scopes)) :=
    mapM_eq fun access there => resolveAccess_eq (names access (List.mem_append_left _ there))
  have each : (region.accesses.toList.mapM fun list => list.toList.mapM (resolveAccess scopes)) =
      .ok (region.accesses.toList.map fun list => list.toList.map (Access.resolve scopes)) :=
    mapM_eq fun list inside => mapM_eq fun access there => resolveAccess_eq
      (names access (List.mem_append_right _ (List.mem_flatMap.2 ⟨list, inside, there⟩)))
  have rows : ((region.accesses.toList.map fun list => list.toList.map (Access.resolve scopes)).map
      fun list => list.reduceOption.toArray).toArray =
        region.accesses.map fun list => list.filterMap (Access.resolve scopes) := by
    rw [List.map_map, ← Array.toList_inj, Array.toList_map]
    exact List.map_congr_left fun list _ => toArray_reduceOption _ list
  refine bind_eq entry (bind_eq each ?_)
  rw [toArray_reduceOption, rows]
  rfl

theorem resolveNames_eq {facts : Facts} (numbered : facts.Numbered) :
    resolveNames facts = .ok facts.resolveNames := by
  have each : facts.regions.toList.mapM (resolveRegion facts.scopes) =
      .ok (facts.regions.toList.map fun region => region.resolve facts.scopes) := by
    refine mapM_eq fun region inside => ?_
    obtain ⟨number, found⟩ := Array.getElem?_of_mem (Array.mem_toList_iff.1 inside)
    exact resolveRegion_eq (numbered.names number region found)
  refine bind_eq each ?_
  rw [Facts.resolveNames, ← Array.toList_map]
  rfl

/-! ## Calls within a file -/

section Calls

variable {facts : Facts}
  (indexed : ∀ node number : Nat, facts.functionIndex[node]? = some number →
    number < facts.functions.size)

include indexed

theorem methodsNamed_eq (classes : List ClassFact) (name : String) :
    methodsNamed facts classes name = .ok (facts.methodsNamed classes name) :=
  bind_eq (forM_eq fun method _ => require?_eq .functions (indexed method)) rfl

theorem candidates_eq {call : CallFact} (scope : call.scope < facts.scopes.list.size) :
    candidates facts call = .ok (facts.candidates call) := by
  unfold candidates Facts.candidates
  cases call.callee <;> dsimp only
  case function name =>
    refine bind_eq (resolveFunction_eq scope name) ?_
    cases facts.scopes.resolveFunction call.scope name with
    | some function => rfl
    | none => rfl
  case method name => exact methodsNamed_eq indexed _ name
  case constructor name => exact methodsNamed_eq indexed _ "constructor"
  case dynamic => rfl

theorem target?_eq (node : Nat) : target? facts node = .ok (facts.target? node) := by
  unfold target? Facts.target? Facts.function?
  cases listed : facts.functionIndex[node]? with
  | none => rfl
  | some number =>
    have held := Array.getElem?_eq_getElem (indexed node number listed)
    rw [Option.bind_some, held]
    exact bind_eq (entry_eq .functions held) rfl

theorem linkCall_eq {call : CallFact} (scope : call.scope < facts.scopes.list.size)
    (nameOf : Nat → String) {graph : Graph} (there : call.node < graph.nodes.size)
    (joins : ∀ connection ∈ facts.callEdges nameOf call, graph.Joins connection) :
    linkCall facts nameOf graph call = .ok (facts.linkCall nameOf graph call) := by
  refine bind_eq (candidates_eq indexed scope) (bind_eq (require_eq .nodes there)
    (bind_eq (mapM_eq fun node _ => target?_eq indexed node) ?_))
  rw [reduceOption_map]
  exact connectAll_eq fun connection asked =>
    (joins connection asked).of_size (Graph.size_setProperty _ _ _ _)

end Calls

/-! ## The graph of a file -/

/-- Connections of nodes of a graph can be added to a graph with the same nodes. -/
theorem connectAll_later {before graph : Graph} (same : graph.nodes = before.nodes)
    {connections : List Connection}
    (joins : ∀ connection ∈ connections, before.Joins connection) :
    connectAll graph connections = .ok (graph.connectAll connections) :=
  connectAll_eq fun connection inside =>
    (joins connection inside).of_size (congrArg Array.size same)

theorem assemble_eq {file : SourceFile} {facts : Facts} (sound : Facts.Sound file facts)
    (inScope : ∀ (number : Nat) (call : CallFact), facts.calls[number]? = some call →
      call.scope < facts.scopes.list.size)
    (indexed : ∀ node number : Nat, facts.functionIndex[node]? = some number →
      number < facts.functions.size) : assemble facts = .ok facts.assemble := by
  have laid : ∀ region ∈ facts.regions.toList, region.skeleton.Laid :=
    fun region inside => (sound.each_region.1 region inside).laid
  have controls : (facts.regions.toList.mapM fun region => control region.skeleton) =
      .ok facts.controls := mapM_eq fun region inside => control_eq (laid region inside)
  have transfers : ((facts.regions.toList.zip facts.controls).mapM fun pair =>
      links pair.1 pair.2) = .ok ((facts.regions.toList.zip facts.controls).map
        fun pair => pair.2.links pair.1) := by
    refine mapM_eq fun pair inside => ?_
    rw [Facts.controls, ← List.map_prod_left_eq_zip] at inside
    obtain ⟨region, there, rfl⟩ := List.mem_map.1 inside
    exact links_eq (laid region there)
  -- No stage adds nodes, so what joins nodes of the walk joins nodes of every graph in between.
  let first := facts.graph.connectAll (facts.stages.control.flatMap Control.Link.connections)
  let second := first.connectAll facts.stages.access
  let third := second.connectAll facts.stages.results
  have nodes : first.nodes = facts.graph.nodes := Graph.nodes_connectAll _ _
  have nodes' : second.nodes = facts.graph.nodes := (Graph.nodes_connectAll _ _).trans nodes
  have nodes'' : third.nodes = facts.graph.nodes := (Graph.nodes_connectAll _ _).trans nodes'
  have linked : facts.calls.toList.foldlM (linkCall facts facts.graph.nameOf) third =
      .ok (facts.calls.toList.foldl (facts.linkCall facts.graph.nameOf) third) := by
    refine foldlM_eq (fun graph => graph.nodes.size = facts.graph.nodes.size)
      (fun call inside graph size => ⟨?_, ?_⟩) (congrArg Array.size nodes'')
    · obtain ⟨number, found⟩ := Array.getElem?_of_mem (Array.mem_toList_iff.1 inside)
      exact linkCall_eq indexed (inScope number call found) _
        (size ▸ (sound.calls number call found).node.lt) fun connection asked =>
          (sound.joins_callEdges inside _ connection asked).of_size size
    · exact (facts.size_linkCall _ graph call).trans size
  rw [Facts.assemble_eq, Facts.staged, Graph.connectAll_append, Graph.connectAll_append]
  refine bind_eq controls (bind_eq transfers (bind_eq (?_ : _ = Except.ok first)
    (bind_eq (connectAll_later nodes sound.joins_access)
      (bind_eq (connectAll_later nodes' sound.joins_results) linked))))
  rw [← List.flatMap_def]
  exact connectAll_eq sound.joins_control

/-! ## Calls between files -/

section Linking

variable {graph : Graph}

theorem climb_eq (formed : graph.WellFormed) {steps : Nat} {start : Option Nat}
    (there : ∀ handle, start = some handle → handle < graph.nodes.size) :
    climb graph graph.parents steps start = .ok (graph.climb graph.parents steps start) := by
  induction steps generalizing start with
  | zero => rfl
  | succ steps ih =>
    cases start with
    | none => rfl
    | some handle =>
      have held := Array.getElem?_eq_getElem (there handle rfl)
      refine bind_eq (entry_eq .nodes held) ?_
      rw [Graph.climb, Graph.hasKind, held]
      simp only [Option.map_some, beq_iff_eq, Option.some.injEq]
      split
      · rfl
      · exact ih fun parent above => formed.parent?_lt above

theorem functionAround_eq (formed : graph.WellFormed) (handle : Nat) :
    functionAround graph graph.parents handle = .ok (graph.functionAround graph.parents handle) :=
  climb_eq formed fun _ above => formed.parent?_lt above

theorem enterNode_eq (formed : graph.WellFormed) (tables : LinkTables) (entry : Node × Nat) :
    enterNode graph graph.parents tables entry = .ok (tables.add graph graph.parents entry) := by
  unfold enterNode
  split
  · next returns =>
    refine bind_eq (functionAround_eq formed entry.2) ?_
    simp only [LinkTables.add, returns.1, returns.2, if_true]
    rfl
  · rfl

theorem linkedCall?_eq (formed : graph.WellFormed) {handle : Nat}
    (there : handle < graph.nodes.size) :
    linkedCall? graph graph.parents (graph.linkTables graph.parents) handle =
      .ok (graph.linkedCall? handle) := by
  have held := Array.getElem?_eq_getElem there
  refine bind_eq (entry_eq .nodes held) ?_
  rw [Graph.linkedCall?, held]
  dsimp only
  cases (graph.linkTables graph.parents).targets graph.nodes[handle] with
  | nil => rfl
  | cons target rest => exact bind_eq (functionAround_eq formed handle) rfl

theorem addLinked_eq {linked : Graph.LinkedCall} (there : linked.node < graph.nodes.size)
    (joins : ∀ connection ∈ linked.edges, graph.Joins connection) :
    addLinked graph linked = .ok (graph.addLinked linked) := by
  refine bind_eq (connectAll_eq joins) (bind_eq (require_eq .nodes ?_) rfl)
  rw [Graph.nodes_connectAll]
  exact there

theorem linkAcrossFiles_eq (formed : graph.WellFormed) :
    linkAcrossFiles graph = .ok graph.linkAcrossFiles.1 := by
  have tables : graph.nodes.zipIdx.toList.foldlM (enterNode graph graph.parents) {} =
      .ok (graph.linkTables graph.parents) := by
    rw [Graph.linkTables, ← Array.foldl_toList]
    exact foldlM_eq (fun _ => True)
      (fun entry _ state _ => ⟨enterNode_eq formed state entry, trivial⟩) trivial
  have resolved : graph.pendingCalls.mapM (fun call =>
      linkedCall? graph graph.parents (graph.linkTables graph.parents) call.2) =
        .ok (graph.pendingCalls.map fun call => graph.linkedCall? call.2) := by
    refine mapM_eq fun call inside => linkedCall?_eq formed ?_
    obtain ⟨node, pending, -⟩ := Graph.mem_pendingCalls.1 inside
    exact (Array.getElem?_eq_some_iff.1 pending.1).1
  refine bind_eq tables (bind_eq resolved ?_)
  rw [reduceOption_map, ← Graph.linkedCalls_eq]
  -- All that is linked was read off before the first edge was added; its handles stay those of nodes.
  refine foldlM_eq (fun state => state.nodes.size = graph.nodes.size)
    (fun linked inside state size => ⟨addLinked_eq ?_ fun connection asked => ?_, ?_⟩) rfl
  · obtain ⟨node, ⟨pending, -⟩, -⟩ := Graph.edges_of_mem_linkedCalls inside
    exact size ▸ (Array.getElem?_eq_some_iff.1 pending.1).1
  · exact (Graph.joins_of_mem_linkedCalls inside connection asked).of_size size
  · exact (Graph.size_addLinked state linked).trans size

/-- Well-formed graphs can be united, and the calls between them resolved. -/
theorem ofFiles_eq (present : Instant) (files : List Path) {graphs : List Graph}
    (formed : ∀ graph ∈ graphs, graph.WellFormed) :
    ofFiles present files graphs = .ok (Graph.ofFiles present files graphs) := by
  have united : graphs.foldlM absorb Graph.empty =
      .ok (graphs.foldl (fun united graph => (united.absorb graph).1) Graph.empty) :=
    foldlM_eq Graph.WellFormed (fun graph inside state whole =>
      ⟨absorb_eq whole (formed graph inside), (whole.absorb (formed graph inside)).1⟩)
      Graph.wellFormed_empty
  have whole := (Graph.wellFormed_empty.unite formed).addFiles files
  exact bind_eq united (bind_eq (linkAcrossFiles_eq whole.1) rfl)

end Linking

end Checked

/-! ## What is stored and what waits -/

/-- The blocks that the statements of a region name are blocks of it, the statements that its blocks
name are statements of it, and each of its statements has a place for accesses. -/
structure Region.InRange (region : Region) : Prop where
  placed : ∀ (s : Nat) (statement : Statement), region.skeleton.statements[s]? = some statement →
    statement.block < region.skeleton.blocks.size ∧
      ∀ arm ∈ statement.arms, arm < region.skeleton.blocks.size
  owned : ∀ (b : Nat) (block : Block), region.skeleton.blocks[b]? = some block →
    (∀ s role, block.owner = some (s, role) → s < region.skeleton.statements.size) ∧
      ∀ s ∈ block.statements, s < region.skeleton.statements.size
  accesses : region.accesses.size = region.skeleton.statements.size

theorem Region.Built.inRange {region : Region} (built : region.Built) : region.InRange where
  placed := fun s statement stood =>
    ⟨region.skeleton.statement_lt s statement stood, fun arm inside =>
      (built.laid.arm_gt stood (Array.mem_toList_iff.2 inside)).2⟩
  owned := by
    refine fun b block held => ⟨fun s role owned => ?_, fun s inside => ?_⟩
    · obtain ⟨statement, stood, -⟩ := region.skeleton.block_lt b block s role held owned
      exact (Array.getElem?_eq_some_iff.1 stood).1
    · obtain ⟨index, listed⟩ := Array.mem_iff_getElem?.1 inside
      obtain ⟨statement, stood, -⟩ := built.laid.knows b index s
        (by rw [Skeleton.statementsOf, held]; exact listed)
      exact (Array.getElem?_eq_some_iff.1 stood).1
  accesses := built.size_accesses

/-- The numbers that the facts hold are those of entries. -/
structure Facts.InRange (facts : Facts) : Prop extends facts.Numbered where
  functionIndex : ∀ node number : Nat, facts.functionIndex[node]? = some number →
    number < facts.functions.size
  regions : ∀ (number : Nat) (region : Region), facts.regions[number]? = some region →
    region.InRange

/-- The numbers in a context are those of entries; the block and the statement are those of the region. -/
structure Context.InRange (context : Context) (facts : Facts) : Prop where
  region : ∃ region, facts.regions[context.region]? = some region ∧
    context.block < region.skeleton.blocks.size ∧
      ∀ number, context.statement = some number → number < region.skeleton.statements.size
  scope : context.scope < facts.scopes.list.size
  function : ∀ number, context.function = some number → number < facts.functions.size
  site : ∀ handle, context.site = some handle → handle < facts.graph.nodes.size
  parent : ∀ handle, context.parent = some handle → handle < facts.graph.nodes.size

theorem Context.Known.inRange {context : Context} {facts : Facts} (known : context.Known facts) :
    context.InRange facts where
  region := by
    obtain ⟨region, found⟩ := Facts.region_of_block known.block
    have block := known.block
    have statement := known.statement
    rw [Facts.blocksIn_of_found found] at block
    rw [Facts.statementsIn_of_found found] at statement
    exact ⟨region, found, block, statement⟩
  scope := known.scope
  function := fun _ => known.function_lt
  site := fun handle given => (known.site handle given).lt
  parent := known.parent

/-- The numbers that a task holds are those of entries. -/
structure Task.InRange (task : Task) (facts : Facts) : Prop where
  context : task.context.InRange facts
  binds : ∀ site, task.bindsAt? = some site → site < facts.graph.nodes.size

namespace Facts.Visits

variable {file : SourceFile} {facts : Facts} {tasks : List Task}

/-- At every moment of the walk the numbers that are stored are those of entries. -/
theorem inRange (visits : Visits file facts tasks) : facts.InRange where
  toNumbered := visits.numbered
  functionIndex := fun _ _ => visits.recorded.functionIndex_lt
  regions := fun number region found => (visits.sound.1.regions number region found).built.inRange

/-- At every moment of the walk the numbers that wait are those of entries. -/
theorem task_inRange (visits : Visits file facts tasks) {task : Task} (waits : task ∈ tasks) :
    task.InRange facts :=
  have known := (visits.sound.2 task waits).1
  ⟨known.context.inRange, fun site given => (known.binds site given).1.lt⟩

end Facts.Visits

/-! ## Whole builds -/

/-- Building the graph of a file comes by no number without an entry. -/
structure SourceFile.FindsAll (file : SourceFile) (present : Instant) : Prop where
  /-- At every moment of the walk, what is stored and what waits has entries. -/
  moments : ∀ facts tasks, Facts.Visits file facts tasks →
    facts.InRange ∧ ∀ task ∈ tasks, task.InRange facts
  /-- The walk ends without a number that is missing, and so do the stages behind it. What they give
  is the graph of the file. -/
  ends : ∃ facts, Halts (Checked.loop (Checked.walk file)) (.ok (Checked.beginning file))
      (.ok (facts, [])) ∧
    Checked.ofWalk present file facts = .ok (Graph.ofFile present file)
  /-- Control goes to statements of its region, and the worklist has a place for each that it comes by. -/
  flows : ∀ (number : Nat) (region : Region), (Facts.of file).regions[number]? = some region →
    (∀ first, (Control.of region.skeleton).entry = some first →
      first < region.skeleton.statements.size) ∧
    (∀ s, ∀ next ∈ (Control.of region.skeleton).successors s,
      next < region.skeleton.statements.size) ∧
    ∀ entry, ∃ last,
      Halts (Checked.loop (Checked.work region (Control.of region.skeleton) entry))
        (.ok (.start region.accesses.size)) (.ok last) ∧
      last.ins.toList = Reaching.before region (Control.of region.skeleton) entry

theorem SourceFile.findsAll (file : SourceFile) (present : Instant) : file.FindsAll present where
  moments := fun _ _ visits => ⟨visits.inRange, fun _ waits => visits.task_inRange waits⟩
  ends := by
    have walked := Facts.Visits.last file
    exact ⟨_, Checked.halts_walk file, Checked.bind_eq (Checked.resolveNames_eq walked.numbered)
      (Checked.bind_eq (Checked.assemble_eq walked.sound.1.resolveNames walked.numbered.calls
        fun _ _ => walked.recorded.functionIndex_lt) rfl)⟩
  flows := by
    intro number region found
    have built := ((Facts.sound_of file).regions number region found).built
    refine ⟨fun first => Control.entry_lt built.laid, fun s next step => ?_,
      Checked.halts_work built.within⟩
    rw [← built.size_accesses]
    exact built.within.target_lt s next step

/-- Building never comes by a number without an entry: not for a file, whatever its tree, not for any
list of files, and not for the files of a workspace, of which some may not be readable. -/
theorem Graph.finds_every_number :
    (∀ (file : SourceFile) (present : Instant), file.FindsAll present) ∧
      (∀ (present : Instant) (paths : List Path) (files : List SourceFile),
        Checked.ofFiles present paths (files.map (ofFile present)) =
          .ok (ofFiles present paths (files.map (ofFile present)))) ∧
      ∀ (workspace : Workspace) (paths : List Path),
        Checked.ofFiles workspace.present paths (paths.map workspace.buildFile) =
          .ok (workspace.buildFiles paths) := by
  refine ⟨SourceFile.findsAll, fun present paths files => ?_, fun workspace paths => ?_⟩
  · refine Checked.ofFiles_eq present paths fun graph inside => ?_
    obtain ⟨file, -, rfl⟩ := List.mem_map.1 inside
    exact wellFormed_ofFile present file
  · refine Checked.ofFiles_eq workspace.present paths fun graph inside => ?_
    obtain ⟨path, -, rfl⟩ := List.mem_map.1 inside
    exact workspace.wellFormed_buildFile path

end CodeGraph

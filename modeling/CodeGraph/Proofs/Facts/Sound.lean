import CodeGraph.Proofs.Facts.Frame

/-!
# Sound facts

What holds of the facts at every moment of the walk (`Facts.Sound`): the graph is well-formed and its
nodes stand for nodes of the syntax tree, the regions were filled step by step, and all nodes that the
regions, the scopes, the functions and the calls speak of are nodes of the graph, of the kinds that
belong there. Looking up the names keeps this (`Facts.Sound.resolveNames`).
-/

namespace CodeGraph

namespace Region

/-- Parameters can be added at any time. -/
theorem Built.withParams {region : Region} (built : region.Built) (params : Array Nat) :
    { region with params }.Built := by
  induction built with
  | start owner _ => exact .start owner params
  | push block site kind _ there ih => exact ih.push block site kind there
  | addArm statement role _ there ih => exact ih.addArm statement role there
  | record statement access _ there ih =>
    have recorded := ih.record statement access there
    cases statement <;> exact recorded

theorem resolve_push (region : Region) (scopes : Scopes) (block site : Nat)
    (kind : StatementKind) : (region.push block site kind).1.resolve scopes =
      ((region.resolve scopes).push block site kind).1 := by
  simp [Region.push, resolve]

/-- An access is looked up before or after it is recorded. -/
theorem resolve_record (region : Region) (scopes : Scopes) (statement : Option Nat)
    (access : Access) : (region.record statement access).resolve scopes =
      match access.resolve scopes with
      | some known => (region.resolve scopes).record statement known
      | none => region.resolve scopes := by
  have last : ∀ list : Array Access, (list.push access).filterMap (Access.resolve scopes) =
      match access.resolve scopes with
      | some known => (list.filterMap (Access.resolve scopes)).push known
      | none => list.filterMap (Access.resolve scopes) := by
    intro list
    rw [← Array.toList_inj]
    cases found : access.resolve scopes with
    | none => simp [found]
    | some known => simp [found]
  cases statement with
  | none =>
    simp only [record, resolve, last]
    cases access.resolve scopes <;> rfl
  | some number =>
    have each : (region.accesses.modify number fun list => list.push access).map
          (fun list => list.filterMap (Access.resolve scopes)) =
        match access.resolve scopes with
        | some known => (region.accesses.map fun list =>
            list.filterMap (Access.resolve scopes)).modify number fun list => list.push known
        | none => region.accesses.map fun list => list.filterMap (Access.resolve scopes) := by
      refine Array.ext_getElem? fun place => ?_
      rw [Array.getElem?_map, Array.getElem?_modify]
      cases found : access.resolve scopes with
      | none =>
        rw [Array.getElem?_map]
        split
        · simp [Function.comp_def, found]
        · rfl
      | some known =>
        rw [Array.getElem?_modify, Array.getElem?_map]
        split
        · simp [Function.comp_def, found]
        · rfl
    simp only [record, resolve, each]
    cases access.resolve scopes <;> rfl

theorem Built.resolve {region : Region} (built : region.Built) (scopes : Scopes) :
    (region.resolve scopes).Built := by
  induction built with
  | start owner params =>
    have same : ({ owner, params } : Region).resolve scopes = { owner, params } := by
      simp [Region.resolve]
    rw [same]
    exact Built.start owner params
  | push block site kind _ there ih =>
    rw [resolve_push]
    exact ih.push block site kind there
  | addArm statement role _ there ih => exact ih.addArm statement role there
  | record statement access _ there ih =>
    rw [resolve_record]
    split
    · exact ih.record statement _ fun number given =>
        there number given
    · exact ih

/-! ## The nodes that a region speaks of -/

theorem mem_allAccesses_record {region : Region} {statement : Option Nat} {access other : Access}
    (there : other ∈ (region.record statement access).allAccesses) :
    other ∈ region.allAccesses ∨ other = access := by
  obtain ⟨place, here⟩ := mem_allAccesses.1 there
  have old : other ∈ region.accessesAt place → other ∈ region.allAccesses ∨ other = access :=
    fun before => .inl (mem_allAccesses.2 ⟨place, before⟩)
  cases place with
  | none =>
    cases statement with
    | some number => exact old here
    | none =>
      simp only [accessesAt, record, Array.toList_push, List.mem_append, List.mem_singleton] at here
      exact here.imp (fun before => mem_allAccesses.2 ⟨none, before⟩) id
  | some place =>
    by_cases same : statement = some place
    · subst same
      by_cases inside : place < region.accesses.size
      · rw [accessesAt, accessesOf_record_self _ _ inside, List.mem_append, List.mem_singleton]
          at here
        exact here.imp (fun before => mem_allAccesses.2 ⟨some place, before⟩) id
      · have outside : (region.record (some place) access).accessesOf place = [] := by
          rw [accessesOf, Array.getElem?_eq_none]
          · rfl
          · simpa [record] using inside
        rw [accessesAt, outside] at here
        cases here
    · rw [accessesAt, accessesOf_record_other _ _ same] at here
      exact old here

theorem mem_allAccesses_push {region : Region} {block site : Nat} {kind : StatementKind}
    {access : Access} (there : access ∈ (region.push block site kind).1.allAccesses) :
    access ∈ region.allAccesses := by
  obtain ⟨place, here⟩ := mem_allAccesses.1 there
  cases place with
  | none => exact mem_allAccesses.2 ⟨none, here⟩
  | some number =>
    rw [accessesAt, accessesOf_push] at here
    exact mem_allAccesses.2 ⟨some number, here⟩

/-- What an access becomes when its name is looked up stands where the access stood. -/
theorem mem_allAccesses_resolve {region : Region} {scopes : Scopes} {access : Access}
    (there : access ∈ (region.resolve scopes).allAccesses) :
    ∃ before ∈ region.allAccesses, before.resolve scopes = some access := by
  rw [allAccesses, List.mem_append, List.mem_flatMap] at there
  rcases there with entry | ⟨list, inside, here⟩
  · simp only [resolve, Array.toList_filterMap, List.mem_filterMap] at entry
    obtain ⟨before, stood, known⟩ := entry
    exact ⟨before, List.mem_append_left _ stood, known⟩
  · simp only [resolve, Array.toList_map, List.mem_map] at inside
    obtain ⟨old, stood, rfl⟩ := inside
    simp only [Array.toList_filterMap, List.mem_filterMap] at here
    obtain ⟨before, within, known⟩ := here
    exact ⟨before, List.mem_append_right _ (List.mem_flatMap.2 ⟨old, stood, within⟩), known⟩

end Region

/-- The nodes that an access refers to are nodes of a graph: a site at which there can be such accesses,
and a variable or a parameter. -/
structure Access.HeldBy (access : Access) (graph : Graph) : Prop where
  site : graph.KindIn access.site access.kind.sites
  node : ∀ handle, access.handle? = some handle → graph.KindIn handle NodeKind.bindings

theorem Access.HeldBy.kept {access : Access} {before after : Graph} (held : access.HeldBy before)
    (kept : before.Kept after) : access.HeldBy after :=
  ⟨held.site.kept kept, fun handle given => (held.node handle given).kept kept⟩

namespace Region

/-- What holds of a region at every moment of the walk: it was filled step by step, and its owner, its
parameters, the sites of its statements and all nodes of its accesses are nodes of the graph. -/
structure Sound (region : Region) (graph : Graph) : Prop where
  built : region.Built
  params : ∀ param ∈ region.params.toList, graph.KindIn param [.param]
  accesses : ∀ access ∈ region.allAccesses, access.HeldBy graph
  owner : ∀ node, region.owner = some node → graph.KindIn node [.func]
  sites : ∀ (s : Nat) (statement : Statement), region.skeleton.statements[s]? = some statement →
    graph.KindIn statement.site NodeKind.steps

namespace Sound

variable {region : Region} {graph : Graph}

theorem held (sound : region.Sound graph) : region.HeldBy graph :=
  ⟨fun param there => (sound.params param there).lt,
    fun access there => ⟨(sound.accesses access there).site.lt,
      fun binding known => ((sound.accesses access there).node binding known).lt⟩⟩

/-- An empty body. -/
theorem empty {owner : Option Nat} (there : ∀ node, owner = some node → graph.KindIn node [.func]) :
    ({ owner } : Region).Sound graph := by
  refine ⟨.start owner #[], ?params, ?accesses, there, ?sites⟩
  case params => exact fun _ none => nomatch none
  case accesses => exact fun _ none => nomatch none
  case sites => exact fun _ _ none => nomatch none

theorem kept {after : Graph} (sound : region.Sound graph) (kept : graph.Kept after) :
    region.Sound after :=
  ⟨sound.built, fun param there => (sound.params param there).kept kept,
    fun access there => (sound.accesses access there).kept kept,
    fun node given => (sound.owner node given).kept kept,
    fun s statement stood => (sound.sites s statement stood).kept kept⟩

theorem push (sound : region.Sound graph) {block site : Nat} (kind : StatementKind)
    (inside : block < region.skeleton.blocks.size) (there : graph.KindIn site NodeKind.steps) :
    (region.push block site kind).1.Sound graph := by
  refine ⟨sound.built.push block site kind inside, sound.params, fun access here => ?_,
    sound.owner, fun s statement stood => ?_⟩
  · exact sound.accesses access (mem_allAccesses_push here)
  · rcases Skeleton.statement_of_push stood with old | ⟨rfl, rfl⟩
    · exact sound.sites s statement old
    · exact there

theorem addArm (sound : region.Sound graph) {statement : Nat} (role : Role)
    (inside : statement < region.skeleton.statements.size) :
    (region.addArm statement role).1.Sound graph := by
  refine ⟨sound.built.addArm statement role inside, sound.params, sound.accesses, sound.owner,
    fun s after stood => ?_⟩
  obtain ⟨before, held, rfl⟩ := Skeleton.statement_of_addArm stood
  exact sound.sites s before held

theorem record (sound : region.Sound graph) {statement : Option Nat} {access : Access}
    (inside : ∀ number, statement = some number → number < region.skeleton.statements.size)
    (held : access.HeldBy graph) : (region.record statement access).Sound graph := by
  refine ⟨sound.built.record statement access inside, ?_, fun other there => ?_, ?_, ?_⟩
  · cases statement <;> exact sound.params
  · rcases mem_allAccesses_record there with old | rfl
    · exact sound.accesses other old
    · exact held
  · cases statement <;> exact sound.owner
  · rw [skeleton_record]
    exact sound.sites

theorem addParam (sound : region.Sound graph) {node : Nat} (there : graph.KindIn node [.param]) :
    { region with params := region.params.push node }.Sound graph := by
  refine ⟨sound.built.withParams _, fun param inside => ?_, sound.accesses, sound.owner,
    sound.sites⟩
  simp only [Array.toList_push, List.mem_append, List.mem_singleton] at inside
  exact inside.elim (sound.params param) fun same => same ▸ there

/-- Looking up the names leads to nodes that the scopes declare. -/
theorem resolve (sound : region.Sound graph) {scopes : Scopes}
    (declared : ∀ node, scopes.Declares node → graph.KindIn node NodeKind.bindings) :
    (region.resolve scopes).Sound graph := by
  refine ⟨sound.built.resolve scopes, sound.params, fun access there => ?_, sound.owner,
    sound.sites⟩
  obtain ⟨old, within, known⟩ := mem_allAccesses_resolve there
  have held := sound.accesses old within
  unfold Access.resolve at known
  split at known
  · exact Option.some.inj known ▸ held
  · obtain ⟨handle, answer, rfl⟩ := Option.map_eq_some_iff.1 known
    exact ⟨held.site, fun binding same =>
      Option.some.inj same ▸ declared _ (Scopes.declares_of_resolveVariable answer)⟩

end Sound

end Region

/-- The nodes that the fact about a function speaks of are nodes of a graph. -/
structure FunctionFact.HeldBy (fact : FunctionFact) (graph : Graph) : Prop where
  node : graph.KindIn fact.node [.func]
  params : ∀ param ∈ fact.params.toList, graph.KindIn param.2 [.param]
  returns : ∀ site ∈ fact.returns.toList, graph.KindIn site NodeKind.steps

theorem FunctionFact.HeldBy.kept {fact : FunctionFact} {before after : Graph}
    (held : fact.HeldBy before) (kept : before.Kept after) : fact.HeldBy after :=
  ⟨held.node.kept kept, fun param there => (held.params param there).kept kept,
    fun site there => (held.returns site there).kept kept⟩

/-- The nodes that the fact about a call speaks of are nodes of a graph. -/
structure CallFact.HeldBy (call : CallFact) (graph : Graph) : Prop where
  node : graph.KindIn call.node [.call]
  caller : ∀ handle, call.caller = some handle → graph.KindIn handle [.func]
  consumer : ∀ handle, call.consumer = some handle → graph.KindIn handle NodeKind.sites

theorem CallFact.HeldBy.kept {call : CallFact} {before after : Graph} (held : call.HeldBy before)
    (kept : before.Kept after) : call.HeldBy after :=
  ⟨held.node.kept kept, fun handle given => (held.caller handle given).kept kept,
    fun handle given => (held.consumer handle given).kept kept⟩

/-- What holds of all items holds of them when one was changed in a way that keeps it. -/
theorem each_modified {α : Type} {before after : Array α} {place : Nat} {change : α → α}
    {P : α → Prop}
    (changed : ∀ number : Nat, after[number]? =
      if place = number then before[number]?.map change else before[number]?)
    (all : ∀ (number : Nat) (item : α), before[number]? = some item → P item)
    (keeps : ∀ item, before[place]? = some item → P item → P (change item)) :
    ∀ (number : Nat) (item : α), after[number]? = some item → P item := by
  intro number item found
  rw [changed] at found
  split at found
  · next same =>
    subst same
    obtain ⟨old, held, rfl⟩ := Option.map_eq_some_iff.1 found
    exact keeps old held (all _ old held)
  · exact all number item found

/-- What holds of all items and of one more holds when that one was added. -/
theorem each_pushed {α : Type} {before : Array α} {last : α} {P : α → Prop}
    (all : ∀ (number : Nat) (item : α), before[number]? = some item → P item) (new : P last) :
    ∀ (number : Nat) (item : α), (before.push last)[number]? = some item → P item := by
  intro number item found
  rw [Array.getElem?_push] at found
  split at found
  · exact Option.some.inj found ▸ new
  · exact all number item found

namespace Facts

/-! ## Sound facts -/

/-- What holds of the facts at every moment of the walk. -/
structure Sound (file : SourceFile) (facts : Facts) : Prop where
  formed : facts.graph.WellFormed
  draws : ∀ (handle : Nat) (node : Node), facts.graph.nodes[handle]? = some node → file.Draws node
  /-- The walk adds edges of containment only, without properties. -/
  children : ∀ (handle : Nat) (arc : Arc), facts.graph.arcs[handle]? = some arc →
    arc.edge.kind = .child ∧ arc.edge.properties = {}
  regions : ∀ (number : Nat) (region : Region), facts.regions[number]? = some region →
    region.Sound facts.graph
  declared : ∀ node, facts.scopes.Declares node → facts.graph.KindIn node NodeKind.bindings
  functions : ∀ (number : Nat) (fact : FunctionFact), facts.functions[number]? = some fact →
    fact.HeldBy facts.graph
  calls : ∀ (number : Nat) (call : CallFact), facts.calls[number]? = some call →
    call.HeldBy facts.graph
  /-- Each body has a scope and a region. -/
  bodies : facts.scopes.bodies.length = facts.regions.size

/-- The facts with which the walk begins. -/
theorem sound_start (file : SourceFile) : Sound file {} where
  formed := Graph.wellFormed_empty
  draws := by
    intro handle node found
    simp at found
  children := by
    intro handle arc found
    simp at found
  regions := by
    intro number region found
    cases number with
    | zero =>
      obtain rfl := Option.some.inj found
      exact .empty fun _ given => nomatch given
    | succ number => simp at found
  declared := by
    intro node declares
    exact absurd declares (Scopes.not_declares_initial node)
  functions := by
    intro number fact found
    simp at found
  calls := by
    intro number call found
    simp at found
  bodies := by decide

/-- An edge after a node was placed is an old one or the edge to its container. -/
theorem child_of_place {facts : Facts} {node : Node} {parent : Option Nat} {handle : Nat} {arc : Arc}
    (found : (facts.place node parent).1.graph.arcs[handle]? = some arc) :
    facts.graph.arcs[handle]? = some arc ∨ arc.edge.kind = .child ∧ arc.edge.properties = {} ∧
      parent = some arc.edge.source ∧ arc.edge.target = (facts.place node parent).2 := by
  have added : (facts.graph.addNode node).1.arcs = facts.graph.arcs := by
    unfold Graph.addNode
    split <;> rfl
  unfold place at found
  rw [← added]
  cases parent with
  | none => exact .inl found
  | some container =>
    simp only at found
    split at found
    · exact .inl found
    · obtain old | ⟨kind, rfl, goal, properties⟩ := Graph.arc_of_withEdge found
      · exact .inl old
      · exact .inr ⟨kind, properties, rfl, goal⟩

variable {file : SourceFile} {base facts : Facts} {outer : Context} {adds : Bool}

namespace Sound

/-- A node may be placed. -/
theorem place (sound : Sound file facts) {node : Node} (draws : file.Draws node)
    (parent : Option Nat) : Sound file (facts.place node parent).1 := by
  have kept := (extends_place facts node parent).graph
  refine ⟨wellFormed_place sound.formed node parent, fun handle held found => ?draws,
    fun handle arc found => ?children, ?regions, ?declared, ?functions, ?calls, sound.bodies⟩
  case draws => exact (node_of_place found).elim (sound.draws handle held) fun same => same.1 ▸ draws
  case children =>
    exact (child_of_place found).elim (sound.children handle arc) fun new => ⟨new.1, new.2.1⟩
  case regions => exact fun number region found => (sound.regions number region found).kept kept
  case declared => exact fun node declares => (sound.declared node declares).kept kept
  case functions => exact fun number fact found => (sound.functions number fact found).kept kept
  case calls => exact fun number call found => (sound.calls number call found).kept kept

/-- The handle that placing a node gives is that of a node of its kind. -/
theorem kind_place (sound : Sound file facts) {node : Node} (draws : file.Draws node)
    (parent : Option Nat) :
    (facts.place node parent).1.graph.KindIn (facts.place node parent).2 [node.kind] := by
  obtain ⟨held, found, same⟩ := handle_place sound.formed node parent
  have drawn := (sound.place draws parent).draws _ held found
  exact ⟨held, found, List.mem_singleton.2 (drawn.kind_eq draws same)⟩

/-- Regions may be changed in a way that keeps what holds of regions. -/
theorem withRegions (sound : Sound file facts) {regions : Array Region}
    (size : regions.size = facts.regions.size)
    (all : ∀ (number : Nat) (region : Region), regions[number]? = some region →
      region.Sound facts.graph) : Sound file { facts with regions } :=
  { sound with regions := all, bodies := sound.bodies.trans size.symm }

theorem withScopes (sound : Sound file facts) {scopes : Scopes}
    (bodies : scopes.bodies = facts.scopes.bodies)
    (all : ∀ node, scopes.Declares node → facts.graph.KindIn node NodeKind.bindings) :
    Sound file { facts with scopes } :=
  { sound with declared := all, bodies := bodies ▸ sound.bodies }

theorem withFunctions (sound : Sound file facts) {functions : Array FunctionFact}
    (all : ∀ (number : Nat) (fact : FunctionFact), functions[number]? = some fact →
      fact.HeldBy facts.graph) : Sound file { facts with functions } :=
  { sound with functions := all }

/-- Where names of functions lead, where variables are declared, and what is known of classes does
not matter. -/
theorem withTables (sound : Sound file facts) (functionIndex regionOf : Std.HashMap Nat Nat)
    (classes : Array ClassFact) :
    Sound file { facts with functionIndex, regionOf, classes } :=
  { sound with }

end Sound

theorem size_pushStatement (facts : Facts) (context : Context) (site : Nat) (kind : StatementKind) :
    (facts.pushStatement context site kind).1.regions.size = facts.regions.size := by
  rw [pushStatement_eq]
  exact Array.size_modify

theorem size_pushArm (facts : Facts) (context : Context) (statement : Nat) (role : Role) :
    (facts.pushArm context statement role).1.regions.size = facts.regions.size := by
  rw [pushArm_eq]
  exact Array.size_modify

theorem draws_functionNode (file : SourceFile) (cursor : Cursor) (name : Option String)
    (isMethod : Bool) (paramCount : Nat) :
    file.Draws (functionNode file cursor name isMethod paramCount) := by
  have draws : file.Draws (file.nodeOf cursor .func name) :=
    file.draws_nodeOf cursor fun binding => by cases binding
  unfold functionNode
  simp only
  split
  · exact draws
  · exact draws

theorem kind_functionNode (file : SourceFile) (cursor : Cursor) (name : Option String)
    (isMethod : Bool) (paramCount : Nat) :
    (functionNode file cursor name isMethod paramCount).kind = .func := by
  unfold functionNode
  simp only
  split <;> rfl

/-- A call has the id of its syntax node. -/
theorem sameNode_callNode (file : SourceFile) (cursor : Cursor) (call : CallSyntax) :
    ∃ name, Graph.SameNode (callNode file cursor call) (file.nodeOf cursor .call name) := by
  unfold callNode
  simp only
  split
  · split
    · exact ⟨_, rfl, rfl, rfl, rfl⟩
    · exact ⟨_, rfl, rfl, rfl, rfl⟩
  · split
    · exact ⟨_, rfl, rfl, rfl, rfl⟩
    · exact ⟨_, rfl, rfl, rfl, rfl⟩

theorem draws_callNode (file : SourceFile) (cursor : Cursor) (call : CallSyntax) :
    file.Draws (callNode file cursor call) := by
  obtain ⟨name, same⟩ := sameNode_callNode file cursor call
  exact ⟨cursor, .call, name, same, fun binding => by cases binding⟩

/-- Names of functions do not matter for what names of variables stand for. -/
theorem declares_declareFunction {cursor : Cursor} {around inside : Nat} {ownName : Option String}
    {hint : Option Hint} {isMethod : Bool} {node handle : Nat}
    (declares : (facts.declareFunction cursor around inside ownName hint isMethod
      node).scopes.Declares handle) : facts.scopes.Declares handle := by
  unfold Facts.declareFunction at declares
  simp only at declares
  split at declares
  · split at declares
    · exact Scopes.declares_declareFunction declares
    · split at declares
      · exact declares
      · exact Scopes.declares_declareFunction declares
  · split at declares
    · exact Scopes.declares_declareFunction declares
    · exact declares
  · exact declares

theorem kind_enterFunction (sound : Sound file facts) (cursor : Cursor) (context : Context)
    (hint : Option Hint) (isMethod : Bool) :
    (facts.enterFunction file cursor context hint isMethod).facts.graph.KindIn
      (facts.enterFunction file cursor context hint isMethod).node [.func] := by
  rw [graph_enterFunction]
  have placed := sound.kind_place (draws_functionNode file cursor
    (givenName file cursor hint) isMethod
    (Parameter.ofFunction cursor).length) context.parent
  rw [kind_functionNode] at placed
  exact placed

theorem Sound.enterFunction (sound : Sound file facts) (cursor : Cursor) (context : Context)
    (hint : Option Hint) (isMethod : Bool) :
    Sound file (facts.enterFunction file cursor context hint isMethod).facts := by
  have placed := sound.place (draws_functionNode file cursor
    (givenName file cursor hint) isMethod
    (Parameter.ofFunction cursor).length) context.parent
  have node := kind_enterFunction sound cursor context hint isMethod
  have scopes : ∀ handle,
      (facts.enterFunction file cursor context hint isMethod).facts.scopes.Declares handle →
        facts.scopes.Declares handle :=
    fun handle declares => Scopes.declares_push (declares_declareFunction declares)
  have bodies := Scopes.bodies_of_frames_push
    (frames_enterFunction facts file cursor context hint isMethod)
  rw [enterFunction_eq] at node ⊢
  refine { placed with
    declared := fun handle declares => placed.declared handle (scopes handle declares)
    functions := ?functions
    regions := ?regions
    bodies := ?bodies }
  case bodies => rw [bodies, List.length_append, sound.bodies, Array.size_push]; rfl
  case functions =>
    exact each_pushed placed.functions
      ⟨node, fun _ none => (nomatch none), fun _ none => (nomatch none)⟩
  case regions =>
    exact each_pushed placed.regions (.empty fun _ given => Option.some.inj given ▸ node)

theorem Sound.addCall (sound : Sound file facts) (cursor : Cursor) {context : Context}
    (known : context.Known facts) : Sound file (facts.addCall file cursor context).1 := by
  have draws := draws_callNode file cursor (callSyntax file cursor)
  have placed := sound.place draws context.parent
  have node := sound.kind_place draws context.parent
  obtain ⟨name, -, kind, -⟩ := sameNode_callNode file cursor (callSyntax file cursor)
  rw [kind] at node
  refine { placed with calls := each_pushed placed.calls ⟨node, fun caller given => ?_,
    fun consumer given => ?_⟩ }
  · obtain ⟨fact, found, rfl⟩ := Option.map_eq_some_iff.1 given
    obtain ⟨number, -, held⟩ := Option.bind_eq_some_iff.1 found
    exact (placed.functions number fact held).node
  · simp only [Option.ite_none_right_eq_some] at given
    exact (known.site consumer given.2).kept (extends_place _ _ _).graph

/-- The walk keeps the facts sound. -/
theorem Makes.sound (made : Makes file base outer adds facts) (sound : Sound file base) :
    Sound file facts := by
  induction made with
  | start => exact sound
  | place node parent _ draws _ _ ih => exact ih.place draws parent
  | @record facts context access _ _ known stands ih =>
    refine ih.withRegions Array.size_modify (each_modified (getElem?_record facts context access)
      ih.regions fun region found fit => ?_)
    refine fit.record (fun number given => ?_) ⟨stands.site, stands.node⟩
    rw [← statementsIn_of_found found]
    exact known.statement number given
  | pushScope parent _ _ ih =>
    refine ih.withScopes ?_ fun node declares => ih.declared node (Scopes.declares_push declares)
    rw [Scopes.bodies_of_frames_push (Scopes.frames_push _ _ _)]
    simp
  | @pushStatement facts context site kind _ _ known _ there ih =>
    rw [pushStatement_eq]
    refine ih.withRegions Array.size_modify (each_modified (fun _ => Array.getElem?_modify) ih.regions
      fun region found fit => ?_)
    have block := known.block
    rw [blocksIn_of_found found] at block
    exact fit.push kind block there
  | @pushArm facts context statement role _ _ known there _ ih =>
    rw [pushArm_eq]
    refine ih.withRegions Array.size_modify (each_modified (fun _ => Array.getElem?_modify) ih.regions
      fun region found fit => ?_)
    rw [statementsIn_of_found found] at there
    exact fit.addArm role there
  | recordReturn function site _ there ih =>
    cases function with
    | none => exact ih
    | some number =>
      refine ih.withFunctions (each_modified (fun _ => Array.getElem?_modify) ih.functions
        fun fact _ held => ⟨held.node, held.params, fun other inside => ?_⟩)
      simp only [Array.toList_push, List.mem_append, List.mem_singleton] at inside
      exact inside.elim (held.returns other) fun same => same ▸ there
  | declareVariable scope name node _ _ there ih =>
    refine ih.withScopes (Scopes.bodies_of_frames_eq (Scopes.frames_declareVariable _ _ _ _))
      fun declared declares => ?_
    rcases Scopes.declares_declareVariable declares with old | rfl
    · exact ih.declared declared old
    · exact there
  | declareIn context node _ _ _ _ ih => exact ih.withTables _ _ _
  | @addParam facts context node _ _ _ there ih =>
    exact ih.withRegions Array.size_modify (each_modified (fun _ => Array.getElem?_modify) ih.regions
      fun region _ fit => fit.addParam there)
  | noteParam number position node _ _ there ih =>
    refine ih.withFunctions (each_modified (fun _ => Array.getElem?_modify) ih.functions
      fun fact _ held => ⟨held.node, fun param inside => ?_, held.returns⟩)
    simp only [Array.toList_push, List.mem_append, List.mem_singleton] at inside
    exact inside.elim (held.params param) fun same => same ▸ there
  | enterFunction cursor context hint isMethod _ _ _ ih =>
    exact ih.enterFunction cursor context hint isMethod
  | pushClass name _ ih => exact ih.withTables _ _ _
  | noteMethod number node _ _ _ ih => exact ih.withTables _ _ _
  | enterCall cursor context _ known _ _ _ ih => exact ih.addCall cursor known

/-- Looking up the names keeps the facts sound. -/
theorem Sound.resolveNames (sound : Sound file facts) : Sound file facts.resolveNames := by
  refine sound.withRegions Array.size_map fun number region found => ?_
  rw [Array.getElem?_map] at found
  obtain ⟨before, stood, rfl⟩ := Option.map_eq_some_iff.1 found
  exact (sound.regions number before stood).resolve sound.declared

/-- The edges of a graph whose nodes are nodes of one file can be told apart. -/
theorem tellsEdges_of_draws {graph : Graph} (formed : graph.WellFormed)
    (draws : ∀ (handle : Nat) (node : Node), graph.nodes[handle]? = some node → file.Draws node) :
    graph.TellsEdges := by
  have plain : graph.PlainBehind (file.path.text ++ ":") := by
    intro handle node found
    obtain ⟨cursor, kind, name, ⟨id, -⟩, -⟩ := draws handle node found
    exact ⟨SourceFile.idBehind cursor kind, id.trans (file.id_nodeOf cursor kind name),
      SourceFile.plain_idBehind cursor kind⟩
  exact formed.tellsEdges_of_plainBehind plain

theorem Sound.tellsEdges (sound : Sound file facts) : facts.graph.TellsEdges :=
  tellsEdges_of_draws sound.formed sound.draws

/-- A node that was placed below a container is the container, or there is an edge to it. -/
theorem Sound.hasEdge_place (sound : Sound file facts) {node : Node} (draws : file.Draws node)
    {container : Nat} (there : container < facts.graph.nodes.size) :
    container = (facts.place node (some container)).2 ∨
      (facts.place node (some container)).1.graph.HasEdge .child container
        (facts.place node (some container)).2 none := by
  by_cases same : container = (facts.graph.addNode node).2
  · exact .inl same
  · -- The edge is added to the graph that has the node already.
    have added : Sound file (facts.place node none).1 := sound.place draws none
    have extend := extends_place facts node none
    have joins : ∀ connection ∈ [(⟨container, (facts.graph.addNode node).2, .child, none, {}⟩ :
        Connection)], (facts.place node none).1.graph.Joins connection := by
      intro connection only
      obtain rfl := List.mem_singleton.1 only
      exact ⟨Nat.lt_of_lt_of_le there extend.graph.size_le, (sound.kind_place draws none).lt⟩
    have edge := (added.formed.hasEdge_connectAll added.tellsEdges joins .child container
      (facts.graph.addNode node).2 none).2
        (.inr ⟨_, List.mem_cons_self, rfl, rfl, rfl, rfl⟩)
    unfold Facts.place
    simp only [if_neg same]
    exact .inr edge

/-- The function around the walk holds a node that is placed where the walk is. -/
theorem Sound.around_place (sound : Sound file facts) {context : Context}
    (known : context.Known facts) (kind : NodeKind) {node : Node} (draws : file.Draws node)
    (same : node.kind = kind) (part : kind ∈ NodeKind.parts) :
    context.Around (facts.place node context.parent).1 (facts.place node context.parent).2 := by
  intro number given
  subst same
  have extend := extends_place facts node context.parent
  have isPart : ∀ kind ∈ [node.kind], kind ∈ NodeKind.parts :=
    fun kind only => List.mem_singleton.1 only ▸ part
  have kind := (sound.kind_place draws context.parent).mono isPart
  obtain ⟨container, parent⟩ := Option.isSome_iff_exists.1 (known.inside (by rw [given]; rfl))
  obtain ⟨signature, found, holds⟩ := (known.around container parent).later extend number given
  refine ⟨signature, found, ?_⟩
  rw [parent] at holds kind ⊢
  rcases sound.hasEdge_place draws (known.parent container parent) with same | edge
  · exact same ▸ holds
  · exact .inner holds edge kind

/-- A variable or parameter has the name that is written where its node is. -/
theorem Sound.nameOf_eq (sound : Sound file facts) {handle : Nat} {held : Node} {cursor : Cursor}
    {kind : NodeKind} {name : Option String} (found : facts.graph.nodes[handle]? = some held)
    (same : held.id = (file.nodeOf cursor kind name).id) (binds : kind.isBinding = true) :
    facts.graph.nameOf handle = file.textOf cursor := by
  obtain ⟨other, kind', name', ⟨id, -, named, -⟩, given⟩ := sound.draws handle held found
  obtain ⟨rfl, start, stop⟩ := SourceFile.id_inj (id.symm.trans same)
  have text : file.textOf other = file.textOf cursor := by
    rw [SourceFile.textOf, SourceFile.textOf, start, stop]
  rw [Graph.nameOf, found, Option.bind_some, named, ← text]
  change name'.getD "" = _
  rw [given binds]
  rfl

end Facts

end CodeGraph

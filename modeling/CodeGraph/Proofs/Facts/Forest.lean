import CodeGraph.Proofs.Facts.ChartStep

/-!
# Containment during the walk

While the walk stays within a chart whose yields are told by their ids, each node of the graph stands for
one yield. It is right below the node that contains it there, which was placed before it, and below no
other (`Graph.Grown`). The statements of a region are at sites right inside its owner
(`Facts.Charts.planned`).
-/

namespace CodeGraph

namespace Graph

variable {graph : Graph}

/-- A node is there already, or it is added behind all others. -/
theorem addNode_cases (graph : Graph) (node : Node) :
    (graph.addNode node).1 = graph ∨ (graph.addNode node).2 = graph.nodes.size ∧
      (graph.addNode node).1.nodes = graph.nodes.push node := by
  unfold Graph.addNode
  cases graph.nodeIndex[node.id]? with
  | some handle => exact .inl rfl
  | none => exact .inr ⟨rfl, rfl⟩

/-- Adding a node adds no edge. -/
theorem WellFormed.hasEdge_addNode (formed : graph.WellFormed) (node : Node) (kind : EdgeKind)
    (source target : Nat) (tag : Option String) :
    (graph.addNode node).1.HasEdge kind source target tag ↔
      graph.HasEdge kind source target tag := by
  have kept := WellFormed.kept_addNode graph node
  refine ⟨?_, fun has => has.kept kept⟩
  rintro ⟨edge, inside, kinds, sources, targets, from_, to_, left, right, id⟩
  have same : (graph.addNode node).1.edges = graph.edges := by
    unfold edges Graph.addNode
    split <;> rfl
  rw [same] at inside
  obtain ⟨handle, arc, held, rfl⟩ := mem_edges.1 inside
  obtain ⟨start, goal, -, left', right', -⟩ := formed.named handle arc held
  obtain ⟨first, second⟩ := formed.ends handle arc held
  rw [← first, sources] at left'
  rw [← second, targets] at right'
  obtain ⟨start', left'', sameStart, -⟩ := kept.nodes source start left'
  obtain ⟨goal', right'', sameGoal, -⟩ := kept.nodes target goal right'
  obtain rfl := Option.some.inj (left.symm.trans left'')
  obtain rfl := Option.some.inj (right.symm.trans right'')
  exact ⟨arc.edge, inside, kinds, sources, targets, start, goal, left', right', by
    rw [id, sameStart, sameGoal]⟩

/-- The nodes of a graph are those of yields, each right below the node that contains it, which has come
before. Nothing else is below a node. -/
structure Grown (graph : Graph) (chart : List Yield) : Prop where
  nodes : ∀ (handle : Nat) (node : Node), graph.nodes[handle]? = some node →
    ∃ yield ∈ chart, yield.node.id = node.id ∧ yield.node.kind = node.kind ∧
      yield.home.Rooted chart ∧ ∀ id, yield.home.container = some id →
        ∃ source < handle, graph.IdAt source id ∧ graph.HasEdge .child source handle none
  edges : ∀ (source target : Nat) (tag : Option String), graph.HasEdge .child source target tag →
    tag = none ∧ ∃ yield ∈ chart, graph.IdAt target yield.node.id ∧
      ∃ id, yield.home.container = some id ∧ graph.IdAt source id

/-- A handle has one id. -/
theorem IdAt.unique {handle : Nat} {id other : String} (there : graph.IdAt handle id)
    (also : graph.IdAt handle other) : id = other := by
  obtain ⟨node, found, rfl⟩ := there
  obtain ⟨node', found', rfl⟩ := also
  exact congrArg Node.id (Option.some.inj (found.symm.trans found'))

/-- Of one id there is one handle. -/
theorem WellFormed.idAt_unique (formed : graph.WellFormed) {handle other : Nat} {id : String}
    (there : graph.IdAt handle id) (also : graph.IdAt other id) : handle = other := by
  obtain ⟨node, found, rfl⟩ := there
  obtain ⟨node', found', same⟩ := also
  exact formed.handle_unique found found' same.symm

/-- Of what may be named by an id there is one handle or none. -/
theorem WellFormed.rel_unique (formed : graph.WellFormed) {handle other : Option Nat}
    {id : Option String} (there : Option.Rel graph.IdAt handle id)
    (also : Option.Rel graph.IdAt other id) : handle = other := by
  cases there with
  | none =>
    cases also
    rfl
  | some here =>
    cases also with
    | some held => exact congrArg some (formed.idAt_unique here held)

/-- What may be a handle has one id or none. -/
theorem rel_idAt_unique {handle : Option Nat} {id other : Option String}
    (there : Option.Rel graph.IdAt handle id) (also : Option.Rel graph.IdAt handle other) :
    id = other := by
  cases there with
  | none =>
    cases also
    rfl
  | some here =>
    cases also with
    | some held => exact congrArg some (here.unique held)

theorem IdAt.lt {handle : Nat} {id : String} (there : graph.IdAt handle id) :
    handle < graph.nodes.size := by
  obtain ⟨node, found, -⟩ := there
  exact (Array.getElem?_eq_some_iff.1 found).1

theorem InFunction.kept {before after : Graph} {chart : List Yield} {handle : Nat}
    {function : Option String} (inside : before.InFunction chart handle function)
    (kept : before.Kept after) : after.InFunction chart handle function := by
  obtain ⟨yield, there, stands, around⟩ := inside
  exact ⟨yield, there, stands.kept kept, around⟩

end Graph

namespace Facts

variable {file : SourceFile} {chart : List Yield} {facts : Facts}

/-- A node is placed below its container, and nothing else is new below a node. -/
theorem hasEdge_place (formed : Formed file facts.graph) {node : Node} (draws : file.Draws node)
    {parent : Option Nat} (there : ∀ container, parent = some container →
      container < facts.graph.nodes.size) (kind : EdgeKind) (source target : Nat)
    (tag : Option String) :
    (facts.place node parent).1.graph.HasEdge kind source target tag ↔
      facts.graph.HasEdge kind source target tag ∨ kind = .child ∧ tag = none ∧
        parent = some source ∧ source ≠ target ∧ target = (facts.place node parent).2 := by
  have old := formed.wellFormed.hasEdge_addNode node kind source target tag
  have second : (facts.place node parent).2 = (facts.graph.addNode node).2 := rfl
  have added : Formed file (facts.place node none).1.graph := formed.place draws
  have same : (facts.place node none).1.graph = (facts.graph.addNode node).1 := rfl
  rw [second, ← old]
  unfold place
  cases parent with
  | none => simp
  | some container =>
    by_cases itself : container = (facts.graph.addNode node).2
    · simp only [if_pos itself]
      refine ⟨.inl, fun has => has.elim id ?_⟩
      rintro ⟨-, -, given, apart, rfl⟩
      exact absurd ((Option.some.inj given).symm.trans itself) apart
    · obtain ⟨held, found, -⟩ := formed.wellFormed.handle_addNode node
      have joins : ∀ connection ∈ [(⟨container, (facts.graph.addNode node).2, .child, none, {}⟩ :
          Connection)], (facts.graph.addNode node).1.Joins connection := by
        intro connection only
        obtain rfl := List.mem_singleton.1 only
        exact ⟨Nat.lt_of_lt_of_le (there container rfl)
          (Graph.WellFormed.kept_addNode _ _).size_le, (Array.getElem?_eq_some_iff.1 found).1⟩
      rw [same] at added
      have edges := added.wellFormed.hasEdge_connectAll
        (tellsEdges_of_draws added.wellFormed added.draws) joins kind source target tag
      simp only [List.mem_singleton, exists_eq_left] at edges
      simp only [if_neg itself]
      refine edges.trans (or_congr Iff.rfl ⟨?_, ?_⟩)
      · rintro ⟨rfl, rfl, rfl, rfl⟩
        exact ⟨rfl, rfl, rfl, itself, rfl⟩
      · rintro ⟨rfl, rfl, given, -, rfl⟩
        exact ⟨rfl, Option.some.inj given, rfl, rfl⟩

/-- A node that is new is placed behind all others. -/
theorem last_of_place {node held : Node} {parent : Option Nat} {handle : Nat}
    (found : (facts.place node parent).1.graph.nodes[handle]? = some held) :
    facts.graph.nodes[handle]? = some held ∨ held = node ∧
      handle = (facts.place node parent).2 ∧ handle = facts.graph.nodes.size := by
  have second : (facts.place node parent).2 = (facts.graph.addNode node).2 := rfl
  rw [nodes_place] at found
  rcases facts.graph.addNode_cases node with same | ⟨last, pushed⟩
  · exact .inl (same ▸ found)
  · rw [pushed, Array.getElem?_push] at found
    split at found
    · next here => exact .inr ⟨(Option.some.inj found).symm, here.trans (second.trans last).symm, here⟩
    · exact .inl found

/-- A node that is new is the node of a yield, in the home that the walk is at: what is placed below itself
is there already. -/
theorem new_of_place (formed : Formed file facts.graph) {node held : Node} {parent : Option Nat}
    {home : Home} (below : Option.Rel facts.graph.IdAt parent home.container)
    (has : home.Has chart node) {handle : Nat}
    (found : (facts.place node parent).1.graph.nodes[handle]? = some held) :
    facts.graph.nodes[handle]? = some held ∨ held = node ∧ handle = (facts.place node parent).2 ∧
      handle = facts.graph.nodes.size ∧ ∃ yield ∈ chart, yield.node = node ∧ yield.home = home := by
  rcases last_of_place found with old | ⟨rfl, here, last⟩
  · exact .inl old
  · rcases has with charted | itself
    · exact .inr ⟨rfl, here, last, charted⟩
    · generalize home.container = around at below itself
      subst itself
      cases below with
      | @some source _ there =>
        have whole := wellFormed_place formed.wellFormed held (some source)
        have spot : (facts.place held (some source)).1.graph.IdAt handle held.id := ⟨held, found, rfl⟩
        have same := whole.idAt_unique
          (there.kept (extends_place facts held (some source)).graph) spot
        exact absurd (same ▸ there.lt) (last ▸ Nat.lt_irrefl _)

/-- Placing a node where a chart has it keeps the graph grown. -/
theorem Formed.grown_place (formed : Formed file facts.graph) (grown : facts.graph.Grown chart)
    {node : Node} (draws : file.Draws node) {parent : Option Nat} {home : Home}
    (below : Option.Rel facts.graph.IdAt parent home.container) (rooted : home.Rooted chart)
    (has : home.Has chart node) : (facts.place node parent).1.graph.Grown chart := by
  have kept := (extends_place facts node parent).graph
  have container : ∀ container, parent = some container →
      ∃ id, home.container = some id ∧ facts.graph.IdAt container id :=
    fun _ => rel_some_left below
  have edges := hasEdge_place formed draws fun source given =>
    (container source given).elim fun _ there => there.2.lt
  have whole := wellFormed_place formed.wellFormed node parent
  have spot : (facts.place node parent).1.graph.IdAt (facts.place node parent).2 node.id :=
    handle_place formed.wellFormed node parent
  refine ⟨fun handle held found => ?_, fun source target tag edge => ?_⟩
  · rcases new_of_place formed below has found with
      old | ⟨rfl, here, last, yield, inside, rfl, rfl⟩
    · obtain ⟨yield, inside, same, kind, root, above⟩ := grown.nodes handle held old
      refine ⟨yield, inside, same, kind, root, fun id given => ?_⟩
      obtain ⟨source, less, stands, edge⟩ := above id given
      exact ⟨source, less, stands.kept kept, edge.kept kept⟩
    · refine ⟨yield, inside, rfl, rfl, rooted, fun id given => ?_⟩
      rw [given] at below
      cases below with
      | @some source _ there =>
        have less : source < handle := last ▸ there.lt
        exact ⟨source, less, there.kept kept, (edges .child source handle none).2
          (.inr ⟨rfl, rfl, rfl, Nat.ne_of_lt less, here⟩)⟩
  · rcases (edges .child source target tag).1 edge with old | ⟨-, rfl, given, apart, rfl⟩
    · obtain ⟨plain, yield, there, stands, id, around, above⟩ := grown.edges source target tag old
      exact ⟨plain, yield, there, stands.kept kept, id, around, above.kept kept⟩
    · obtain ⟨id, around, there⟩ := container source given
      rcases has with ⟨yield, inside, rfl, rfl⟩ | itself
      · exact ⟨rfl, yield, inside, spot, id, around, there.kept kept⟩
      · obtain rfl := Option.some.inj (around.symm.trans itself)
        exact absurd (whole.idAt_unique (there.kept kept) spot) apart

theorem Charts.grown (charts : Charts file chart facts) : facts.graph.Grown chart := by
  induction charts with
  | start =>
    refine ⟨fun _ _ none => (nomatch none), fun _ _ _ has => ?_⟩
    obtain ⟨edge, inside, -⟩ := has
    cases inside
  | @quiet before after _ same ih =>
    have graph : after.graph = before.graph := congrArg View.graph same
    rw [graph]
    exact ih
  | place node parent home charts draws _ below rooted has ih =>
    exact charts.formed.grown_place ih draws below rooted has
  | param cursor context home number position rest optional hasDefault charts stands _ _ inside ih =>
    exact charts.formed.grown_place ih (draws_paramNode cursor position rest optional hasDefault)
      stands.parent stands.rooted (Home.has_of_mem inside)
  | push context home site kind _ _ _ _ ih =>
    rw [graph_pushStatement]
    exact ih
  | returns context home site _ _ _ ih =>
    rw [graph_recordReturn, graph_pushStatement]
    exact ih
  | enter node name isMethod _ _ ih => exact ih
  | call context home call _ _ _ _ ih => exact ih

/-! ## Regions -/

/-- The owner of a region is a function, and its statements are at sites right inside that one; the region
of the module has no owner, and its statements are at sites outside of all functions. -/
def Planned (chart : List Yield) (graph : Graph) (plan : Option Nat × List (Nat × StatementKind)) :
    Prop :=
  ∃ function, Option.Rel graph.IdAt plan.1 function ∧
    ∀ entry ∈ plan.2, graph.InFunction chart entry.1 function

theorem Planned.kept {before after : Graph} {plan : Option Nat × List (Nat × StatementKind)}
    (planned : Planned chart before plan) (kept : before.Kept after) : Planned chart after plan := by
  obtain ⟨function, owner, sites⟩ := planned
  exact ⟨function, rel_imp (fun _ _ there => there.kept kept) owner,
    fun entry inside => (sites entry inside).kept kept⟩

/-- The owners of the regions: none for the module, and then the functions in the order of their facts. -/
def owners (facts : Facts) : List (Option Nat) :=
  none :: facts.signatures.map fun signature => some signature.node

end Facts

/-- The region of a context belongs to the function around. -/
theorem Context.At.owner {chart : List Yield} {facts : Facts} {context : Context} {home : Home}
    (stands : context.At chart facts home) :
    ∃ owner, facts.owners[context.region]? = some owner ∧
      Option.Rel facts.graph.IdAt owner home.function := by
  rw [stands.region]
  have around := stands.function
  generalize context.function = number at around
  generalize home.function = function at around
  cases around with
  | none => exact ⟨none, rfl, .none⟩
  | some about =>
    obtain ⟨signature, found, there⟩ := about
    refine ⟨some signature.node, ?_, .some there⟩
    simp only [Option.map_some, Option.getD_some, Facts.owners, List.getElem?_cons_succ,
      List.getElem?_map, found]

namespace Facts

variable {file : SourceFile} {chart : List Yield} {facts : Facts}

/-- The regions belong to the module and to the functions in the order of their facts, and their
statements are where they belong. -/
structure Settled (chart : List Yield) (facts : Facts) : Prop where
  owners : facts.view.plans.map Prod.fst = facts.owners
  planned : ∀ plan ∈ facts.view.plans, Planned chart facts.graph plan

/-- What changes neither plans nor signatures keeps regions settled. -/
theorem Settled.keep (settled : Settled chart facts) {after : Facts}
    (plans : after.view.plans = facts.view.plans) (signatures : after.signatures = facts.signatures)
    (kept : facts.graph.Kept after.graph) : Settled chart after := by
  refine ⟨?_, fun plan inside => (settled.planned plan (plans ▸ inside)).kept kept⟩
  rw [plans, settled.owners, Facts.owners, Facts.owners, signatures]

theorem plans_pushStatement (facts : Facts) (context : Context) (site : Nat) (kind : StatementKind) :
    (facts.pushStatement context site kind).1.view.plans =
      facts.view.plans.modify context.region fun plan => (plan.1, plan.2 ++ [(site, kind)]) := by
  refine List.ext_getElem? fun number => ?_
  simp only [view, List.getElem?_map, List.getElem?_modify, Array.getElem?_toList,
    getElem?_pushStatement]
  split
  · cases facts.regions[number]? with
    | none => rfl
    | some region => simp [Region.plan, Region.push, Skeleton.statements_push]
  · cases facts.regions[number]? <;> rfl

/-- A statement is pushed at a site of the function around. -/
theorem Settled.push (settled : Settled chart facts) {context : Context} {home : Home}
    (stands : context.At chart facts home) {site : Nat} (kind : StatementKind)
    (inside : facts.graph.InFunction chart site home.function) :
    Settled chart (facts.pushStatement context site kind).1 := by
  have signatures : (facts.pushStatement context site kind).1.signatures = facts.signatures := by
    rw [Facts.signatures, functions_pushStatement, Facts.signatures]
  refine ⟨?_, fun plan pushed => ?_⟩
  · rw [plans_pushStatement, Facts.owners, signatures, ← Facts.owners, ← settled.owners]
    refine List.ext_getElem? fun number => ?_
    simp only [List.getElem?_map, List.getElem?_modify]
    split <;> cases facts.view.plans[number]? <;> rfl
  · rw [plans_pushStatement] at pushed
    rw [graph_pushStatement]
    obtain ⟨number, found⟩ := List.getElem?_of_mem pushed
    rw [List.getElem?_modify] at found
    split at found
    · next here =>
      obtain ⟨old, held, rfl⟩ := Option.map_eq_some_iff.1 found
      obtain ⟨function, owner, sites⟩ := settled.planned old (List.mem_of_getElem? held)
      -- The owner of the region of a context is the function of the context.
      have same : function = home.function := by
        obtain ⟨around, listed, there⟩ := stands.owner
        rw [here, ← settled.owners, List.getElem?_map, held] at listed
        obtain rfl := Option.some.inj listed
        exact Graph.rel_idAt_unique owner there
      refine ⟨function, owner, List.forall_mem_append.2 ⟨sites, fun entry only => ?_⟩⟩
      obtain rfl := List.mem_singleton.1 only
      exact same ▸ inside
    · obtain ⟨_, held, rfl⟩ := Option.map_eq_some_iff.1 found
      exact settled.planned _ (List.mem_of_getElem? held)

theorem Charts.settled (charts : Charts file chart facts) : Settled chart facts := by
  induction charts with
  | start =>
    refine ⟨rfl, fun plan inside => ?_⟩
    obtain rfl := List.mem_singleton.1 inside
    refine ⟨none, .none, fun entry inside => ?_⟩
    cases inside
  | @quiet before after _ same ih =>
    have functions : after.functions = before.functions := congrArg View.functions same
    have graph : after.graph = before.graph := congrArg View.graph same
    exact ih.keep (congrArg View.plans same) (by rw [signatures, functions, signatures])
      (graph ▸ .refl _)
  | @place facts node parent home _ _ _ _ _ _ ih =>
    exact ih.keep rfl rfl (extends_place facts node parent).graph
  | @param facts cursor context home number position rest optional hasDefault _ _ _ _ _ ih =>
    exact ih.keep rfl (signatures_modify _ number fun _ => rfl)
      (extends_place facts _ context.parent).graph
  | push context home site kind _ stands inside _ ih => exact ih.push stands kind inside
  | @returns facts context home site _ stands inside ih =>
    obtain ⟨yield, there, spot, around, -⟩ := inside
    have pushed := ih.push stands .returns ⟨yield, there, spot, around⟩
    refine pushed.keep ?_ (signatures_recordReturn _ _ _) (graph_recordReturn _ _ _ ▸ .refl _)
    cases context.function <;> rfl
  | @enter facts node name isMethod _ function ih =>
    obtain ⟨yield, inside, spot, -⟩ := function
    have plans : (facts.pushFunction node name isMethod).1.view.plans =
        facts.view.plans ++ [(some node, [])] := by
      simp [view, pushFunction, Region.plan, Skeleton.empty]
    refine ⟨?_, fun plan pushed => ?_⟩
    · rw [plans, List.map_append, ih.owners, Facts.owners, Facts.owners, signatures_pushFunction,
        List.map_append]
      rfl
    · rw [plans, List.mem_append, List.mem_singleton] at pushed
      rcases pushed with old | rfl
      · exact ih.planned plan old
      · refine ⟨some yield.node.id, .some spot, fun entry inside => ?_⟩
        cases inside
  | call context home call _ _ _ _ ih => exact ih.keep rfl rfl (.refl _)

end Facts

end CodeGraph

import CodeGraph.Graph.Query
import CodeGraph.Graph.Search
import CodeGraph.Graph.Tally
import CodeGraph.Proofs.Graph.Join

/-!
# Graphs that cannot be told apart

Graphs that agree, down to the spelling of their files, may still hold their indexes in different ways. No
operation and no query tells (`Graph.Mirrors.sameAnswers`), and operations keep them so
(`Graph.Mirrors.applyAll`).
-/

namespace CodeGraph

namespace Graph

/-- Two graphs agree, and spell their files in the same way. -/
structure Mirrors (graph other : Graph) : Prop extends Agrees graph other where
  spelled : graph.files = other.files

/-! ## Searches that do not look at the indexes -/

section Indexes

variable (graph : Graph) (nodeIndex edgeIndex : Std.HashMap String Nat)

theorem climb_with : climb { graph with nodeIndex, edgeIndex } = graph.climb := by
  funext parents steps start
  induction steps generalizing start with
  | zero => rfl
  | succ steps ih =>
    cases start with
    | none => rfl
    | some handle =>
      rw [climb, climb, ih]
      rfl

theorem functionAround_with :
    functionAround { graph with nodeIndex, edgeIndex } = graph.functionAround := by
  funext parents handle
  rw [functionAround, functionAround, climb_with]

theorem trails_with : trails { graph with nodeIndex, edgeIndex } = graph.trails := by
  funext query maxDepth limit remaining next found
  induction remaining generalizing next found with
  | zero => rfl
  | succ remaining ih =>
    rw [trails, trails]
    cases found[next]? with
    | none => rfl
    | some trail => exact ih _ _

theorem callersAround_with :
    callersAround { graph with nodeIndex, edgeIndex } = graph.callersAround := by
  funext rounds frontier seen
  induction rounds generalizing frontier seen with
  | zero => rfl
  | succ rounds ih =>
    rw [callersAround, callersAround]
    simp only [ih]
    rfl

end Indexes

namespace Mirrors

variable {graph other : Graph}

theorem refl (graph : Graph) : graph.Mirrors graph :=
  ⟨⟨rfl, rfl, fun _ => rfl, fun _ => rfl, rfl, rfl, rfl⟩, rfl⟩

/-- Graphs that mirror each other differ in their indexes at most. -/
theorem eq_with (mirrors : graph.Mirrors other) :
    other = { graph with nodeIndex := other.nodeIndex, edgeIndex := other.edgeIndex } := by
  obtain ⟨nodes, arcs, nodeIndex, edgeIndex, files, language, created⟩ := other
  obtain ⟨⟨rfl, rfl, -, -, rfl, rfl, -⟩, rfl⟩ := mirrors
  rfl

/-! ## Operations -/

theorem addNode (mirrors : graph.Mirrors other) (node : Node) :
    (graph.addNode node).1.Mirrors (other.addNode node).1 ∧
      (graph.addNode node).2 = (other.addNode node).2 := by
  have known : graph.nodeIndex[node.id]? = other.nodeIndex[node.id]? := mirrors.nodeById node.id
  unfold Graph.addNode
  rw [← known]
  cases graph.nodeIndex[node.id]? with
  | some handle => exact ⟨mirrors, rfl⟩
  | none =>
    refine ⟨⟨⟨?_, mirrors.arcs, fun id => ?_, mirrors.edgeById, mirrors.language, mirrors.created, ?_⟩, ?_⟩, ?_⟩
    · simp only [mirrors.nodes]
    · have same : graph.nodeIndex[id]? = other.nodeIndex[id]? := mirrors.nodeById id
      simp only [nodeById?, Std.HashMap.getElem?_insert, mirrors.nodes, same]
    · simp only [mirrors.spelled]
    · simp only [mirrors.spelled]
    · simp only [mirrors.nodes]

theorem addArc (mirrors : graph.Mirrors other) (edge : Edge) :
    (graph.addArc edge).1.Mirrors (other.addArc edge).1 ∧
      (graph.addArc edge).2 = (other.addArc edge).2 := by
  unfold Graph.addArc
  rw [← mirrors.edgeById edge.id]
  cases graph.edgeIndex[edge.id]? with
  | some handle => exact ⟨mirrors, rfl⟩
  | none =>
    refine ⟨⟨⟨mirrors.nodes, ?_, mirrors.nodeById, fun id => ?_, mirrors.language, mirrors.created, mirrors.files⟩,
      mirrors.spelled⟩, ?_⟩
    · simp only [mirrors.arcs]
    · simp only [Std.HashMap.getElem?_insert, mirrors.arcs, mirrors.edgeById]
    · simp only [mirrors.arcs]

theorem addEdge (mirrors : graph.Mirrors other) (source target : Nat) (kind : EdgeKind)
    (tag : Option String) (properties : Properties) :
    (graph.withEdge source target kind tag properties).Mirrors
        (other.withEdge source target kind tag properties) ∧
      (graph.addEdge source target kind tag properties).map Prod.snd =
        (other.addEdge source target kind tag properties).map Prod.snd := by
  unfold Graph.withEdge Graph.addEdge
  rw [← mirrors.nodes]
  cases graph.nodes[source]? with
  | none => exact ⟨mirrors, rfl⟩
  | some from_ =>
    cases graph.nodes[target]? with
    | none => exact ⟨mirrors, rfl⟩
    | some to_ =>
      obtain ⟨grown, handle⟩ := mirrors.addArc
        { id := edgeId kind from_.id to_.id tag, kind, source, target, properties }
      exact ⟨grown, congrArg Except.ok handle⟩

theorem addFile (mirrors : graph.Mirrors other) (file : Path) :
    (graph.addFile file).Mirrors (other.addFile file) := by
  have files : (graph.addFile file).files = (other.addFile file).files := by
    simp only [Graph.addFile, mirrors.spelled]
  exact ⟨⟨mirrors.nodes, mirrors.arcs, mirrors.nodeById, mirrors.edgeById, mirrors.language, mirrors.created,
    congrArg _ files⟩, files⟩

theorem setProperty (mirrors : graph.Mirrors other) (handle : Nat) (key : String) (value : PropertyValue) :
    (graph.setProperty handle key value).Mirrors (other.setProperty handle key value) :=
  ⟨⟨congrArg (·.modify handle fun node => node.set key value) mirrors.nodes, mirrors.arcs, mirrors.nodeById,
    mirrors.edgeById, mirrors.language, mirrors.created, mirrors.files⟩, mirrors.spelled⟩

/-- Steps that keep graphs mirrors of each other do so one after the other. -/
theorem foldl {α : Type} {step : Graph → α → Graph}
    (keeps : ∀ {graph other : Graph} (item : α), graph.Mirrors other →
      (step graph item).Mirrors (step other item))
    (mirrors : graph.Mirrors other) (items : List α) :
    (items.foldl step graph).Mirrors (items.foldl step other) := by
  induction items generalizing graph other with
  | nil => exact mirrors
  | cons item items ih => exact ih (keeps item mirrors)

theorem connectAll (mirrors : graph.Mirrors other) (connections : List Connection) :
    (graph.connectAll connections).Mirrors (other.connectAll connections) :=
  mirrors.foldl (fun connection mirrors => (mirrors.addEdge connection.source connection.target
    connection.kind connection.tag connection.properties).1) connections

theorem addRenamed (mirrors : graph.Mirrors other) (names : Array Nat) (arc : Arc) :
    (graph.addRenamed names arc).Mirrors (other.addRenamed names arc) := by
  unfold Graph.addRenamed
  split
  · exact (mirrors.addArc _).1
  · exact mirrors

/-- Nodes that are added one after the other have the same handles. -/
theorem addNodes (mirrors : graph.Mirrors other) (nodes : List Node) (names : Array Nat) :
    let add (entry : Graph × Array Nat) (node : Node) :=
      ((entry.1.addNode node).1, entry.2.push (entry.1.addNode node).2)
    (nodes.foldl add (graph, names)).1.Mirrors (nodes.foldl add (other, names)).1 ∧
      (nodes.foldl add (graph, names)).2 = (nodes.foldl add (other, names)).2 := by
  induction nodes generalizing graph other names with
  | nil => exact ⟨mirrors, rfl⟩
  | cons node rest ih =>
    obtain ⟨grown, handle⟩ := mirrors.addNode node
    simp only [List.foldl_cons, handle]
    exact ih grown _

/-- The graph that is taken in may be exchanged for a mirror of it, too. -/
theorem absorb {third fourth : Graph} (mirrors : graph.Mirrors other) (taken : third.Mirrors fourth) :
    (graph.absorb third).1.Mirrors (other.absorb fourth).1 ∧
      (graph.absorb third).2 = (other.absorb fourth).2 := by
  obtain ⟨added, names⟩ := mirrors.addNodes third.nodes.toList #[]
  unfold Graph.absorb addAll
  simp only [← taken.nodes, ← taken.arcs, ← taken.spelled, ← Array.foldl_toList] at names ⊢
  rw [← names]
  have joined (names : Array Nat) := foldl (fun arc mirrors => mirrors.addRenamed names arc) added
    third.arcs.toList
  exact ⟨foldl (fun file mirrors => mirrors.addFile file) (joined _) _, rfl⟩

theorem linkedCalls_eq (mirrors : graph.Mirrors other) : other.linkedCalls = graph.linkedCalls := by
  rw [mirrors.eq_with]
  have tables : linkTables { graph with nodeIndex := other.nodeIndex, edgeIndex := other.edgeIndex } =
      linkTables graph := by
    have add : LinkTables.add
        { graph with nodeIndex := other.nodeIndex, edgeIndex := other.edgeIndex } =
          LinkTables.add graph := by
      funext parents tables entry
      unfold LinkTables.add
      rw [functionAround_with]
      rfl
    unfold linkTables
    rw [add]
  unfold linkedCalls callSite
  rw [tables, functionAround_with]
  rfl

theorem linkAcrossFiles (mirrors : graph.Mirrors other) :
    graph.linkAcrossFiles.1.Mirrors other.linkAcrossFiles.1 ∧
      graph.linkAcrossFiles.2 = other.linkAcrossFiles.2 := by
  unfold Graph.linkAcrossFiles
  simp only [mirrors.linkedCalls_eq]
  exact ⟨foldl (fun call mirrors => (mirrors.connectAll call.edges).setProperty call.node _ _) mirrors _,
    trivial⟩

/-- An operation keeps graphs mirrors of each other. -/
theorem apply (mirrors : graph.Mirrors other) (operation : Operation) :
    (operation.apply graph).Mirrors (operation.apply other) := by
  cases operation with
  | addNode node => exact (mirrors.addNode node).1
  | addEdge source target kind tag properties => exact (mirrors.addEdge _ _ _ _ _).1
  | addFile file => exact mirrors.addFile file
  | setProperty handle key value => exact mirrors.setProperty handle key value
  | setLanguage language =>
    exact ⟨⟨mirrors.nodes, mirrors.arcs, mirrors.nodeById, mirrors.edgeById, rfl, mirrors.created, mirrors.files⟩,
      mirrors.spelled⟩
  | setCreated instant =>
    exact ⟨⟨mirrors.nodes, mirrors.arcs, mirrors.nodeById, mirrors.edgeById, mirrors.language, rfl, mirrors.files⟩,
      mirrors.spelled⟩
  | absorb third => exact (mirrors.absorb (refl third)).1
  | linkAcrossFiles => exact mirrors.linkAcrossFiles.1

theorem applyAll (mirrors : graph.Mirrors other) (operations : List Operation) :
    (operations.foldl Operation.apply graph).Mirrors (operations.foldl Operation.apply other) :=
  mirrors.foldl (fun operation mirrors => mirrors.apply operation) operations

end Mirrors

/-! ## Answers -/

/-- Every query, and every operation, has the same answer on two graphs. -/
structure SameAnswers (graph other : Graph) : Prop where
  node? : ∀ handle, graph.node? handle = other.node? handle
  nodeById? : ∀ id, graph.nodeById? id = other.nodeById? id
  edgeById? : ∀ id, graph.edgeById? id = other.edgeById? id
  edges : graph.edges = other.edges
  edgesFrom : ∀ handle, graph.edgesFrom handle = other.edgesFrom handle
  edgesTo : ∀ handle, graph.edgesTo handle = other.edgesTo handle
  children : ∀ handle, graph.children handle = other.children handle
  parent? : ∀ handle, graph.parent? handle = other.parent? handle
  enclosingFunction? : ∀ handle, graph.enclosingFunction? handle = other.enclosingFunction? handle
  nodesOfKind : ∀ kind, graph.nodesOfKind kind = other.nodesOfKind kind
  isEmpty : graph.isEmpty = other.isEmpty
  tally : graph.tally = other.tally
  run : ∀ query limit, graph.run query limit = other.run query limit
  findCallers : ∀ name, graph.findCallers name = other.findCallers name
  transitiveCallers : ∀ name maxDepth,
    graph.transitiveCallers name maxDepth = other.transitiveCallers name maxDepth
  findDataFlow : ∀ name, graph.findDataFlow name = other.findDataFlow name
  files : graph.files = other.files
  language : graph.language = other.language
  created : graph.created = other.created
  addNode : ∀ node, (graph.addNode node).2 = (other.addNode node).2
  addEdge : ∀ source target kind tag properties,
    (graph.addEdge source target kind tag properties).map Prod.snd =
      (other.addEdge source target kind tag properties).map Prod.snd
  absorb : ∀ third, (graph.absorb third).2 = (other.absorb third).2
  /-- It does not matter which of them another graph takes in. -/
  absorbed : ∀ third : Graph, third.absorb graph = third.absorb other
  linkAcrossFiles : graph.linkAcrossFiles.2 = other.linkAcrossFiles.2

/-- Graphs that mirror each other give the same answers. -/
theorem Mirrors.sameAnswers {graph other : Graph} (mirrors : graph.Mirrors other) :
    graph.SameAnswers other where
  node? := by rw [mirrors.eq_with]; intro; rfl
  nodeById? := mirrors.nodeById
  edgeById? id := by rw [Graph.edgeById?, Graph.edgeById?, mirrors.edgeById id, mirrors.arcs]
  edges := by rw [mirrors.eq_with]; rfl
  edgesFrom := by rw [mirrors.eq_with]; intro; rfl
  edgesTo := by rw [mirrors.eq_with]; intro; rfl
  children := by rw [mirrors.eq_with]; intro; rfl
  parent? := by rw [mirrors.eq_with]; intro; rfl
  enclosingFunction? handle := by
    rw [mirrors.eq_with, enclosingFunction?, enclosingFunction?,
      functionAround_with graph other.nodeIndex other.edgeIndex]
    rfl
  nodesOfKind := by rw [mirrors.eq_with]; intro; rfl
  isEmpty := by rw [mirrors.eq_with]; rfl
  tally := by rw [mirrors.eq_with]; rfl
  run query limit := by
    rw [mirrors.eq_with]
    simp only [run, paths, trails_with]
    rfl
  findCallers := by rw [mirrors.eq_with]; intro; rfl
  transitiveCallers name maxDepth := by
    rw [mirrors.eq_with, transitiveCallers, transitiveCallers,
      callersAround_with graph other.nodeIndex other.edgeIndex]
    rfl
  findDataFlow := by rw [mirrors.eq_with]; intro; rfl
  files := mirrors.spelled
  language := mirrors.language
  created := mirrors.created
  addNode node := (mirrors.addNode node).2
  addEdge source target kind tag properties := (mirrors.addEdge source target kind tag properties).2
  absorb third := (mirrors.absorb (.refl third)).2
  absorbed := by rw [mirrors.eq_with]; intro; rfl
  linkAcrossFiles := mirrors.linkAcrossFiles.2

end Graph

end CodeGraph

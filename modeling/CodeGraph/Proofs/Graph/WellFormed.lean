import CodeGraph.Calls.Link
import CodeGraph.Graph.Union
import CodeGraph.Proofs.Path

/-!
# Well-formed graphs

`Graph.WellFormed` says that the two indexes, the ends that edges record, the ids of edges and the
list of files agree with the nodes and arcs. `Graph.Kept` says that nothing is lost or changed on
the way from one graph to another, except for properties of nodes. Every operation keeps both: a
node or an edge is either found by its id or added behind the others, and a union renames the ends
of an edge to nodes of the same ids, so the id of the edge still fits.
-/

namespace CodeGraph

namespace Graph

/-- An edge is named by its kind, the ids of the two nodes between which it is held, and some tag. -/
def Named (graph : Graph) (arc : Arc) : Prop :=
  ∃ source target tag, graph.nodes[arc.source]? = some source ∧
    graph.nodes[arc.target]? = some target ∧
    arc.edge.id = edgeId arc.edge.kind source.id target.id tag

/-- The parts of a graph agree. -/
structure WellFormed (graph : Graph) : Prop where
  /-- The index of nodes leads from the id of each node to its handle, and from nothing else. -/
  nodes_indexed : ∀ (id : String) (handle : Nat), graph.nodeIndex[id]? = some handle ↔
    ∃ node, graph.nodes[handle]? = some node ∧ node.id = id
  /-- The index of edges leads from the id of each edge to its handle, and from nothing else. -/
  edges_indexed : ∀ (id : String) (handle : Nat), graph.edgeIndex[id]? = some handle ↔
    ∃ arc, graph.arcs[handle]? = some arc ∧ arc.edge.id = id
  /-- An edge records the ends between which it is held. -/
  ends : ∀ (handle : Nat) (arc : Arc), graph.arcs[handle]? = some arc →
    arc.edge.source = arc.source ∧ arc.edge.target = arc.target
  /-- The ends of an edge are nodes of the graph, and its id is made of theirs. -/
  named : ∀ (handle : Nat) (arc : Arc), graph.arcs[handle]? = some arc → graph.Named arc
  files_sorted : Path.Sorted graph.files
  /-- The file of every node is listed, in some spelling. -/
  files_cover : ∀ (handle : Nat) (node : Node), graph.nodes[handle]? = some node →
    ∃ file ∈ graph.files, file.same node.location.file = true

/-- Two nodes differ at most in their properties. -/
def SameNode (a b : Node) : Prop :=
  a.id = b.id ∧ a.kind = b.kind ∧ a.name = b.name ∧ a.location = b.location

/-- The nodes of a graph keep their handles, ids, kinds, names and places in another graph, and its
edges stay as they are. -/
structure Kept (before after : Graph) : Prop where
  nodes : ∀ (handle : Nat) (node : Node), before.nodes[handle]? = some node →
    ∃ kept, after.nodes[handle]? = some kept ∧ SameNode kept node
  arcs : ∀ (handle : Nat) (arc : Arc), before.arcs[handle]? = some arc →
    after.arcs[handle]? = some arc

namespace Kept

theorem refl (graph : Graph) : graph.Kept graph :=
  ⟨fun _ node found => ⟨node, found, rfl, rfl, rfl, rfl⟩, fun _ _ found => found⟩

theorem trans {first second third : Graph} (one : first.Kept second) (two : second.Kept third) :
    first.Kept third := by
  refine ⟨fun handle node found => ?_, fun handle arc found => ?_⟩
  · obtain ⟨middle, held, id, kind, name, place⟩ := one.nodes handle node found
    obtain ⟨last, there, id', kind', name', place'⟩ := two.nodes handle middle held
    exact ⟨last, there, id'.trans id, kind'.trans kind, name'.trans name, place'.trans place⟩
  · exact two.arcs handle arc (one.arcs handle arc found)

theorem named {before after : Graph} (kept : before.Kept after) {arc : Arc}
    (named : before.Named arc) : after.Named arc := by
  obtain ⟨source, target, tag, left, right, id⟩ := named
  obtain ⟨source', left', same, -⟩ := kept.nodes _ _ left
  obtain ⟨target', right', same', -⟩ := kept.nodes _ _ right
  exact ⟨source', target', tag, left', right', by rw [same, same']; exact id⟩

end Kept

/-! ## Adding to arrays with an index -/

/-- An index leads from the key of each item of an array to its place, and from nothing else. -/
def Indexes {α : Type} (key : α → String) (items : Array α) (index : Std.HashMap String Nat) :
    Prop :=
  ∀ (id : String) (handle : Nat), index[id]? = some handle ↔
    ∃ item, items[handle]? = some item ∧ key item = id

theorem getElem?_push_old {α : Type} {items : Array α} {handle : Nat} {held : α} (item : α)
    (found : items[handle]? = some held) : (items.push item)[handle]? = some held := by
  have inside := (Array.getElem?_eq_some_iff.1 found).1
  rw [Array.getElem?_push, if_neg (Nat.ne_of_lt inside)]
  exact found

theorem Indexes.push {α : Type} {key : α → String} {items : Array α}
    {index : Std.HashMap String Nat} (indexes : Indexes key items index) (item : α)
    (new : index[key item]? = none) :
    Indexes key (items.push item) (index.insert (key item) items.size) := by
  intro id handle
  rw [Std.HashMap.getElem?_insert, Array.getElem?_push]
  by_cases same : key item = id
  · rw [if_pos (by simpa using same), Option.some.injEq]
    constructor
    · rintro rfl
      exact ⟨item, by simp, same⟩
    · rintro ⟨other, found, named⟩
      split at found
      · next last => exact last.symm
      · next old =>
        have held := (indexes id handle).2 ⟨other, found, named⟩
        rw [← same, new] at held
        cases held
  · rw [if_neg (by simpa using same), indexes id handle]
    refine exists_congr fun other => ?_
    split
    · next last =>
      subst last
      constructor
      · rintro ⟨found, -⟩
        simp at found
      · rintro ⟨found, named⟩
        obtain rfl := Option.some.inj found
        exact absurd named same
    · rfl

theorem nodes_withEdge (graph : Graph) (source target : Nat) (kind : EdgeKind)
    (tag : Option String) (properties : Properties) :
    (graph.withEdge source target kind tag properties).nodes = graph.nodes := by
  unfold withEdge addEdge
  cases graph.nodes[source]? with
  | none => rfl
  | some from_ =>
    cases graph.nodes[target]? with
    | none => rfl
    | some to_ =>
      simp only [addArc]
      split <;> rfl

namespace WellFormed

variable {graph : Graph} (formed : graph.WellFormed)
include formed

/-! ## What the operations keep -/

theorem file_known (handle : Nat) (node : Node) (found : graph.nodes[handle]? = some node)
    (file : Path) : ∃ known ∈ file.insert graph.files, known.same node.location.file = true := by
  obtain ⟨known, listed, same⟩ := formed.files_cover handle node found
  exact ⟨known, Path.mem_insert_of_mem file listed, same⟩

theorem addFile (file : Path) : (graph.addFile file).WellFormed where
  nodes_indexed := formed.nodes_indexed
  edges_indexed := formed.edges_indexed
  ends := formed.ends
  named := formed.named
  files_sorted := Path.sorted_insert formed.files_sorted file
  files_cover := fun handle node found => formed.file_known handle node found file

theorem addNode (node : Node) : (graph.addNode node).1.WellFormed := by
  unfold Graph.addNode
  cases found : graph.nodeIndex[node.id]? with
  | some handle => exact formed
  | none =>
    refine ⟨?nodes_indexed, formed.edges_indexed, formed.ends, ?named,
      Path.sorted_insert formed.files_sorted _, ?files_cover⟩
    case nodes_indexed => exact Indexes.push formed.nodes_indexed node found
    case named =>
      intro handle arc held
      obtain ⟨source, target, tag, left, right, id⟩ := formed.named handle arc held
      exact ⟨source, target, tag, getElem?_push_old node left, getElem?_push_old node right, id⟩
    case files_cover =>
      intro handle other held
      rw [Array.getElem?_push] at held
      split at held
      · obtain rfl := Option.some.inj held
        exact Path.same_mem_insert formed.files_sorted _
      · exact formed.file_known handle other held _

omit formed in
theorem kept_addNode (graph : Graph) (node : Node) : graph.Kept (graph.addNode node).1 := by
  unfold Graph.addNode
  cases graph.nodeIndex[node.id]? with
  | some handle => exact .refl graph
  | none =>
    exact ⟨fun handle other held => ⟨other, getElem?_push_old node held, rfl, rfl, rfl, rfl⟩,
      fun _ _ held => held⟩

/-- The handle that adding a node gives is that of a node with its id. -/
theorem handle_addNode (node : Node) : ∃ held,
    (graph.addNode node).1.nodes[(graph.addNode node).2]? = some held ∧ held.id = node.id := by
  unfold Graph.addNode
  cases found : graph.nodeIndex[node.id]? with
  | some handle => exact (formed.nodes_indexed node.id handle).1 found
  | none => exact ⟨node, by simp, rfl⟩

theorem addArc {edge : Edge} (named : graph.Named ⟨edge.source, edge.target, edge⟩) :
    (graph.addArc edge).1.WellFormed := by
  unfold Graph.addArc
  cases found : graph.edgeIndex[edge.id]? with
  | some handle => exact formed
  | none =>
    refine ⟨formed.nodes_indexed, ?edges_indexed, ?ends, ?named, formed.files_sorted,
      formed.files_cover⟩
    case edges_indexed =>
      exact Indexes.push formed.edges_indexed ⟨edge.source, edge.target, edge⟩ found
    case ends =>
      intro handle arc held
      rw [Array.getElem?_push] at held
      split at held
      · obtain rfl := Option.some.inj held
        exact ⟨rfl, rfl⟩
      · exact formed.ends handle arc held
    case named =>
      intro handle arc held
      rw [Array.getElem?_push] at held
      split at held
      · obtain rfl := Option.some.inj held
        exact named
      · exact formed.named handle arc held

omit formed in
theorem kept_addArc (graph : Graph) (edge : Edge) : graph.Kept (graph.addArc edge).1 := by
  unfold Graph.addArc
  cases graph.edgeIndex[edge.id]? with
  | some handle => exact .refl graph
  | none =>
    exact ⟨fun handle node held => ⟨node, held, rfl, rfl, rfl, rfl⟩,
      fun handle arc held => getElem?_push_old _ held⟩

theorem withEdge (source target : Nat) (kind : EdgeKind) (tag : Option String)
    (properties : Properties) : (graph.withEdge source target kind tag properties).WellFormed := by
  unfold Graph.withEdge addEdge
  cases left : graph.nodes[source]? with
  | none => exact formed
  | some from_ =>
    cases right : graph.nodes[target]? with
    | none => exact formed
    | some to_ => exact formed.addArc ⟨from_, to_, tag, left, right, rfl⟩

omit formed in
theorem kept_withEdge (graph : Graph) (source target : Nat) (kind : EdgeKind)
    (tag : Option String) (properties : Properties) :
    graph.Kept (graph.withEdge source target kind tag properties) := by
  unfold Graph.withEdge addEdge
  cases graph.nodes[source]? with
  | none => exact .refl graph
  | some from_ =>
    cases graph.nodes[target]? with
    | none => exact .refl graph
    | some to_ => exact kept_addArc graph _

omit formed in
theorem getElem?_setProperty (graph : Graph) (changed handle : Nat) (key : String)
    (value : PropertyValue) :
    (graph.setProperty changed key value).nodes[handle]? =
      if changed = handle then graph.nodes[handle]?.map fun node => node.set key value
      else graph.nodes[handle]? :=
  Array.getElem?_modify

omit formed in
theorem kept_setProperty (graph : Graph) (changed : Nat) (key : String) (value : PropertyValue) :
    graph.Kept (graph.setProperty changed key value) := by
  refine ⟨fun handle node found => ?_, fun _ _ found => found⟩
  rw [getElem?_setProperty, found]
  split
  · exact ⟨node.set key value, rfl, rfl, rfl, rfl, rfl⟩
  · exact ⟨node, rfl, rfl, rfl, rfl, rfl⟩

theorem setProperty (changed : Nat) (key : String) (value : PropertyValue) :
    (graph.setProperty changed key value).WellFormed := by
  have kept := kept_setProperty graph changed key value
  -- Every node afterwards is one from before, perhaps with another property.
  have old : ∀ (handle : Nat) (node : Node),
      (graph.setProperty changed key value).nodes[handle]? = some node →
      ∃ other, graph.nodes[handle]? = some other ∧ SameNode node other := by
    intro handle node found
    rw [getElem?_setProperty] at found
    split at found
    · obtain ⟨other, held, rfl⟩ := Option.map_eq_some_iff.1 found
      exact ⟨other, held, rfl, rfl, rfl, rfl⟩
    · exact ⟨node, found, rfl, rfl, rfl, rfl⟩
  refine ⟨?nodes_indexed, formed.edges_indexed, formed.ends, ?named, formed.files_sorted,
    ?files_cover⟩
  case nodes_indexed =>
    intro id handle
    refine (formed.nodes_indexed id handle).trans ⟨?_, ?_⟩
    · rintro ⟨node, found, rfl⟩
      obtain ⟨after, held, same, -⟩ := kept.nodes handle node found
      exact ⟨after, held, same⟩
    · rintro ⟨node, found, rfl⟩
      obtain ⟨before, held, same, -⟩ := old handle node found
      exact ⟨before, held, same.symm⟩
  case named =>
    intro handle arc found
    exact kept.named (formed.named handle arc found)
  case files_cover =>
    intro handle node found
    obtain ⟨before, held, -, -, -, place⟩ := old handle node found
    rw [place]
    exact formed.files_cover handle before held

theorem connectAll (connections : List Connection) : (graph.connectAll connections).WellFormed := by
  induction connections generalizing graph with
  | nil => exact formed
  | cons connection rest ih => exact ih (formed.withEdge _ _ _ _ _)

omit formed in
theorem kept_connectAll (graph : Graph) (connections : List Connection) :
    graph.Kept (graph.connectAll connections) := by
  induction connections generalizing graph with
  | nil => exact .refl graph
  | cons connection rest ih => exact (kept_withEdge graph _ _ _ _ _).trans (ih _)

theorem linkAcrossFiles :
    graph.linkAcrossFiles.1.WellFormed ∧ graph.Kept graph.linkAcrossFiles.1 := by
  have each : ∀ (linked : List LinkedCall) (graph : Graph), graph.WellFormed →
      (linked.foldl addLinked graph).WellFormed ∧ graph.Kept (linked.foldl addLinked graph) := by
    intro linked
    induction linked with
    | nil => exact fun graph formed => ⟨formed, .refl graph⟩
    | cons call rest ih =>
      intro graph formed
      obtain ⟨whole, kept⟩ := ih _ ((formed.connectAll call.edges).setProperty call.node "resolved"
        (.flag true))
      exact ⟨whole, ((kept_connectAll graph call.edges).trans (kept_setProperty _ _ _ _)).trans kept⟩
  exact each graph.linkedCalls graph formed

omit formed in
/-- Listing files changes the list of files only. -/
theorem addFiles_eq (graph : Graph) (files : List Path) : files.foldl Graph.addFile graph =
    { graph with files := files.foldl (fun listed file => file.insert listed) graph.files } := by
  induction files generalizing graph with
  | nil => rfl
  | cons file rest ih => exact ih (graph.addFile file)

theorem addFiles (files : List Path) :
    (files.foldl Graph.addFile graph).WellFormed ∧ graph.Kept (files.foldl Graph.addFile graph) := by
  induction files generalizing graph with
  | nil => exact ⟨formed, .refl graph⟩
  | cons file rest ih =>
    obtain ⟨whole, kept⟩ := ih (formed.addFile file)
    exact ⟨whole, ⟨kept.nodes, kept.arcs⟩⟩

end WellFormed

end Graph

end CodeGraph

import CodeGraph.Proofs.Graph.Union

/-!
# Unions, handle by handle

`Graph.WellFormed.content_absorb` describes a union without handles. Here the handles are followed
(`Graph.Absorbs`): what the first graph holds stays where it is, what is new in the second comes behind
it, and the table of the union sends each node of the second graph to the node of its id. An edge of the
second graph whose id is known is dropped; where ids of edges tell their ends apart, the edge that is
there instead has the ends that the dropped one would have had (`Graph.Reached.absorbs`).
-/

namespace CodeGraph

namespace Graph

/-- `graph.Absorbs other united names`: a graph with everything that another one holds, and the table
that gives the new handle of each node of the other graph. -/
structure Absorbs (graph other united : Graph) (names : Array Nat) : Prop where
  /-- The table is about the nodes of the other graph and about nothing else. -/
  size : names.size = other.nodes.size
  renamed : ∀ (handle : Nat) (node : Node), other.nodes[handle]? = some node →
    ∃ place held, names[handle]? = some place ∧ united.nodes[place]? = some held ∧
      held.id = node.id
  keeps_nodes : ∀ (handle : Nat) (node : Node), graph.nodes[handle]? = some node →
    united.nodes[handle]? = some node
  keeps_arcs : ∀ (handle : Nat) (arc : Arc), graph.arcs[handle]? = some arc →
    united.arcs[handle]? = some arc
  nodes : united.nodes.toList = graph.nodes.toList ++
    other.nodes.toList.filter fun node => !graph.nodeIds.contains node.id
  arcs : united.arcs.toList = graph.arcs.toList ++
    (other.arcs.toList.filter fun arc => !graph.bondIds.contains arc.edge.id).map fun arc =>
      arc.under names
  /-- Every edge of the other graph has an edge of its id and kind between the nodes that stand for
  its ends: the one of the first graph if that has the id, and else the edge itself, renamed. -/
  edges : ∀ (handle : Nat) (arc : Arc), other.arcs[handle]? = some arc →
    ∃ (place : Nat) (held : Arc), united.arcs[place]? = some held ∧
      held.edge.id = arc.edge.id ∧ held.edge.kind = arc.edge.kind ∧
      names[arc.source]? = some held.source ∧ names[arc.target]? = some held.target ∧
      held.edge.source = held.source ∧ held.edge.target = held.target ∧
      (arc.edge.id ∈ graph.bondIds → graph.arcs[place]? = some held) ∧
      (arc.edge.id ∉ graph.bondIds → held.edge.properties = arc.edge.properties)
  nodeIds_nodup : united.nodeIds.Nodup
  bondIds_nodup : united.bondIds.Nodup
  mem_bondIds : ∀ id, id ∈ united.bondIds ↔ id ∈ graph.bondIds ∨ id ∈ other.bondIds
  files_sorted : Path.Sorted united.files
  lists : ∀ components, Path.Lists united.files components ↔
    Path.Lists graph.files components ∨ Path.Lists other.files components

theorem mem_bondIds_iff {graph : Graph} {id : String} : id ∈ graph.bondIds ↔
    ∃ (handle : Nat) (arc : Arc), graph.arcs[handle]? = some arc ∧ arc.edge.id = id := by
  rw [bondIds_eq, List.mem_map]
  simp only [Array.mem_toList_iff, Array.mem_iff_getElem?]
  constructor
  · rintro ⟨arc, ⟨handle, found⟩, same⟩
    exact ⟨handle, arc, found, same⟩
  · rintro ⟨handle, arc, found, same⟩
    exact ⟨arc, ⟨handle, found⟩, same⟩

/-- What stands in front of an array with more behind it stays in its place. -/
theorem getElem?_of_append {α : Type} {before after : Array α} {more : List α}
    (grown : after.toList = before.toList ++ more) {handle : Nat} {item : α}
    (found : before[handle]? = some item) : after[handle]? = some item := by
  rw [← Array.getElem?_toList] at found ⊢
  obtain ⟨less, -⟩ := List.getElem?_eq_some_iff.1 found
  rw [grown, List.getElem?_append_left less, found]

/-- Edges of the same id are one edge. -/
theorem WellFormed.arc_unique {graph : Graph} (formed : graph.WellFormed) {place place' : Nat}
    {arc arc' : Arc} (found : graph.arcs[place]? = some arc) (found' : graph.arcs[place']? = some arc')
    (same : arc.edge.id = arc'.edge.id) : place = place' ∧ arc = arc' := by
  have first := (formed.edges_indexed _ place).2 ⟨arc, found, rfl⟩
  have second := (formed.edges_indexed _ place').2 ⟨arc', found', same.symm⟩
  obtain rfl := Option.some.inj (first.symm.trans second)
  exact ⟨rfl, Option.some.inj (found.symm.trans found')⟩

section Absorb

variable {graph other : Graph}

/-- Where edges are told apart, an edge of a union that has the id of a renamed one has its ends. -/
theorem WellFormed.ends_of_same_id {united : Graph} (whole : united.WellFormed)
    (otherFormed : other.WellFormed) (tells : united.TellsEdges) {names : Array Nat}
    (renames : united.Renames names other.nodes.toList) {handle place : Nat} {arc held : Arc}
    (there : other.arcs[handle]? = some arc) (found : united.arcs[place]? = some held)
    (same : held.edge.id = arc.edge.id) :
    held.edge.kind = arc.edge.kind ∧ names[arc.source]? = some held.source ∧
      names[arc.target]? = some held.target := by
  obtain ⟨source, target, tag, left, right, id⟩ := otherFormed.named handle arc there
  obtain ⟨source', target', tag', left', right', id'⟩ := whole.named place held found
  obtain ⟨from_, start, named, stands, sourceId⟩ := renames.2 arc.source source (by simpa using left)
  obtain ⟨to_, goal, named', stands', targetId⟩ := renames.2 arc.target target (by simpa using right)
  have ids : edgeId held.edge.kind source'.id target'.id tag' =
      edgeId arc.edge.kind start.id goal.id tag := by
    rw [← id', same, id, sourceId, targetId]
  obtain ⟨kind, sources, targets, -⟩ := tells _ _ _ _ _ _ _ _ _ _ _ _ left' right' stands stands' ids
  exact ⟨kind, sources ▸ named, targets ▸ named'⟩

variable (formed : graph.WellFormed) (otherFormed : other.WellFormed)
include formed otherFormed

theorem WellFormed.mem_bondIds_absorb (id : String) :
    id ∈ (graph.absorb other).1.bondIds ↔ id ∈ graph.bondIds ∨ id ∈ other.bondIds := by
  have ids : (graph.absorb other).1.bondIds = graph.bondIds ++
      (other.bonds.filter fun bond => !graph.bondIds.contains bond.id).map Bond.id := by
    rw [bondIds, (formed.content_absorb otherFormed).2.1, List.map_append, bondIds]
  rw [ids, List.mem_append]
  by_cases known : id ∈ graph.bondIds
  · simp [known]
  · refine or_congr_right ⟨fun new => ?_, fun inside => ?_⟩
    · obtain ⟨bond, kept, rfl⟩ := List.mem_map.1 new
      exact List.mem_map_of_mem (List.mem_of_mem_filter kept)
    · obtain ⟨bond, there, rfl⟩ := List.mem_map.1 inside
      exact List.mem_map_of_mem (List.mem_filter.2 ⟨there, by simpa using known⟩)

/-- An edge of a union that has the id of an edge of the second graph is the edge of the first graph
with that id, or else has the properties of the second. -/
theorem WellFormed.arc_of_absorb {handle place : Nat} {arc held : Arc}
    (there : other.arcs[handle]? = some arc)
    (found : (graph.absorb other).1.arcs[place]? = some held) (same : held.edge.id = arc.edge.id) :
    (arc.edge.id ∈ graph.bondIds → graph.arcs[place]? = some held) ∧
      (arc.edge.id ∉ graph.bondIds → held.edge.properties = arc.edge.properties) := by
  obtain ⟨whole, kept⟩ := formed.absorb otherFormed
  constructor
  · intro known
    obtain ⟨place', held', found', same'⟩ := mem_bondIds_iff.1 known
    obtain ⟨rfl, rfl⟩ := whole.arc_unique found (kept.arcs _ _ found') (same.trans same'.symm)
    exact found'
  · intro new
    have inside : arc.under (graph.absorb other).2 ∈ (graph.absorb other).1.arcs.toList := by
      rw [formed.arcs_absorb otherFormed]
      refine List.mem_append_right _ (List.mem_map_of_mem (List.mem_filter.2 ⟨?_, by simpa using new⟩))
      exact Array.mem_toList_iff.2 (Array.mem_iff_getElem?.2 ⟨handle, there⟩)
    obtain ⟨place', found'⟩ := Array.mem_iff_getElem?.1 (Array.mem_toList_iff.1 inside)
    obtain ⟨-, rfl⟩ := whole.arc_unique found found' same
    rfl

end Absorb

/-- A union is exact by id: nothing is lost, moved or doubled, and what is taken for known stands for
what it replaces. -/
theorem Reached.absorbs {graph other : Graph} (reached : graph.Reached)
    (otherReached : other.Reached) (plain : graph.PlainIds) (plain' : other.PlainIds) :
    graph.Absorbs other (graph.absorb other).1 (graph.absorb other).2 := by
  have formed := reached.wellFormed
  have otherFormed := otherReached.wellFormed
  obtain ⟨whole, kept⟩ := formed.absorb otherFormed
  obtain ⟨nodes, -, lists⟩ := formed.content_absorb otherFormed
  have renames := formed.renames_absorb otherFormed
  have tells := whole.tellsEdges_of_plain (plain.absorb plain' formed otherFormed)
  have ids := formed.mem_bondIds_absorb otherFormed
  refine ⟨by simpa using renames.1, fun handle node there => renames.2 handle node (by simpa using there),
    fun _ _ => getElem?_of_append nodes, kept.arcs, nodes, formed.arcs_absorb otherFormed, ?edges,
    whole.nodup_nodeIds, whole.nodup_bondIds, ids, whole.files_sorted, lists⟩
  case edges =>
    intro handle arc there
    obtain ⟨place, held, found, same⟩ :=
      mem_bondIds_iff.1 ((ids arc.edge.id).2 (.inr (mem_bondIds_iff.2 ⟨handle, arc, there, rfl⟩)))
    obtain ⟨kind, source, target⟩ := whole.ends_of_same_id otherFormed tells renames there found same
    obtain ⟨known, new⟩ := formed.arc_of_absorb otherFormed there found same
    exact ⟨place, held, found, same, kind, source, target, (whole.ends place held found).1,
      (whole.ends place held found).2, known, new⟩

theorem nodes_selfCaller : selfCaller.nodes = #[functionAt "f" 1] := by
  simp [selfCaller, Operation.apply, nodes_withEdge, Graph.addNode, empty, stamped]

theorem nodes_outerCaller : outerCaller.nodes = #[functionAt "g" 3, functionAt "f" 1] := by
  simp [outerCaller, Operation.apply, nodes_withEdge, Graph.addNode, empty, stamped, functionAt]

theorem plain_selfCaller : selfCaller.PlainIds := by
  refine plainIds_of_nodes nodes_selfCaller ?_
  unfold Plain
  decide

theorem plain_outerCaller : outerCaller.PlainIds := by
  refine plainIds_of_nodes nodes_outerCaller ?_
  unfold Plain
  decide

/-- The two graphs have a node and an edge in common, under different handles. -/
theorem absorbs_outerCaller : selfCaller.Reached ∧ outerCaller.Reached ∧ selfCaller.PlainIds ∧
    outerCaller.PlainIds ∧ selfCaller.Absorbs outerCaller (selfCaller.absorb outerCaller).1
      (selfCaller.absorb outerCaller).2 :=
  ⟨reached_selfCaller, reached_outerCaller, plain_selfCaller, plain_outerCaller,
    reached_selfCaller.absorbs reached_outerCaller plain_selfCaller plain_outerCaller⟩

end Graph

end CodeGraph

import CodeGraph.Build
import CodeGraph.Proofs.Calls.Target
import CodeGraph.Proofs.Facts.Run
import CodeGraph.Proofs.Flow.DataFlow
import CodeGraph.Proofs.Flow.Links

/-!
# Edges of the graph of a file

The graph of a file has the containment edges of the walk, an edge for each connection that the stages
behind the walk ask for, and no others (`Facts.hasEdge_ofFile`). All these connections are between
nodes of the graph, since the facts are sound, and no two of them share an id unless they agree.
-/

namespace CodeGraph

namespace Graph

variable {graph : Graph}

/-- A node after a property was set was there before, under the same id. -/
theorem node_of_setProperty {changed : Nat} {key : String} {value : PropertyValue} {handle : Nat}
    {node : Node} (found : (graph.setProperty changed key value).nodes[handle]? = some node) :
    ∃ old, graph.nodes[handle]? = some old ∧ old.id = node.id := by
  rw [WellFormed.getElem?_setProperty] at found
  split at found
  · obtain ⟨old, held, rfl⟩ := Option.map_eq_some_iff.1 found
    exact ⟨old, held, rfl⟩
  · exact ⟨node, found, rfl⟩

theorem size_setProperty (graph : Graph) (changed : Nat) (key : String) (value : PropertyValue) :
    (graph.setProperty changed key value).nodes.size = graph.nodes.size :=
  Array.size_modify

/-- Properties of nodes do not matter for edges. -/
theorem hasEdge_setProperty (changed : Nat) (key : String) (value : PropertyValue) (kind : EdgeKind)
    (source target : Nat) (tag : Option String) :
    (graph.setProperty changed key value).HasEdge kind source target tag ↔
      graph.HasEdge kind source target tag := by
  have forth := (WellFormed.kept_setProperty graph changed key value).nodes
  constructor
  · rintro ⟨edge, inside, kinds, sources, targets, from_, to_, left, right, id⟩
    obtain ⟨from', left', same⟩ := node_of_setProperty left
    obtain ⟨to', right', same'⟩ := node_of_setProperty right
    exact ⟨edge, inside, kinds, sources, targets, from', to', left', right',
      by rw [same, same', id]⟩
  · rintro ⟨edge, inside, kinds, sources, targets, from_, to_, left, right, id⟩
    obtain ⟨from', left', same, -⟩ := forth _ _ left
    obtain ⟨to', right', same', -⟩ := forth _ _ right
    exact ⟨edge, inside, kinds, sources, targets, from', to', left', right',
      by rw [same, same', id]⟩

theorem TellsEdges.setProperty (tells : graph.TellsEdges) (changed : Nat) (key : String)
    (value : PropertyValue) : (graph.setProperty changed key value).TellsEdges := by
  intro kind kind' source target source' target' a b a' b' tag tag' left right left' right' same
  obtain ⟨oldA, heldA, idA⟩ := node_of_setProperty left
  obtain ⟨oldB, heldB, idB⟩ := node_of_setProperty right
  obtain ⟨oldA', heldA', idA'⟩ := node_of_setProperty left'
  obtain ⟨oldB', heldB', idB'⟩ := node_of_setProperty right'
  refine tells kind kind' source target source' target' oldA oldB oldA' oldB' tag tag' heldA heldB
    heldA' heldB' ?_
  rw [idA, idB, idA', idB', same]

theorem nodes_connectAll (graph : Graph) (connections : List Connection) :
    (graph.connectAll connections).nodes = graph.nodes := by
  induction connections generalizing graph with
  | nil => rfl
  | cons connection rest ih => exact (ih _).trans (nodes_withEdge _ _ _ _ _ _)

theorem connectAll_append (graph : Graph) (front back : List Connection) :
    graph.connectAll (front ++ back) = (graph.connectAll front).connectAll back :=
  List.foldl_append

/-- Linking a call found in the union adds no node. -/
theorem size_addLinked (graph : Graph) (linked : LinkedCall) :
    (graph.addLinked linked).nodes.size = graph.nodes.size := by
  rw [addLinked, size_setProperty, nodes_connectAll]

theorem TellsEdges.connectAll (tells : graph.TellsEdges) (connections : List Connection) :
    (graph.connectAll connections).TellsEdges := by
  unfold TellsEdges
  rw [nodes_connectAll]
  exact tells

/-- A list of connections asks for an edge of a kind between two nodes, under a tag. -/
def Asked (connections : List Connection) (kind : EdgeKind) (source target : Nat)
    (tag : Option String) : Prop :=
  ∃ connection ∈ connections, connection.kind = kind ∧ connection.source = source ∧
    connection.target = target ∧ connection.tag = tag

theorem asked_append {front back : List Connection} {kind : EdgeKind} {source target : Nat}
    {tag : Option String} : Asked (front ++ back) kind source target tag ↔
      Asked front kind source target tag ∨ Asked back kind source target tag := by
  simp only [Asked, List.mem_append, or_and_right, exists_or]

end Graph

/-! ## Ends of connections -/

/-- The transfers of a region are between its owner and the sites of its statements. -/
theorem Control.ends_links {region : Region} {graph : Graph} (sound : region.Sound graph)
    {control : Control} {link : Link} (inside : link ∈ control.links region) :
    graph.KindIn link.source NodeKind.turns ∧ graph.KindIn link.target NodeKind.turns := by
  have known : ∀ (s site : Nat), region.siteOf? s = some site →
      graph.KindIn site NodeKind.turns := by
    intro s site found
    obtain ⟨statement, stood, rfl⟩ := Option.map_eq_some_iff.1 found
    exact (sound.sites s statement stood).mono (by decide)
  have around : ∀ owner, region.owner = some owner → graph.KindIn owner NodeKind.turns :=
    fun owner owned => (sound.owner owner owned).mono (by decide)
  obtain ⟨source, target, label⟩ := link
  cases passes_of_mem_links inside with
  | entry owned _ found => exact ⟨around _ owned, known _ _ found⟩
  | exit owned found _ _ => exact ⟨known _ _ found, around _ owned⟩
  | transfer found _ reached => exact ⟨known _ _ found, known _ _ reached⟩

namespace Facts

variable {file : SourceFile} {facts : Facts}

/-- What the stages behind the walk ask to be connected before calls are linked. -/
def staged (facts : Facts) : List Connection :=
  facts.stages.control.flatMap Control.Link.connections ++ facts.stages.access ++ facts.stages.results

/-- Everything that the stages behind the walk ask to be connected. -/
def connections (facts : Facts) : List Connection :=
  facts.stages.control.flatMap Control.Link.connections ++ facts.stages.access
    ++ facts.stages.results ++ facts.calls.toList.flatMap (facts.callEdges facts.graph.nameOf)

theorem connections_eq (facts : Facts) : facts.connections =
    facts.staged ++ facts.calls.toList.flatMap (facts.callEdges facts.graph.nameOf) :=
  rfl

/-- The stages connect one after the other, and then each call is linked. -/
theorem assemble_eq (facts : Facts) : facts.assemble =
    facts.calls.toList.foldl (facts.linkCall facts.graph.nameOf)
      (facts.graph.connectAll facts.staged) := by
  rw [staged, Graph.connectAll_append, Graph.connectAll_append, Array.foldl_toList]
  rfl

/-- Control passes between functions and the sites of statements. -/
theorem Sound.ends_control (sound : Sound file facts) {connection : Connection}
    (inside : connection ∈ facts.stages.control.flatMap Control.Link.connections) :
    (connection.kind = .successor ∨ connection.kind = .predecessor) ∧
      facts.graph.KindIn connection.source NodeKind.turns ∧
      facts.graph.KindIn connection.target NodeKind.turns := by
  obtain ⟨link, listed, here⟩ := List.mem_flatMap.1 inside
  obtain ⟨⟨region, control⟩, paired, there⟩ := List.mem_flatMap.1 listed
  obtain ⟨number, found⟩ := List.getElem?_of_mem (List.of_mem_zip paired).1
  obtain ⟨source, target⟩ := Control.ends_links
    (sound.regions number region (by simpa using found)) there
  simp only [Control.Link.connections, List.mem_cons, List.not_mem_nil, or_false] at here
  rcases here with rfl | rfl
  · exact ⟨.inl rfl, source, target⟩
  · exact ⟨.inr rfl, target, source⟩

theorem Sound.joins_control (sound : Sound file facts) :
    ∀ connection ∈ facts.stages.control.flatMap Control.Link.connections,
      facts.graph.Joins connection :=
  fun _ inside => ⟨(sound.ends_control inside).2.1.lt, (sound.ends_control inside).2.2.lt⟩

/-- The regions of sound facts were filled step by step and speak of nodes of the graph. -/
theorem Sound.each_region (sound : Sound file facts) :
    (∀ region ∈ facts.regions.toList, region.Built) ∧
      ∀ region ∈ facts.regions.toList, region.HeldBy facts.graph := by
  have all : ∀ region ∈ facts.regions.toList, region.Sound facts.graph := by
    intro region inside
    obtain ⟨number, found⟩ := List.getElem?_of_mem inside
    exact sound.regions number region (by simpa using found)
  exact ⟨fun region inside => (all region inside).built, fun region inside => (all region inside).held⟩

theorem Sound.joins_access (sound : Sound file facts) :
    ∀ connection ∈ facts.stages.access, facts.graph.Joins connection :=
  DataFlow.joins_edges sound.each_region.1 sound.each_region.2

theorem Sound.joins_results (sound : Sound file facts) :
    ∀ connection ∈ facts.stages.results, facts.graph.Joins connection := by
  intro connection inside
  obtain ⟨call, listed, here⟩ := List.mem_flatMap.1 inside
  obtain ⟨number, found⟩ := List.getElem?_of_mem listed
  have held := sound.calls number call (by simpa using found)
  obtain ⟨consumer, given, rfl⟩ := List.mem_map.1 here
  have consumed := Option.mem_toList.1 (List.mem_filter.1 given).1
  exact ⟨held.node.lt, (held.consumer consumer consumed).lt⟩

theorem Sound.joins_staged (sound : Sound file facts) :
    ∀ connection ∈ facts.staged, facts.graph.Joins connection :=
  List.forall_mem_append.2 ⟨List.forall_mem_append.2 ⟨sound.joins_control, sound.joins_access⟩,
    sound.joins_results⟩

/-- What a call asks for is between the call and a function, both of which the facts know. -/
theorem Sound.yields_of_mem_callEdges (sound : Sound file facts) {call : CallFact}
    (listed : call ∈ facts.calls.toList) {nameOf : Nat → String} {connection : Connection}
    (inside : connection ∈ facts.callEdges nameOf call) : call.HeldBy facts.graph ∧
      ∃ fact : FunctionFact, fact.HeldBy facts.graph ∧ (siteOf call).Yields nameOf
        { node := fact.node, params := fact.params.toList, returns := fact.returns.toList }
        connection := by
  obtain ⟨place, found⟩ := List.getElem?_of_mem listed
  obtain ⟨target, reached, here⟩ := List.mem_flatMap.1 inside
  obtain ⟨node, -, offered⟩ := List.mem_filterMap.1 reached
  obtain ⟨fact, known, rfl⟩ := Option.map_eq_some_iff.1 offered
  obtain ⟨number, -, stood⟩ := Option.bind_eq_some_iff.1 known
  exact ⟨sound.calls place call (by simpa using found), fact, sound.functions number fact stood,
    CallSite.mem_edges.1 here⟩

theorem Sound.joins_callEdges (sound : Sound file facts) {call : CallFact}
    (listed : call ∈ facts.calls.toList) (nameOf : Nat → String) :
    ∀ connection ∈ facts.callEdges nameOf call, facts.graph.Joins connection := by
  intro connection inside
  obtain ⟨held, fact, known, yields⟩ := sound.yields_of_mem_callEdges listed inside
  cases yields with
  | call around => exact ⟨(held.caller _ around).lt, known.node.lt⟩
  | result _ => exact ⟨known.node.lt, held.node.lt⟩
  | returned _ listed => exact ⟨(known.returns _ listed).lt, held.node.lt⟩
  | argument listed _ => exact ⟨held.node.lt, (known.params _ listed).lt⟩

/-! ## Exactly these edges -/

/-- Linking a call adds no node. -/
theorem size_linkCall (facts : Facts) (nameOf : Nat → String) (graph : Graph) (call : CallFact) :
    (facts.linkCall nameOf graph call).nodes.size = graph.nodes.size := by
  rw [linkCall, Graph.nodes_connectAll, Graph.size_setProperty]

/-- Linking calls adds the edges of the calls, and no others. -/
theorem hasEdge_linkCalls (nameOf : Nat → String) {graph : Graph} (formed : graph.WellFormed)
    (tells : graph.TellsEdges) {calls : List CallFact}
    (joins : ∀ call ∈ calls, ∀ connection ∈ facts.callEdges nameOf call, graph.Joins connection)
    (kind : EdgeKind) (source target : Nat) (tag : Option String) :
    (calls.foldl (facts.linkCall nameOf) graph).HasEdge kind source target tag ↔
      graph.HasEdge kind source target tag ∨
        Graph.Asked (calls.flatMap (facts.callEdges nameOf)) kind source target tag := by
  induction calls generalizing graph with
  | nil => simp [Graph.Asked]
  | cons call rest ih =>
    have marked := formed.setProperty call.node "resolved" (.flag (facts.isResolved call))
    have telling := tells.setProperty call.node "resolved" (.flag (facts.isResolved call))
    have here : ∀ connection ∈ facts.callEdges nameOf call,
        (graph.setProperty call.node "resolved" (.flag (facts.isResolved call))).Joins connection :=
      fun connection asked =>
        (joins call List.mem_cons_self connection asked).of_size (graph.size_setProperty _ _ _)
    have formed' : (facts.linkCall nameOf graph call).WellFormed := marked.connectAll _
    have tells' : (facts.linkCall nameOf graph call).TellsEdges := telling.connectAll _
    have joins' : ∀ other ∈ rest, ∀ connection ∈ facts.callEdges nameOf other,
        (facts.linkCall nameOf graph call).Joins connection := fun other there connection asked =>
      (joins other (List.mem_cons_of_mem _ there) connection asked).of_size
        (facts.size_linkCall nameOf graph call)
    rw [List.foldl_cons, ih formed' tells' joins', List.flatMap_cons, Graph.asked_append, ← or_assoc]
    refine or_congr ?_ Iff.rfl
    rw [linkCall, marked.hasEdge_connectAll telling here, Graph.hasEdge_setProperty]
    rfl

/-- The graph that is assembled from sound facts has the edges of the walk, those that are asked for,
and no others. -/
theorem Sound.hasEdge_assemble (sound : Sound file facts) (kind : EdgeKind) (source target : Nat)
    (tag : Option String) : facts.assemble.HasEdge kind source target tag ↔
      facts.graph.HasEdge kind source target tag ∨
        Graph.Asked facts.connections kind source target tag := by
  have joins : ∀ call ∈ facts.calls.toList, ∀ connection ∈ facts.callEdges facts.graph.nameOf call,
      (facts.graph.connectAll facts.staged).Joins connection := fun call listed connection inside =>
    (sound.joins_callEdges listed _ connection inside).of_size
      (congrArg Array.size (Graph.nodes_connectAll _ _))
  have staged := sound.formed.hasEdge_connectAll sound.tellsEdges sound.joins_staged kind source target tag
  have linked := hasEdge_linkCalls facts.graph.nameOf (sound.formed.connectAll facts.staged)
    (sound.tellsEdges.connectAll facts.staged) joins kind source target tag
  rw [assemble_eq, linked, staged, connections_eq, Graph.asked_append, or_assoc]
  rfl

end Facts

namespace Graph

/-! Marking a graph with its file and the time changes neither nodes nor edges. -/

theorem nodes_stamped (graph : Graph) (file : Path) (present : Instant) :
    ((graph.addFile file).stamped present).nodes = graph.nodes := rfl

theorem arcs_stamped (graph : Graph) (file : Path) (present : Instant) :
    ((graph.addFile file).stamped present).arcs = graph.arcs := rfl

variable (present : Instant) (file : SourceFile)

theorem nodes_ofFile : (ofFile present file).nodes = (Facts.of file).assemble.nodes :=
  nodes_stamped _ _ _

theorem arcs_ofFile : (ofFile present file).arcs = (Facts.of file).assemble.arcs :=
  arcs_stamped _ _ _

theorem edges_ofFile : (ofFile present file).edges = (Facts.of file).assemble.edges := by
  rw [edges, arcs_ofFile, edges]

end Graph

namespace Facts

/-- The graph of a file has the edges of the walk, those that are asked for, and no others. -/
theorem hasEdge_ofFile (present : Instant) (file : SourceFile) (kind : EdgeKind)
    (source target : Nat) (tag : Option String) :
    (Graph.ofFile present file).HasEdge kind source target tag ↔
      (Facts.of file).graph.HasEdge kind source target tag ∨
        Graph.Asked (Facts.of file).connections kind source target tag := by
  rw [Graph.HasEdge, Graph.edges_ofFile, Graph.nodes_ofFile]
  exact (sound_of file).hasEdge_assemble kind source target tag

/-! ## Flow edges -/

/-- A definition that is made at one site reaches a read at another one, of a variable of a given
name. -/
def Flows (facts : Facts) (source target : Nat) (tag : Option String) : Prop :=
  ∃ number region place earlier access, facts.regions[number]? = some region ∧
    DataFlow.Stands region place earlier access ∧ ∃ binding, access.used? = some binding ∧
    access.site = target ∧ source ≠ target ∧ tag = some (facts.graph.nameOf binding) ∧
    DataFlow.Reaches facts.region? facts.regions.toList number region place earlier
      ⟨binding, source⟩

/-- The flow edges that calls ask for: from a call to what takes its value, from the returns of a
function to a call of it, and from a call to the parameters. -/
def callFlows (facts : Facts) : List Connection :=
  facts.stages.results ++ facts.calls.toList.flatMap (facts.callEdges facts.graph.nameOf)

/-- The flow edges of the graph of a file are those of definitions that reach reads, those of calls, and
no others. -/
theorem hasEdge_flow (present : Instant) (file : SourceFile) (source target : Nat)
    (tag : Option String) :
    (Graph.ofFile present file).HasEdge .flow source target tag ↔
      (Facts.of file).Flows source target tag ∨
        Graph.Asked (Facts.of file).callFlows .flow source target tag := by
  have sound := sound_of file
  have walked : ¬ (Facts.of file).graph.HasEdge .flow source target tag := by
    rintro ⟨edge, inside, kind, -⟩
    obtain ⟨handle, arc, held, rfl⟩ := Graph.mem_edges.1 inside
    rw [(sound.children handle arc held).1] at kind
    cases kind
  have controlled : ¬ Graph.Asked ((Facts.of file).stages.control.flatMap Control.Link.connections)
      .flow source target tag := by
    rintro ⟨connection, inside, kind, -⟩
    obtain ⟨link, -, here⟩ := List.mem_flatMap.1 inside
    simp only [Control.Link.connections, List.mem_cons, List.not_mem_nil, or_false] at here
    rcases here with rfl | rfl <;> cases kind
  have accessed : Graph.Asked (Facts.of file).stages.access .flow source target tag ↔
      (Facts.of file).Flows source target tag := by
    unfold Graph.Asked Flows
    constructor
    · rintro ⟨connection, inside, fits⟩
      obtain ⟨number, region, place, earlier, access, found, stands, asks⟩ :=
        (DataFlow.mem_edges sound.each_region.1).1 inside
      rw [Array.getElem?_toList] at found
      exact ⟨number, region, place, earlier, access, found, stands,
        DataFlow.asksFor_flow.1 ⟨connection, asks, fits⟩⟩
    · rintro ⟨number, region, place, earlier, access, found, stands, reads⟩
      obtain ⟨connection, asks, fits⟩ := DataFlow.asksFor_flow.2 reads
      refine ⟨connection, (DataFlow.mem_edges sound.each_region.1).2 ?_, fits⟩
      exact ⟨number, region, place, earlier, access, by rw [Array.getElem?_toList, found], stands, asks⟩
  rw [hasEdge_ofFile, or_iff_right walked, connections, List.append_assoc, Graph.asked_append,
    Graph.asked_append, or_iff_right controlled, accessed]
  rfl

end Facts

end CodeGraph

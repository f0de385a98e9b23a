import CodeGraph.Proofs.Facts.FileNodes

/-!
# Requests for edges

Whoever asks for an edge is given a handle: that of a new edge, or that of the edge that has the id
already. What a graph was asked for on the way from the empty graph, and what it gave, is its log
(`Graph.Logged`). An id is the only thing that is looked at, so a request may be given an edge that it
did not ask for; it never is where ids of edges tell their parts (`Graph.TellsEdges`). The graph of a
file is of that kind, whatever the path of the file is: two requests are given one edge just when they
have the same kind, ends and tag, and the edge given has them too (`SourceFile.requests_exact`).
-/

namespace CodeGraph

/-- The edge that a connection asks for between two nodes. -/
def Connection.edge (connection : Connection) (from_ to_ : Node) : Edge where
  id := Graph.edgeId connection.kind from_.id to_.id connection.tag
  kind := connection.kind
  source := connection.source
  target := connection.target
  properties := connection.properties

namespace Graph

/-- A request for an edge, and the handle that was given. -/
structure Request where
  connection : Connection
  handle : Nat

/-- `Logged requests graph`: operations that lead from the empty graph to this one have asked for these
edges, one after the other, and were given these handles. -/
inductive Logged : List Request → Graph → Prop
  | start : Logged [] {}
  | node {requests : List Request} {graph : Graph} (node : Node) : Logged requests graph →
      Logged requests (graph.addNode node).1
  | edge {requests : List Request} {graph after : Graph} {handle : Nat} (connection : Connection) :
      Logged requests graph →
      graph.addEdge connection.source connection.target connection.kind connection.tag
        connection.properties = .ok (after, handle) →
      Logged (requests ++ [⟨connection, handle⟩]) after
  | property {requests : List Request} {graph : Graph} (handle : Nat) (key : String)
      (value : PropertyValue) : Logged requests graph →
      Logged requests (graph.setProperty handle key value)
  | file {requests : List Request} {graph : Graph} (file : Path) : Logged requests graph →
      Logged requests (graph.addFile file)
  | stamp {requests : List Request} {graph : Graph} (instant : Instant) : Logged requests graph →
      Logged requests (graph.stamped instant)

/-- The handle that was given is that of an edge with the id that was asked for. -/
def Answered (graph : Graph) (request : Request) : Prop :=
  ∃ arc from_ to_, graph.arcs[request.handle]? = some arc ∧
    graph.nodes[request.connection.source]? = some from_ ∧
    graph.nodes[request.connection.target]? = some to_ ∧
    arc.edge.id = edgeId request.connection.kind from_.id to_.id request.connection.tag

/-- An edge is what a connection asks for. -/
structure Fulfils (graph : Graph) (arc : Arc) (connection : Connection) : Prop where
  kind : arc.edge.kind = connection.kind
  source : arc.source = connection.source ∧ arc.edge.source = connection.source
  target : arc.target = connection.target ∧ arc.edge.target = connection.target
  id : ∃ from_ to_, graph.nodes[connection.source]? = some from_ ∧
    graph.nodes[connection.target]? = some to_ ∧
    arc.edge.id = edgeId connection.kind from_.id to_.id connection.tag

variable {graph after : Graph} {requests : List Request} {request other : Request}
  {connection : Connection} {handle : Nat} {arc : Arc}

/-! ## One request -/

/-- An edge that is asked for is between nodes, and is added under its id. -/
theorem addEdge_eq_ok
    (added : graph.addEdge connection.source connection.target connection.kind connection.tag
      connection.properties = .ok (after, handle)) :
    ∃ from_ to_, graph.nodes[connection.source]? = some from_ ∧
      graph.nodes[connection.target]? = some to_ ∧
      graph.addArc (connection.edge from_ to_) = (after, handle) := by
  unfold addEdge at added
  cases left : graph.nodes[connection.source]? with
  | none =>
    rw [left] at added
    cases added
  | some from_ =>
    cases right : graph.nodes[connection.target]? with
    | none =>
      rw [left, right] at added
      cases added
    | some to_ =>
      rw [left, right] at added
      exact ⟨from_, to_, rfl, rfl, Except.ok.inj added⟩

/-- A request between nodes succeeds. -/
theorem exists_addEdge (joins : graph.Joins connection) : ∃ handle,
    graph.addEdge connection.source connection.target connection.kind connection.tag
      connection.properties = .ok (graph.connect connection, handle) := by
  unfold connect withEdge addEdge
  rw [Array.getElem?_eq_getElem joins.1, Array.getElem?_eq_getElem joins.2]
  exact ⟨_, rfl⟩

/-- The handle that adding an edge gives is that of an edge with its id. -/
theorem WellFormed.handle_addArc (formed : graph.WellFormed) (edge : Edge) : ∃ held,
    (graph.addArc edge).1.arcs[(graph.addArc edge).2]? = some held ∧ held.edge.id = edge.id := by
  unfold Graph.addArc
  cases found : graph.edgeIndex[edge.id]? with
  | some handle => exact (formed.edges_indexed edge.id handle).1 found
  | none => exact ⟨⟨edge.source, edge.target, edge⟩, by simp, rfl⟩

/-- An edge after one was added is an old one, or has the handle that was given. -/
theorem handle_of_addArc {edge : Edge}
    (found : (graph.addArc edge).1.arcs[handle]? = some arc) :
    graph.arcs[handle]? = some arc ∨ handle = (graph.addArc edge).2 := by
  unfold Graph.addArc at found ⊢
  cases stood : graph.edgeIndex[edge.id]? with
  | some handle =>
    rw [stood] at found
    exact .inl found
  | none =>
    rw [stood] at found
    simp only [Array.getElem?_push] at found
    split at found
    · next last => exact .inr last
    · exact .inl found

theorem Answered.kept (answered : graph.Answered request) (kept : graph.Kept after) :
    after.Answered request := by
  obtain ⟨arc, from_, to_, held, left, right, id⟩ := answered
  obtain ⟨from', left', same, -⟩ := kept.nodes _ _ left
  obtain ⟨to', right', same', -⟩ := kept.nodes _ _ right
  exact ⟨arc, from', to', kept.arcs _ _ held, left', right', by rw [same, same', id]⟩

/-- What one request does: it is answered, and adds no edge but the one that it is given. -/
theorem WellFormed.answered_addEdge (formed : graph.WellFormed)
    (added : graph.addEdge connection.source connection.target connection.kind connection.tag
      connection.properties = .ok (after, handle)) :
    after.WellFormed ∧ graph.Kept after ∧ after.Answered ⟨connection, handle⟩ ∧
      ∀ (given : Nat) (arc : Arc), after.arcs[given]? = some arc →
        graph.arcs[given]? = some arc ∨ given = handle := by
  obtain ⟨from_, to_, left, right, made⟩ := addEdge_eq_ok added
  obtain ⟨rfl, rfl⟩ := Prod.mk.inj made
  have kept := kept_addArc graph (connection.edge from_ to_)
  obtain ⟨held, found, id⟩ := formed.handle_addArc (connection.edge from_ to_)
  obtain ⟨from', left', same, -⟩ := kept.nodes _ _ left
  obtain ⟨to', right', same', -⟩ := kept.nodes _ _ right
  have named : edgeId connection.kind from'.id to'.id connection.tag =
      (connection.edge from_ to_).id := by rw [same, same']; rfl
  exact ⟨formed.addArc ⟨from_, to_, connection.tag, left, right, rfl⟩, kept,
    ⟨held, from', to', found, left', right', id.trans named.symm⟩, fun _ _ => handle_of_addArc⟩

/-! ## All requests -/

namespace Logged

/-- The requests that led to a graph are answered by it, and all its edges were asked for. -/
theorem answered (logged : Logged requests graph) : graph.WellFormed ∧
    (∀ request ∈ requests, graph.Answered request) ∧
      ∀ (handle : Nat) (arc : Arc), graph.arcs[handle]? = some arc →
        ∃ request ∈ requests, request.handle = handle := by
  induction logged with
  | start => exact ⟨wellFormed_empty, by simp, by simp⟩
  | @node requests graph node _ ih =>
    obtain ⟨formed, answers, asked⟩ := ih
    have same : (graph.addNode node).1.arcs = graph.arcs := by
      unfold Graph.addNode
      split <;> rfl
    refine ⟨formed.addNode node, fun request there => ?_, same ▸ asked⟩
    exact (answers request there).kept (WellFormed.kept_addNode graph node)
  | edge connection _ added ih =>
    obtain ⟨formed, answers, asked⟩ := ih
    obtain ⟨formed', kept, answered, old⟩ := formed.answered_addEdge added
    refine ⟨formed', fun request there => ?_, fun handle arc found => ?_⟩
    · rcases List.mem_append.1 there with earlier | last
      · exact (answers request earlier).kept kept
      · exact List.mem_singleton.1 last ▸ answered
    · rcases old handle arc found with stood | rfl
      · obtain ⟨request, there, same⟩ := asked handle arc stood
        exact ⟨request, List.mem_append_left _ there, same⟩
      · exact ⟨_, List.mem_append_right _ List.mem_cons_self, rfl⟩
  | property handle key value _ ih =>
    obtain ⟨formed, answers, asked⟩ := ih
    exact ⟨formed.setProperty handle key value,
      fun request there => (answers request there).kept (WellFormed.kept_setProperty _ _ _ _), asked⟩
  | file file _ ih => exact ⟨ih.1.addFile file, ih.2⟩
  | stamp instant _ ih => exact ⟨ih.1.relabelled _ _, ih.2⟩

/-- Where a list of connections is added, each of them is a request. -/
theorem connectAll (logged : Logged requests graph) {connections : List Connection}
    (joins : ∀ connection ∈ connections, graph.Joins connection) : ∃ more,
      Logged (requests ++ more) (graph.connectAll connections) ∧
        more.map Request.connection = connections := by
  induction connections generalizing requests graph with
  | nil => exact ⟨[], (List.append_nil requests).symm ▸ logged, rfl⟩
  | cons connection rest ih =>
    obtain ⟨handle, added⟩ := exists_addEdge (joins connection List.mem_cons_self)
    have still : ∀ other ∈ rest, (graph.connect connection).Joins other := fun other there =>
      (joins other (List.mem_cons_of_mem _ there)).of_size
        (congrArg Array.size (nodes_withEdge _ _ _ _ _ _))
    obtain ⟨more, further, asked⟩ := ih (logged.edge connection added) still
    refine ⟨⟨connection, handle⟩ :: more, ?_, congrArg _ asked⟩
    rw [List.append_cons]
    exact further

end Logged

/-! ## Edges that tell their parts -/

/-- An answer has the kind and the ends that were asked for, where ids tell them. -/
theorem Answered.fulfils (answered : graph.Answered request) (formed : graph.WellFormed)
    (tells : graph.TellsEdges) : ∃ arc, graph.arcs[request.handle]? = some arc ∧
      graph.Fulfils arc request.connection := by
  obtain ⟨arc, from_, to_, held, left, right, id⟩ := answered
  obtain ⟨start, goal, tag, left', right', id'⟩ := formed.named _ arc held
  obtain ⟨first, second⟩ := formed.ends _ arc held
  obtain ⟨kinds, sources, targets, -⟩ :=
    tells _ _ _ _ _ _ _ _ _ _ _ _ left' right' left right (id'.symm.trans id)
  exact ⟨arc, held, kinds, ⟨sources, first.trans sources⟩, ⟨targets, second.trans targets⟩,
    from_, to_, left, right, id⟩

/-- Two requests are given one edge just when they have the same kind, ends and tag, where ids tell
them. -/
theorem Answered.handle_eq_iff (answered : graph.Answered request) (answered' : graph.Answered other)
    (formed : graph.WellFormed) (tells : graph.TellsEdges) :
    request.handle = other.handle ↔ request.connection.kind = other.connection.kind ∧
      request.connection.source = other.connection.source ∧
      request.connection.target = other.connection.target ∧
      request.connection.tag = other.connection.tag := by
  obtain ⟨arc, from_, to_, held, left, right, id⟩ := answered
  obtain ⟨arc', from', to', held', left', right', id'⟩ := answered'
  constructor
  · intro same
    rw [same, held'] at held
    obtain rfl := Option.some.inj held
    exact tells _ _ _ _ _ _ _ _ _ _ _ _ left right left' right' (id.symm.trans id')
  · rintro ⟨kinds, sources, targets, tags⟩
    rw [sources, left'] at left
    rw [targets, right'] at right
    obtain rfl := Option.some.inj left
    obtain rfl := Option.some.inj right
    rw [kinds, tags] at id
    -- The index leads from the common id to both handles.
    have first := (formed.edges_indexed _ _).2 ⟨arc, held, id⟩
    have second := (formed.edges_indexed _ _).2 ⟨arc', held', id'⟩
    exact Option.some.inj (first.symm.trans second)

end Graph

/-! ## The requests of a file -/

namespace Facts

open CodeGraph.Graph (Logged Request)

variable {file : SourceFile} {base facts : Facts} {outer : Context} {adds : Bool}

/-- The walk has asked for edges of containment only, and was given them. -/
def Walked (facts : Facts) : Prop :=
  ∃ requests, Logged requests facts.graph ∧
    ∀ request ∈ requests, request.connection.kind = .child ∧ request.connection.tag = none

theorem Walked.place (walked : facts.Walked) (node : Node) (parent : Option Nat)
    (there : ∀ handle, parent = some handle → handle < facts.graph.nodes.size) :
    (facts.place node parent).1.Walked := by
  obtain ⟨requests, logged, only⟩ := walked
  have added := logged.node node
  obtain ⟨held, found, -⟩ := logged.answered.1.handle_addNode node
  unfold Facts.place
  cases parent with
  | none => exact ⟨requests, added, only⟩
  | some container =>
    simp only
    split
    · exact ⟨requests, added, only⟩
    · have joins : (facts.graph.addNode node).1.Joins
          ⟨container, (facts.graph.addNode node).2, .child, none, {}⟩ :=
        ⟨Nat.lt_of_lt_of_le (there container rfl) (Graph.WellFormed.kept_addNode _ _).size_le,
          (Array.getElem?_eq_some_iff.1 found).1⟩
      obtain ⟨handle, asked⟩ := Graph.exists_addEdge joins
      refine ⟨_, added.edge _ asked, fun request inside => ?_⟩
      rcases List.mem_append.1 inside with earlier | last
      · exact only request earlier
      · obtain rfl := List.mem_singleton.1 last
        exact ⟨rfl, rfl⟩

/-- The operations of the walk ask for no other edges. -/
theorem Makes.walked (made : Makes file base outer adds facts) (walked : base.Walked) :
    facts.Walked := by
  induction made with
  | start => exact walked
  | place node parent _ _ _ there ih => exact ih.place node parent there
  | enterFunction cursor context hint isMethod _ known _ ih =>
    rw [Walked, graph_enterFunction]
    exact ih.place _ _ known.parent
  | enterCall cursor context _ known _ _ _ ih => exact ih.place _ _ known.parent
  | pushStatement context site kind _ _ _ _ _ ih => rwa [Walked, graph_pushStatement]
  | pushArm context statement role _ _ _ _ _ ih => rwa [pushArm_eq]
  | recordReturn function site _ _ ih => rwa [Walked, graph_recordReturn]
  -- All other operations leave the graph as it is.
  | _ => assumption

/-- At every moment the walk has asked for edges of containment only. -/
theorem Visits.walked {tasks : List Task} (visits : Visits file facts tasks) : facts.Walked := by
  induction visits with
  | start => exact ⟨[], .start, by simp⟩
  | @step facts task rest before ih =>
    obtain ⟨sound, ready⟩ := before.sound
    obtain ⟨known, has⟩ := ready task List.mem_cons_self
    exact (proceeds_step sound known has).made.walked ih

theorem walked_of (file : SourceFile) : (Facts.of file).Walked := (Visits.last file).walked

/-- Where calls are linked, each of their edges is a request. -/
theorem logged_linkCalls (nameOf : Nat → String) {requests : List Request} {graph : Graph}
    (logged : Logged requests graph) {calls : List CallFact}
    (joins : ∀ call ∈ calls, ∀ connection ∈ facts.callEdges nameOf call, graph.Joins connection) :
    ∃ more, Logged (requests ++ more) (calls.foldl (facts.linkCall nameOf) graph) ∧
      more.map Request.connection = calls.flatMap (facts.callEdges nameOf) := by
  induction calls generalizing requests graph with
  | nil => exact ⟨[], (List.append_nil requests).symm ▸ logged, rfl⟩
  | cons call rest ih =>
    have marked := logged.property call.node "resolved" (.flag (facts.isResolved call))
    have here : ∀ connection ∈ facts.callEdges nameOf call,
        (graph.setProperty call.node "resolved" (.flag (facts.isResolved call))).Joins connection :=
      fun connection asked =>
        (joins call List.mem_cons_self connection asked).of_size (graph.size_setProperty _ _ _)
    have joins' : ∀ other ∈ rest, ∀ connection ∈ facts.callEdges nameOf other,
        (facts.linkCall nameOf graph call).Joins connection := fun other there connection asked =>
      (joins other (List.mem_cons_of_mem _ there) connection asked).of_size
        (facts.size_linkCall nameOf graph call)
    obtain ⟨first, linked, asked⟩ := marked.connectAll here
    obtain ⟨second, further, asked'⟩ := ih linked joins'
    refine ⟨first ++ second, ?_, by rw [List.map_append, asked, asked', List.flatMap_cons]⟩
    rw [← List.append_assoc]
    exact further

/-- The stages behind the walk ask for their connections, one after the other, and are given them. -/
theorem logged_assemble (sound : Sound file facts) {requests : List Request}
    (logged : Logged requests facts.graph) : ∃ more, Logged (requests ++ more) facts.assemble ∧
      more.map Request.connection = facts.connections := by
  obtain ⟨staged, logged, stagedAsked⟩ := logged.connectAll sound.joins_staged
  obtain ⟨calls, logged, callsAsked⟩ := logged_linkCalls facts.graph.nameOf logged
    fun call listed connection inside =>
      (sound.joins_callEdges listed facts.graph.nameOf connection inside).of_size
        (congrArg Array.size (Graph.nodes_connectAll _ _))
  refine ⟨staged ++ calls, ?_, ?_⟩
  · rw [assemble_eq, ← List.append_assoc]
    exact logged
  · rw [List.map_append, stagedAsked, callsAsked, connections_eq]

end Facts

namespace SourceFile

open CodeGraph.Graph (Logged Request)

/-- No edge of a file is taken for another. Ids of edges tell their kind, ends and tag, whatever stands in
the path of the file. Its graph is built by requests for edges: those of the walk, for containment, and
those of the stages behind it. Whatever requests have led to this graph, each was given an edge of the
kind and between the ends that it asked for, no edge is there unasked, and two of them were given one
edge just when they have the same kind, ends and tag. -/
theorem requests_exact (present : Instant) (file : SourceFile) :
    (Graph.ofFile present file).TellsEdges ∧
    (∃ walked staged, Logged walked (Facts.of file).graph ∧
      (∀ request ∈ walked, request.connection.kind = .child ∧ request.connection.tag = none) ∧
      Logged (walked ++ staged) (Graph.ofFile present file) ∧
      staged.map Request.connection = (Facts.of file).connections) ∧
    ∀ requests, Logged requests (Graph.ofFile present file) →
      (∀ request ∈ requests, ∃ arc, (Graph.ofFile present file).arcs[request.handle]? = some arc ∧
        (Graph.ofFile present file).Fulfils arc request.connection) ∧
      (∀ (handle : Nat) (arc : Arc), (Graph.ofFile present file).arcs[handle]? = some arc →
        ∃ request ∈ requests, request.handle = handle) ∧
      ∀ request ∈ requests, ∀ other ∈ requests, request.handle = other.handle ↔
        request.connection.kind = other.connection.kind ∧
          request.connection.source = other.connection.source ∧
          request.connection.target = other.connection.target ∧
          request.connection.tag = other.connection.tag := by
  have tells : (Graph.ofFile present file).TellsEdges :=
    Facts.tellsEdges_of_draws (Graph.wellFormed_ofFile present file) fun _ _ => Graph.draws_ofFile
  refine ⟨tells, ?_, ?_⟩
  · obtain ⟨walked, logged, only⟩ := Facts.walked_of file
    obtain ⟨staged, assembled, asked⟩ := Facts.logged_assemble (Facts.sound_of file) logged
    exact ⟨walked, staged, logged, only, (assembled.file file.path).stamp present, asked⟩
  · intro requests logged
    obtain ⟨formed, answers, covers⟩ := logged.answered
    exact ⟨fun request there => (answers request there).fulfils formed tells, covers,
      fun request there other there' =>
        (answers request there).handle_eq_iff (answers other there') formed tells⟩

end SourceFile

end CodeGraph

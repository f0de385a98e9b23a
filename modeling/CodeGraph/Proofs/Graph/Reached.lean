import CodeGraph.Proofs.Graph.WellFormed

/-!
# Reached graphs

The graphs that the operations of the library lead to, from the empty graph on. Every one of them is
well-formed, and no operation changes more of a node than its properties
(`Graph.Reached.representation`). The work left to do here is about unions: the table that goes with
a union renames nodes to nodes of the same ids (`Graph.Renames`).
-/

namespace CodeGraph

namespace Graph

/-! ## Unions -/

/-- A table gives for each node of a list the handle of a node with the same id. -/
def Renames (graph : Graph) (names : Array Nat) (nodes : List Node) : Prop :=
  names.size = nodes.length ∧ ∀ (i : Nat) (node : Node), nodes[i]? = some node →
    ∃ handle held, names[i]? = some handle ∧ graph.nodes[handle]? = some held ∧ held.id = node.id

theorem Renames.kept {before after : Graph} {names : Array Nat} {nodes : List Node}
    (renames : before.Renames names nodes) (kept : before.Kept after) :
    after.Renames names nodes := by
  refine ⟨renames.1, fun i node there => ?_⟩
  obtain ⟨handle, held, named, found, same⟩ := renames.2 i node there
  obtain ⟨later, found', same', -⟩ := kept.nodes handle held found
  exact ⟨handle, later, named, found', same'.trans same⟩

theorem Renames.push {graph : Graph} {names : Array Nat} {nodes : List Node} {node held : Node}
    {handle : Nat} (renames : graph.Renames names nodes)
    (found : graph.nodes[handle]? = some held) (same : held.id = node.id) :
    graph.Renames (names.push handle) (nodes ++ [node]) := by
  refine ⟨by simp [renames.1], fun i other there => ?_⟩
  rw [Array.getElem?_push]
  rw [List.getElem?_append] at there
  split at there
  · next old =>
    rw [if_neg (by rw [renames.1]; omega)]
    exact renames.2 i other there
  · next new =>
    rw [List.getElem?_singleton] at there
    split at there
    · next last =>
      obtain rfl := Option.some.inj there
      rw [if_pos (by rw [renames.1]; omega)]
      exact ⟨handle, held, rfl, found, same⟩
    · cases there

/-- Adding nodes gives a table of their handles. -/
theorem renames_addAll {graph : Graph} (formed : graph.WellFormed) (nodes : Array Node) :
    (graph.addAll nodes).1.WellFormed ∧ graph.Kept (graph.addAll nodes).1 ∧
      (graph.addAll nodes).1.Renames (graph.addAll nodes).2 nodes.toList := by
  have each : ∀ (rest done : List Node) (graph : Graph) (names : Array Nat), graph.WellFormed →
      graph.Renames names done →
      let united := rest.foldl (fun (entry : Graph × Array Nat) node =>
        ((entry.1.addNode node).1, entry.2.push (entry.1.addNode node).2)) (graph, names)
      united.1.WellFormed ∧ graph.Kept united.1 ∧ united.1.Renames united.2 (done ++ rest) := by
    intro rest
    induction rest with
    | nil =>
      intro done graph names formed renames
      rw [List.append_nil]
      exact ⟨formed, .refl graph, renames⟩
    | cons node rest ih =>
      intro done graph names formed renames
      have kept := WellFormed.kept_addNode graph node
      obtain ⟨held, found, same⟩ := formed.handle_addNode node
      obtain ⟨whole, further, table⟩ := ih (done ++ [node]) _ _ (formed.addNode node)
        ((renames.kept kept).push found same)
      rw [List.append_assoc] at table
      exact ⟨whole, kept.trans further, table⟩
  have none : graph.Renames #[] [] := ⟨rfl, by simp⟩
  rw [addAll, ← Array.foldl_toList]
  exact each nodes.toList [] graph #[] formed none

/-- An arc of a well-formed graph fits where its ends are renamed. -/
theorem WellFormed.addRenamed {graph other : Graph} (formed : graph.WellFormed)
    (otherFormed : other.WellFormed) {names : Array Nat}
    (renames : graph.Renames names other.nodes.toList) {handle : Nat} {arc : Arc}
    (held : other.arcs[handle]? = some arc) :
    (graph.addRenamed names arc).WellFormed ∧ graph.Kept (graph.addRenamed names arc) := by
  obtain ⟨source, target, tag, left, right, id⟩ := otherFormed.named handle arc held
  obtain ⟨from_, start, named, found, same⟩ := renames.2 arc.source source (by simpa using left)
  obtain ⟨to_, goal, named', found', same'⟩ := renames.2 arc.target target (by simpa using right)
  have fits : graph.Named ⟨from_, to_, { arc.edge with source := from_, target := to_ }⟩ :=
    ⟨start, goal, tag, found, found', by rw [same, same']; exact id⟩
  unfold Graph.addRenamed
  simp only [named, named']
  exact ⟨formed.addArc fits, WellFormed.kept_addArc graph _⟩

theorem WellFormed.absorb {graph other : Graph} (formed : graph.WellFormed)
    (otherFormed : other.WellFormed) :
    (graph.absorb other).1.WellFormed ∧ graph.Kept (graph.absorb other).1 := by
  obtain ⟨united, kept, renames⟩ := renames_addAll formed other.nodes
  have each : ∀ (arcs : List Arc) (graph : Graph) (names : Array Nat), graph.WellFormed →
      graph.Renames names other.nodes.toList →
      (∀ arc ∈ arcs, ∃ handle : Nat, other.arcs[handle]? = some arc) →
      (arcs.foldl (fun graph arc => graph.addRenamed names arc) graph).WellFormed ∧
        graph.Kept (arcs.foldl (fun graph arc => graph.addRenamed names arc) graph) := by
    intro arcs
    induction arcs with
    | nil => exact fun graph names formed _ _ => ⟨formed, .refl graph⟩
    | cons arc rest ih =>
      intro graph names formed renames inside
      obtain ⟨handle, held⟩ := inside arc List.mem_cons_self
      obtain ⟨whole, kept⟩ := formed.addRenamed otherFormed renames held
      obtain ⟨further, kept'⟩ := ih _ names whole (renames.kept kept)
        fun other there => inside other (List.mem_cons_of_mem _ there)
      exact ⟨further, kept.trans kept'⟩
  have arcs : ∀ arc ∈ other.arcs.toList, ∃ handle : Nat, other.arcs[handle]? = some arc := by
    intro arc there
    obtain ⟨handle, held⟩ := List.getElem?_of_mem there
    exact ⟨handle, by simpa using held⟩
  obtain ⟨joined, kept'⟩ := each other.arcs.toList _ (graph.addAll other.nodes).2 united renames arcs
  obtain ⟨whole, kept''⟩ := joined.addFiles other.files
  unfold Graph.absorb
  simp only
  rw [← Array.foldl_toList]
  exact ⟨whole, (kept.trans kept').trans kept''⟩

/-! ## Operations -/

/-- An operation on a graph. -/
inductive Operation where
  | addNode (node : Node)
  /-- Add an edge between two nodes of the graph. -/
  | addEdge (source target : Nat) (kind : EdgeKind) (tag : Option String) (properties : Properties)
  | addFile (file : Path)
  | setProperty (handle : Nat) (key : String) (value : PropertyValue)
  | setLanguage (language : String)
  | setCreated (instant : Instant)
  /-- Add everything that another graph holds. -/
  | absorb (other : Graph)
  | linkAcrossFiles

/-- What an operation makes of a graph. -/
def Operation.apply (graph : Graph) : Operation → Graph
  | addNode node => (graph.addNode node).1
  | addEdge source target kind tag properties => graph.withEdge source target kind tag properties
  | addFile file => graph.addFile file
  | setProperty handle key value => graph.setProperty handle key value
  | setLanguage language => { graph with language }
  | setCreated instant => graph.stamped instant
  | absorb other => (graph.absorb other).1
  | linkAcrossFiles => graph.linkAcrossFiles.1

/-- `Reached graph`: operations lead to `graph`.

* `start`: a new graph, made at some time.
* `step`: one more operation; a graph that is absorbed has been reached itself.
* `merge`: the union of graphs that have been reached. -/
inductive Reached : Graph → Prop
  | start (instant : Instant) : Reached (empty.stamped instant)
  | step {graph : Graph} (operation : Operation) : Reached graph →
      (∀ other, operation = .absorb other → Reached other) → Reached (operation.apply graph)
  | merge (present : Instant) (graphs : List Graph) : (∀ graph ∈ graphs, Reached graph) →
      Reached (merge present graphs)

theorem wellFormed_empty : empty.WellFormed := by
  refine ⟨?nodes_indexed, ?edges_indexed, ?ends, ?named, .nil, ?files_cover⟩
  case nodes_indexed => intro id handle; simp [empty]
  case edges_indexed => intro id handle; simp [empty]
  case ends => intro handle arc found; simp [empty] at found
  case named => intro handle arc found; simp [empty] at found
  case files_cover => intro handle node found; simp [empty] at found

/-- Only the metadata of a graph is left out of account. -/
theorem WellFormed.relabelled {graph : Graph} (formed : graph.WellFormed) (language : String)
    (created : Instant) : { graph with language, created }.WellFormed :=
  ⟨formed.nodes_indexed, formed.edges_indexed, formed.ends, formed.named, formed.files_sorted,
    formed.files_cover⟩

theorem wellFormed_merge (present : Instant) {graphs : List Graph}
    (all : ∀ graph ∈ graphs, graph.WellFormed) : (merge present graphs).WellFormed := by
  have each : ∀ (graphs : List Graph) (united : Graph), united.WellFormed →
      (∀ graph ∈ graphs, graph.WellFormed) →
      (graphs.foldl (fun united graph => (united.absorb graph).1) united).WellFormed := by
    intro graphs
    induction graphs with
    | nil => exact fun united formed _ => formed
    | cons graph rest ih =>
      intro united formed all
      exact ih _ (formed.absorb (all graph List.mem_cons_self)).1
        fun other there => all other (List.mem_cons_of_mem _ there)
  cases graphs with
  | nil => exact wellFormed_empty.relabelled _ present
  | cons first rest => exact (each _ _ wellFormed_empty all).relabelled _ _

/-- What an operation keeps of a well-formed graph. -/
theorem WellFormed.apply {graph : Graph} (formed : graph.WellFormed) (operation : Operation)
    (absorbed : ∀ other, operation = .absorb other → other.WellFormed) :
    (operation.apply graph).WellFormed ∧ graph.Kept (operation.apply graph) := by
  cases operation with
  | addNode node => exact ⟨formed.addNode node, kept_addNode graph node⟩
  | addEdge source target kind tag properties =>
    exact ⟨formed.withEdge _ _ _ _ _, kept_withEdge graph _ _ _ _ _⟩
  | addFile file => exact formed.addFiles [file]
  | setProperty handle key value =>
    exact ⟨formed.setProperty handle key value, kept_setProperty graph handle key value⟩
  | setLanguage language =>
    exact ⟨formed.relabelled language _, (Kept.refl graph).nodes, (Kept.refl graph).arcs⟩
  | setCreated instant =>
    exact ⟨formed.relabelled _ instant, (Kept.refl graph).nodes, (Kept.refl graph).arcs⟩
  | absorb other => exact formed.absorb (absorbed other rfl)
  | linkAcrossFiles => exact formed.linkAcrossFiles

theorem Reached.wellFormed {graph : Graph} (reached : graph.Reached) : graph.WellFormed := by
  induction reached with
  | start instant => exact wellFormed_empty.relabelled _ instant
  | step operation _ _ ih absorbed => exact (ih.apply operation absorbed).1
  | merge present graphs _ ih => exact wellFormed_merge present ih

/-- A graph that has been reached is well-formed, and a further operation changes nothing of what it
holds but properties of nodes. -/
theorem Reached.representation {graph : Graph} (reached : graph.Reached) :
    graph.WellFormed ∧ ∀ operation : Operation,
      (∀ other, operation = .absorb other → other.Reached) →
      graph.Kept (operation.apply graph) := by
  refine ⟨reached.wellFormed, fun operation absorbed => ?_⟩
  have formed : ∀ other, operation = .absorb other → other.WellFormed :=
    fun other same => (absorbed other same).wellFormed
  exact (reached.wellFormed.apply operation formed).2

/-- A function at some line, named and identified by the same text. -/
def functionAt (name : String) (line : Nat) : Node :=
  ⟨name, .func, some name, ⟨⟨"a.ts"⟩, line, 1⟩, {}⟩

/-- A function that calls itself. -/
def selfCaller : Graph :=
  let graph := Operation.apply (empty.stamped .epoch) (.addNode (functionAt "f" 1))
  Operation.apply graph (.addEdge 0 0 .call none {})

/-- The same function behind another one that calls it. -/
def outerCaller : Graph :=
  let graph := Operation.apply (empty.stamped .epoch) (.addNode (functionAt "g" 3))
  let graph := Operation.apply graph (.addNode (functionAt "f" 1))
  let graph := Operation.apply graph (.addEdge 1 1 .call none {})
  Operation.apply graph (.addEdge 0 1 .call none {})

theorem reached_selfCaller : selfCaller.Reached := by
  unfold selfCaller
  refine .step _ (.step _ (.start .epoch) ?_) ?_ <;>
  · intro other same
    cases same

theorem reached_outerCaller : outerCaller.Reached := by
  unfold outerCaller
  refine .step _ (.step _ (.step _ (.step _ (.start .epoch) ?_) ?_) ?_) ?_ <;>
  · intro other same
    cases same

/-- The two graphs have a function and an edge in common, under different handles: the union keeps those
of the first graph, and renumbers what is new. -/
theorem kept_outerCaller : selfCaller.Reached ∧ outerCaller.Reached ∧ selfCaller.WellFormed ∧
    selfCaller.Kept (selfCaller.absorb outerCaller).1 ∧
    (selfCaller.absorb outerCaller).1.nodes = #[functionAt "f" 1, functionAt "g" 3] ∧
    (selfCaller.absorb outerCaller).1.arcs =
      #[⟨0, 0, ⟨"call:f->f", .call, 0, 0, {}⟩⟩, ⟨1, 0, ⟨"call:g->f", .call, 1, 0, {}⟩⟩] ∧
    (selfCaller.absorb outerCaller).2 = #[1, 0] := by
  obtain ⟨formed, kept⟩ := reached_selfCaller.representation
  have union := kept (.absorb outerCaller) fun other same => by
    obtain rfl := Operation.absorb.inj same
    exact reached_outerCaller
  refine ⟨reached_selfCaller, reached_outerCaller, formed, union, ?_⟩
  simp [absorb, addAll, addRenamed, selfCaller, outerCaller, Operation.apply, withEdge, addEdge,
    addArc, Graph.addNode, empty, stamped, functionAt, edgeId, EdgeKind.name,
    WellFormed.addFiles_eq, Std.HashMap.getElem_insert]

/-- A function that a second one calls twice. A third one calls the second one and is called by the
first one, and a fourth one calls the third one. -/
def callRing : Graph :=
  let graph := Operation.apply (empty.stamped .epoch) (.addNode (functionAt "f" 1))
  let graph := Operation.apply graph (.addNode (functionAt "g" 2))
  let graph := Operation.apply graph (.addNode (functionAt "h" 3))
  let graph := Operation.apply graph (.addNode (functionAt "k" 4))
  let graph := Operation.apply graph (.addEdge 1 0 .call none {})
  let graph := Operation.apply graph (.addEdge 1 0 .call (some "again") {})
  let graph := Operation.apply graph (.addEdge 2 1 .call none {})
  let graph := Operation.apply graph (.addEdge 0 2 .call none {})
  Operation.apply graph (.addEdge 3 2 .call none {})

theorem reached_callRing : callRing.Reached := by
  unfold callRing
  refine .step _ (.step _ (.step _ (.step _ (.step _ (.step _ (.step _ (.step _ (.step _
    (.start .epoch) ?_) ?_) ?_) ?_) ?_) ?_) ?_) ?_) ?_ <;>
  · intro other same
    cases same

theorem nodes_callRing : callRing.nodes =
    #[functionAt "f" 1, functionAt "g" 2, functionAt "h" 3, functionAt "k" 4] := by
  simp [callRing, Operation.apply, nodes_withEdge, Graph.addNode, empty, stamped, functionAt]

theorem arcs_callRing : callRing.arcs =
    #[⟨1, 0, ⟨"call:g->f", .call, 1, 0, {}⟩⟩, ⟨1, 0, ⟨"call:g->f#again", .call, 1, 0, {}⟩⟩,
      ⟨2, 1, ⟨"call:h->g", .call, 2, 1, {}⟩⟩, ⟨0, 2, ⟨"call:f->h", .call, 0, 2, {}⟩⟩,
      ⟨3, 2, ⟨"call:k->h", .call, 3, 2, {}⟩⟩] := by
  simp [callRing, Operation.apply, withEdge, addEdge, addArc, Graph.addNode, empty, stamped,
    functionAt, edgeId, EdgeKind.name]

/-- A function that calls itself. -/
def recursion : Graph :=
  let function := Node.ofLocation .func (some "f") ⟨⟨"a.ts"⟩, 1, 1⟩
  Operation.apply (Operation.apply (empty.stamped .epoch) (.addNode function))
    (.addEdge 0 0 .call none {})

theorem reached_recursion : recursion.Reached := by
  unfold recursion
  refine .step _ (.step _ (.start .epoch) ?_) ?_
  · intro other same
    cases same
  · intro other same
    cases same

end Graph

end CodeGraph

import CodeGraph.Graph.Basic

/-!
# Union of graphs

`Graph.absorb` adds the nodes, edges and files of one graph to another: what has the same id is the
same, all else is new. `Graph.merge` is the union of any number of graphs, made at the latest of
their times and in the language of the first.
-/

namespace CodeGraph

namespace Graph

/-- Add the nodes of an array, and give the handle of each. -/
def addAll (graph : Graph) (nodes : Array Node) : Graph × Array Nat :=
  nodes.foldl
    (fun (graph, handles) node =>
      let (graph, handle) := graph.addNode node
      (graph, handles.push handle))
    (graph, #[])

/-- Add an arc of another graph, its ends renamed by a table of handles. -/
def addRenamed (graph : Graph) (names : Array Nat) (arc : Arc) : Graph :=
  match names[arc.source]?, names[arc.target]? with
  | some source, some target => (graph.addArc { arc.edge with source, target }).1
  | _, _ => graph

/-- Add everything that another graph holds. The table gives the new handle of each of its nodes. -/
def absorb (graph other : Graph) : Graph × Array Nat :=
  let (graph, names) := graph.addAll other.nodes
  let graph := other.arcs.foldl (fun graph arc => graph.addRenamed names arc) graph
  (other.files.foldl addFile graph, names)

/-- The union of graphs; of no graphs, the empty graph made at the present. -/
def merge (present : Instant) : List Graph → Graph
  | [] => empty.stamped present
  | first :: rest =>
    let united := (first :: rest).foldl (fun united graph => (united.absorb graph).1) empty
    { united with
      language := first.language
      created := rest.foldl (fun latest graph => latest.latest graph.created) first.created }

end Graph

end CodeGraph

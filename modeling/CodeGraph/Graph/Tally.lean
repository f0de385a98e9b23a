import CodeGraph.Graph.Basic

/-!
# Counts

How many nodes, edges and files a graph has, and how many nodes and edges of each kind.
-/

namespace CodeGraph

/-- The counts of a graph. A kind that does not occur has no entry. -/
structure Tally where
  nodes : Nat
  edges : Nat
  files : Nat
  nodesByKind : List (NodeKind × Nat)
  edgesByKind : List (EdgeKind × Nat)
deriving DecidableEq, Repr

/-- How often each of the given kinds occurs, for those that do. -/
def occurrences {α : Type} [BEq α] (kinds found : List α) : List (α × Nat) :=
  (kinds.map fun kind => (kind, found.count kind)).filter fun entry => entry.2 != 0

/-- The counts of a graph. -/
def Graph.tally (graph : Graph) : Tally where
  nodes := graph.nodes.size
  edges := graph.arcs.size
  files := graph.files.length
  nodesByKind := occurrences NodeKind.all (graph.nodes.toList.map Node.kind)
  edgesByKind := occurrences EdgeKind.all (graph.edges.map Edge.kind)

/-- The number of nodes of a kind. -/
def Tally.nodesOf (tally : Tally) (kind : NodeKind) : Nat :=
  (tally.nodesByKind.lookup kind).getD 0

/-- The number of edges of a kind. -/
def Tally.edgesOf (tally : Tally) (kind : EdgeKind) : Nat :=
  (tally.edgesByKind.lookup kind).getD 0

end CodeGraph

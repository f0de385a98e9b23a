import CodeGraph.Graph.Basic

/-!
# Connections

A connection is an edge that a stage asks for, before it has an id. The stages that look at control
flow, data flow and calls only list connections; putting them into the graph is one operation for
all of them.
-/

namespace CodeGraph

/-- An edge to be added: its ends, kind, tag and properties. -/
structure Connection where
  source : Nat
  target : Nat
  kind : EdgeKind
  tag : Option String := none
  properties : Properties := {}
deriving DecidableEq, Repr

namespace Graph

/-- The graph with the edge that a connection asks for. -/
def connect (graph : Graph) (connection : Connection) : Graph :=
  graph.withEdge connection.source connection.target connection.kind connection.tag
    connection.properties

/-- The graph with the edges that a list of connections asks for. -/
def connectAll (graph : Graph) (connections : List Connection) : Graph :=
  connections.foldl connect graph

/-- The name of a node, empty if it has none. -/
def nameOf (graph : Graph) (handle : Nat) : String :=
  (graph.nodes[handle]?.bind Node.name).getD ""

end Graph

end CodeGraph

import CodeGraph.Graph.Basic

/-!
# Containment

The parent of a node is the source of the latest containment edge that enters it. The parents of all
nodes are read off the edges in one pass (`Graph.parents`); the nearest enclosing function is found
by climbing parents, at most once a node, so that a cycle of containment edges ends the climb.
-/

namespace CodeGraph

namespace Graph

/-- The parent of every node, by handle. -/
def parents (graph : Graph) : Array (Option Nat) :=
  graph.arcs.foldl
    (fun parents arc =>
      if arc.edge.kind = .child then parents.modify arc.target fun _ => some arc.edge.source
      else parents)
    (Array.replicate graph.nodes.size none)

/-- The node that contains a node. -/
def parent? (graph : Graph) (handle : Nat) : Option Nat :=
  graph.parents[handle]?.join

/-- The nodes that a node contains, in the order in which they were put there. -/
def children (graph : Graph) (handle : Nat) : List Nat :=
  (graph.arcs.toList.filter fun arc => arc.source == handle && arc.edge.kind == .child).map
    Arc.target

/-- Whether a handle is that of a node of a kind. -/
def hasKind (graph : Graph) (handle : Nat) (kind : NodeKind) : Bool :=
  (graph.nodes[handle]?.map Node.kind) == some kind

/-- The first function at or above a node, looking at no more than `steps` nodes. -/
def climb (graph : Graph) (parents : Array (Option Nat)) : Nat → Option Nat → Option Nat
  | 0, _ => none
  | _ + 1, none => none
  | steps + 1, some handle =>
    if graph.hasKind handle .func then some handle
    else graph.climb parents steps (parents[handle]?.join)

/-- The nearest function around a node, with the parents at hand. -/
def functionAround (graph : Graph) (parents : Array (Option Nat)) (handle : Nat) : Option Nat :=
  graph.climb parents graph.nodes.size (parents[handle]?.join)

/-- The nearest function around a node. -/
def enclosingFunction? (graph : Graph) (handle : Nat) : Option Nat :=
  graph.functionAround graph.parents handle

end Graph

end CodeGraph

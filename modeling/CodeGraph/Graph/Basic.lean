import Std.Data.HashMap
import CodeGraph.Path
import CodeGraph.Graph.Kind
import CodeGraph.Graph.Property
import CodeGraph.Time.Instant

/-!
# The graph

A graph holds nodes and edges in the order in which they were added; a node or an edge is named by
its number in that order, its *handle*, and by its text *id*. Adding an id that the graph has
already gives the handle of what is there. So graphs of different files can be united by adding the
nodes and edges of one to the other.

An edge carries its own record of its two ends beside the ends under which the graph holds it
(`Arc`). The operations of this library keep the two equal; a graph that was read from text may hold
them apart, and then look-ups by node go by the arc.
-/

namespace CodeGraph

/-- Where a node starts: its file, and line and column from one. -/
structure Location where
  file : Path
  line : Nat
  column : Nat
deriving DecidableEq, Repr, Inhabited

/-- A node: one unit of a program. -/
structure Node where
  id : String
  kind : NodeKind
  name : Option String
  location : Location
  properties : Properties := {}
deriving DecidableEq, Repr, Inhabited

namespace Node

/-- The id of a node that is given none: its file, kind, line and column. -/
def defaultId (kind : NodeKind) (location : Location) : String :=
  location.file.text ++ ":" ++ kind.name ++ ":" ++ toString location.line ++ ":"
    ++ toString location.column

/-- A node without properties under its default id. -/
def ofLocation (kind : NodeKind) (name : Option String) (location : Location) : Node :=
  { id := defaultId kind location, kind, name, location }

/-- The node with one property set. -/
def set (node : Node) (key : String) (value : PropertyValue) : Node :=
  { node with properties := node.properties.insert key value }

end Node

/-- An edge, with the handles of its two ends. -/
structure Edge where
  id : String
  kind : EdgeKind
  source : Nat
  target : Nat
  properties : Properties := {}
deriving DecidableEq, Repr, Inhabited

/-- An edge in its place: the two nodes under which the graph holds it, and the edge. -/
structure Arc where
  source : Nat
  target : Nat
  edge : Edge
deriving DecidableEq, Repr, Inhabited

/-- The language of a graph that is given none. -/
def defaultLanguage : String := "typescript"

/-- A graph with its two indexes and its metadata. -/
structure Graph where
  nodes : Array Node := #[]
  arcs : Array Arc := #[]
  /-- The handle of each node id. -/
  nodeIndex : Std.HashMap String Nat := {}
  /-- The handle of each edge id. -/
  edgeIndex : Std.HashMap String Nat := {}
  /-- The files that the graph is of, sorted, each once. -/
  files : List Path := []
  language : String := defaultLanguage
  /-- When the graph was made. -/
  created : Instant := .epoch

/-- A handle that the graph did not issue. -/
structure UnissuedHandle where
  handle : Nat
deriving DecidableEq, Repr

namespace Graph

/-- The graph without nodes. -/
def empty : Graph := {}

/-- The graph, made at a given time. -/
def stamped (graph : Graph) (instant : Instant) : Graph := { graph with created := instant }

/-- The node of a handle. -/
def node? (graph : Graph) (handle : Nat) : Option Node := graph.nodes[handle]?

/-- The handle of a node id. -/
def nodeById? (graph : Graph) (id : String) : Option Nat := graph.nodeIndex[id]?

/-- The edge of an edge id. -/
def edgeById? (graph : Graph) (id : String) : Option Edge :=
  graph.edgeIndex[id]?.bind fun handle => graph.arcs[handle]?.map Arc.edge

/-- The edges, in the order in which they were added. -/
def edges (graph : Graph) : List Edge := graph.arcs.toList.map Arc.edge

/-- Record that the graph is also of a file. -/
def addFile (graph : Graph) (file : Path) : Graph :=
  { graph with files := file.insert graph.files }

/-- Add a node, or find the node that has its id. -/
def addNode (graph : Graph) (node : Node) : Graph × Nat :=
  match graph.nodeIndex[node.id]? with
  | some handle => (graph, handle)
  | none =>
    let handle := graph.nodes.size
    ({ graph with
        nodes := graph.nodes.push node
        nodeIndex := graph.nodeIndex.insert node.id handle
        files := node.location.file.insert graph.files },
     handle)

/-- The id of an edge: its kind, the ids of its two ends, and a tag that tells parallel edges of one
kind apart. -/
def edgeId (kind : EdgeKind) (source target : String) (tag : Option String) : String :=
  kind.name ++ ":" ++ source ++ "->" ++ target ++
    match tag with
    | some text => "#" ++ text
    | none => ""

/-- Add an edge under given ends, or find the edge that has its id. -/
def addArc (graph : Graph) (edge : Edge) : Graph × Nat :=
  match graph.edgeIndex[edge.id]? with
  | some handle => (graph, handle)
  | none =>
    let handle := graph.arcs.size
    ({ graph with
        arcs := graph.arcs.push ⟨edge.source, edge.target, edge⟩
        edgeIndex := graph.edgeIndex.insert edge.id handle },
     handle)

/-- Add an edge between two nodes, or find the edge that has its id. Both ends have to be handles of
the graph. -/
def addEdge (graph : Graph) (source target : Nat) (kind : EdgeKind) (tag : Option String)
    (properties : Properties) : Except UnissuedHandle (Graph × Nat) :=
  match graph.nodes[source]?, graph.nodes[target]? with
  | some from_, some to_ =>
    .ok (graph.addArc
      { id := edgeId kind from_.id to_.id tag, kind, source, target, properties })
  | none, _ => .error ⟨source⟩
  | _, none => .error ⟨target⟩

/-- The graph with an edge between two of its nodes; nothing changes for handles of another
graph. -/
def withEdge (graph : Graph) (source target : Nat) (kind : EdgeKind)
    (tag : Option String := none) (properties : Properties := {}) : Graph :=
  match graph.addEdge source target kind tag properties with
  | .ok (extended, _) => extended
  | .error _ => graph

/-- Set a property of a node, if there is such a node. -/
def setProperty (graph : Graph) (handle : Nat) (key : String) (value : PropertyValue) : Graph :=
  { graph with nodes := graph.nodes.modify handle fun node => node.set key value }

/-- The handles of the nodes of a kind, in order. -/
def nodesOfKind (graph : Graph) (kind : NodeKind) : List Nat :=
  (List.range graph.nodes.size).filter fun handle =>
    (graph.nodes[handle]?.map Node.kind) == some kind

/-- The edges that leave a node, the latest first. -/
def edgesFrom (graph : Graph) (handle : Nat) : List Edge :=
  graph.arcs.foldl
    (fun found arc => if arc.source = handle then arc.edge :: found else found) []

/-- The edges that enter a node, the latest first. -/
def edgesTo (graph : Graph) (handle : Nat) : List Edge :=
  graph.arcs.foldl
    (fun found arc => if arc.target = handle then arc.edge :: found else found) []

/-- Whether a graph has neither nodes nor edges. -/
def isEmpty (graph : Graph) : Bool := graph.nodes.isEmpty && graph.arcs.isEmpty

end Graph

end CodeGraph

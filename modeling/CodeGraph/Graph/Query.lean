import CodeGraph.Graph.Basic

/-!
# Queries

A query keeps nodes by kind and by a text in their name, and edges by kind; on request it also
lists paths. The paths start at the nodes that were kept, follow the edges that are kept, visit no
node twice, and come shorter ones first, every path before its extensions. Their number is capped:
the search stops extending as soon as enough paths are waiting (`Graph.trails`).
-/

namespace CodeGraph

/-- How many paths a query lists at most, unless it is told otherwise. -/
def defaultMaxPaths : Nat := 10000

/-- What to look for. A part that is absent restricts nothing. -/
structure Query where
  nodeKinds : Option (List NodeKind) := none
  edgeKinds : Option (List EdgeKind) := none
  /-- A text that the name of a node has to contain. -/
  pattern : Option String := none
  /-- The number of edges that a path may have; no paths are listed without it. -/
  maxDepth : Option Nat := none
deriving DecidableEq, Repr, Inhabited

/-- The kinds of a list of names; no kind at all if any name is unknown. -/
def allKinds {α : Type} (ofName? : String → Option α) (names : List String) : List α :=
  (names.mapM ofName?).getD []

/-- Whether a text occurs in another. -/
def occursIn (part : List Char) : List Char → Bool
  | [] => part.isEmpty
  | c :: rest => part.isPrefixOf (c :: rest) || occursIn part rest

namespace Query

/-- A query by names of kinds. A filter that holds an unknown name matches nothing. -/
def ofNames (nodeKinds edgeKinds : Option (List String)) : Query where
  nodeKinds := nodeKinds.map (allKinds NodeKind.ofName?)
  edgeKinds := edgeKinds.map (allKinds EdgeKind.ofName?)

/-- Whether a query keeps a node. -/
def acceptsNode (query : Query) (node : Node) : Bool :=
  (query.nodeKinds.all fun kinds => kinds.contains node.kind) &&
    query.pattern.all fun pattern =>
      node.name.any fun name => occursIn pattern.toList name.toList

/-- Whether a query keeps an edge. -/
def acceptsEdge (query : Query) (edge : Edge) : Bool :=
  query.edgeKinds.all fun kinds => kinds.contains edge.kind

end Query

/-- What a query finds. -/
structure QueryResult where
  nodes : List Node
  edges : List Edge
  /-- Paths as the handles of their nodes. -/
  paths : Option (List (List Nat))
deriving DecidableEq, Repr

/-- Whether a query found neither nodes nor edges. -/
def QueryResult.isEmpty (result : QueryResult) : Bool :=
  result.nodes.isEmpty && result.edges.isEmpty

namespace Graph

/-- The handles of the nodes that a query keeps. -/
def matches? (graph : Graph) (query : Query) : List Nat :=
  (List.range graph.nodes.size).filter fun handle => graph.nodes[handle]?.any query.acceptsNode

/-- The paths that are one edge longer than a given one. A path is a list of handles, the last node
first. -/
def extensions (graph : Graph) (query : Query) : List Nat → List (List Nat)
  | [] => []
  | last :: before =>
    let targets := ((graph.edgesFrom last).filter query.acceptsEdge).map Edge.target
    let fresh := targets.filter fun target => !(last :: before).contains target
    fresh.eraseDups.map fun target => target :: last :: before

/-- Extend the paths found, in the order in which they were found, until `remaining` have been
looked at. No more are added once one more than `limit` is there. -/
def trails (graph : Graph) (query : Query) (maxDepth limit : Nat) (remaining next : Nat)
    (found : Array (List Nat)) : Array (List Nat) :=
  match remaining with
  | 0 => found
  | remaining + 1 =>
    match found[next]? with
    | none => found
    | some trail =>
      let longer := if trail.length ≤ maxDepth then graph.extensions query trail else []
      -- The path at hand does not count as waiting, so there is room for one more than `limit`.
      graph.trails query maxDepth limit remaining (next + 1)
        (found ++ longer.take (limit + 1 - found.size))

/-- The paths from given nodes, at most `limit` of them. -/
def paths (graph : Graph) (query : Query) (maxDepth limit : Nat) (seeds : List Nat) :
    List (List Nat) :=
  let found := graph.trails query maxDepth limit limit 0 (seeds.map ([·])).toArray
  (found.toList.take limit).map List.reverse

/-- What a query finds, with at most `limit` paths. -/
def run (graph : Graph) (query : Query) (limit : Nat := defaultMaxPaths) : QueryResult :=
  let kept := graph.matches? query
  { nodes := kept.filterMap graph.node?
    edges := graph.edges.filter query.acceptsEdge
    paths := query.maxDepth.map fun maxDepth => graph.paths query maxDepth limit kept }

end Graph

end CodeGraph

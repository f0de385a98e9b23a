import CodeGraph.Graph.Basic

/-!
# Callers and data flow by name

The functions that call a function of a given name, at once or through others, and the edges that
concern the variables of a given name. Callers are found in rounds: those one call away, then those
two calls away, and so on, each function once (`Graph.callersAround`).
-/

namespace CodeGraph

namespace Graph

/-- The functions of a name. -/
def functionsNamed (graph : Graph) (name : String) : List Nat :=
  (graph.nodesOfKind .func).filter fun handle =>
    graph.nodes[handle]?.bind Node.name == some name

/-- The functions that call a function, the latest call first. -/
def callersOf (graph : Graph) (handle : Nat) : List Nat :=
  ((graph.edgesTo handle).filter fun edge => edge.kind == .call).map Edge.source

/-- The functions that call a function of a name, each once. -/
def findCallers (graph : Graph) (name : String) : List Node :=
  ((graph.functionsNamed name).flatMap graph.callersOf).eraseDups.filterMap graph.node?

/-- The functions found in a number of rounds, given those found in the last round and all found so
far. -/
def callersAround (graph : Graph) (rounds : Nat) (frontier seen : List Nat) : List Nat :=
  match rounds with
  | 0 => []
  | rounds + 1 =>
    let fresh := ((frontier.flatMap graph.callersOf).filter fun handle =>
      !seen.contains handle).eraseDups
    if fresh.isEmpty then []
    else fresh ++ graph.callersAround rounds fresh (seen ++ fresh)

/-- The functions that call a function of a name in at most `maxDepth` calls, or in any number. A
round finds somebody new or is the last, and nobody is found but at a call, so there are no more
rounds than edges. -/
def transitiveCallers (graph : Graph) (name : String) (maxDepth : Option Nat) : List Node :=
  let seeds := graph.functionsNamed name
  let rounds := maxDepth.getD graph.arcs.size
  (graph.callersAround rounds seeds seeds).filterMap graph.node?

/-- The definitions, uses and def-use edges that touch a variable or parameter of a name, and the
def-use edges that track a variable of that name. -/
def findDataFlow (graph : Graph) (name : String) : List Edge :=
  let bindings := (List.range graph.nodes.size).filter fun handle =>
    graph.nodes[handle]?.any fun node => node.kind.isBinding && node.name == some name
  if bindings.isEmpty then []
  else
    (graph.edges.filter fun edge => edge.kind.isDependency).filter fun edge =>
      bindings.contains edge.source || bindings.contains edge.target
        || (edge.kind == .flow && edge.properties.text? "variable" == some name)

end Graph

end CodeGraph

import CodeGraph.Build
import CodeGraph.Checked.Control
import CodeGraph.Checked.Walk

/-!
# Building by numbers that have entries

The stages behind the walk, as in `Graph.ofFile` and `Graph.ofFiles`, with every number looked up: names
in their scopes (`Checked.resolveNames`), control flow, data flow and calls between nodes of the graph
(`Checked.assemble`), then the union of graphs and the calls between files (`Checked.ofFiles`).
-/

namespace CodeGraph

namespace Checked

/-! ## Names -/

/-- The access with its name looked up. -/
def resolveAccess (scopes : Scopes) (access : Access) : Except Missing (Option Access) := do
  match access.binding with
  | .node _ => return some access
  | .name text scope =>
    let found ← resolveVariable scopes scope text
    return found.map fun handle => { access with binding := .node handle }

/-- The region with its names looked up. -/
def resolveRegion (scopes : Scopes) (region : Region) : Except Missing Region := do
  let entry ← region.entryAccesses.toList.mapM (resolveAccess scopes)
  let each ← region.accesses.toList.mapM fun list => list.toList.mapM (resolveAccess scopes)
  return { region with
    entryAccesses := entry.reduceOption.toArray
    accesses := (each.map fun list => list.reduceOption.toArray).toArray }

/-- The facts with all names looked up. -/
def resolveNames (facts : Facts) : Except Missing Facts := do
  let regions ← facts.regions.toList.mapM (resolveRegion facts.scopes)
  return { facts with regions := regions.toArray }

/-! ## Calls within a file -/

/-- The methods of a list of classes that have a name. -/
def methodsNamed (facts : Facts) (classes : List ClassFact) (name : String) :
    Except Missing (List Nat) := do
  let methods := classes.flatMap fun fact => fact.methods.toList
  methods.forM fun method => require? .functions facts.functions facts.functionIndex[method]?
  return methods.filter (facts.isNamed name)

/-- The functions that a call may reach. -/
def candidates (facts : Facts) (call : CallFact) : Except Missing (List Nat) := do
  match call.callee with
  | .function name =>
    match ← resolveFunction facts.scopes call.scope name with
    | some function => return [function]
    | none =>
      return (facts.functions.toList.filter fun fact =>
        !fact.isMethod && fact.name == some name).map FunctionFact.node
  | .method _ name => methodsNamed facts facts.classes.toList name
  | .constructor name =>
    methodsNamed facts (facts.classes.toList.filter fun fact => fact.name == some name)
      "constructor"
  | .dynamic => return []

/-- What a function offers to calls. -/
def target? (facts : Facts) (node : Nat) : Except Missing (Option CallTarget) := do
  match facts.functionIndex[node]? with
  | none => return none
  | some number =>
    let fact ← entry .functions facts.functions number
    return some
      { node := fact.node, params := fact.params.toList, returns := fact.returns.toList }

/-- Record of one call whether it reaches anything, and add its edges. -/
def linkCall (facts : Facts) (nameOf : Nat → String) (graph : Graph) (call : CallFact) :
    Except Missing Graph := do
  let reached ← candidates facts call
  require .nodes graph.nodes call.node
  let marked := graph.setProperty call.node "resolved" (.flag !reached.isEmpty)
  let targets ← reached.mapM (target? facts)
  connectAll marked (targets.reduceOption.flatMap fun target =>
    (Facts.siteOf call).edges nameOf target)

/-! ## The graph of a file -/

/-- The graph of a file, before its path is recorded. -/
def assemble (facts : Facts) : Except Missing Graph := do
  let regions := facts.regions.toList
  let controls ← regions.mapM fun region => control region.skeleton
  let transfers ← (regions.zip controls).mapM fun (region, control) => links region control
  let controlled ←
    connectAll facts.graph (transfers.flatten.flatMap Control.Link.connections)
  let flowing ←
    connectAll controlled (DataFlow.edges facts.graph.nameOf facts.region? regions controls)
  let carrying ← connectAll flowing (facts.calls.toList.flatMap Facts.consumerEdge)
  facts.calls.toList.foldlM (linkCall facts facts.graph.nameOf) carrying

/-- The graph of a file by what the walk over it has made. -/
def ofWalk (present : Instant) (file : SourceFile) (facts : Facts) : Except Missing Graph := do
  let resolved ← resolveNames facts
  let graph ← assemble resolved
  return (graph.addFile file.path).stamped present

/-! ## Calls between files -/

/-- The first function at or above a node, looking at no more than `steps` nodes. -/
def climb (graph : Graph) (parents : Array (Option Nat)) :
    Nat → Option Nat → Except Missing (Option Nat)
  | 0, _ => .ok none
  | _ + 1, none => .ok none
  | steps + 1, some handle => do
    let node ← entry .nodes graph.nodes handle
    if node.kind = .func then return some handle
    else climb graph parents steps (parents[handle]?.join)

/-- The nearest function around a node. -/
def functionAround (graph : Graph) (parents : Array (Option Nat)) (handle : Nat) :
    Except Missing (Option Nat) :=
  climb graph parents graph.nodes.size (parents[handle]?.join)

/-- Enter a node in the tables. -/
def enterNode (graph : Graph) (parents : Array (Option Nat)) (tables : LinkTables)
    (entry : Node × Nat) : Except Missing LinkTables := do
  if entry.1.kind = .stmt ∧ entry.1.properties.text? "kind" = some "return_statement" then
    let function ← functionAround graph parents entry.2
    return tables.addReturn function entry.2
  else return tables.add graph parents entry

/-- What linking makes of an unresolved call. -/
def linkedCall? (graph : Graph) (parents : Array (Option Nat)) (tables : LinkTables)
    (handle : Nat) : Except Missing (Option Graph.LinkedCall) := do
  let node ← entry .nodes graph.nodes handle
  match tables.targets node with
  | [] => return none
  | found =>
    let caller ← functionAround graph parents handle
    let site := { graph.callSite parents handle node with caller }
    return some
      { node := handle
        edges := found.flatMap fun target => site.edges graph.nameOf (tables.target target) }

/-- Add the edges of a resolved call, and mark it. -/
def addLinked (graph : Graph) (linked : Graph.LinkedCall) : Except Missing Graph := do
  let connected ← connectAll graph linked.edges
  require .nodes connected.nodes linked.node
  return connected.setProperty linked.node "resolved" (.flag true)

/-- Resolve calls across files. -/
def linkAcrossFiles (graph : Graph) : Except Missing Graph := do
  let parents := graph.parents
  let tables ← graph.nodes.zipIdx.toList.foldlM (enterNode graph parents) {}
  let pending := tables.pending.mergeSort fun a b =>
    a.1 < b.1 || (a.1 == b.1 && a.2 ≤ b.2)
  let linked ← pending.mapM fun call => linkedCall? graph parents tables call.2
  linked.reduceOption.foldlM addLinked graph

/-- The union of the graphs of files that were asked for, with the calls between them resolved. -/
def ofFiles (present : Instant) (files : List Path) (graphs : List Graph) : Except Missing Graph := do
  let united ← graphs.foldlM absorb Graph.empty
  let linked ← linkAcrossFiles (files.foldl Graph.addFile united)
  return linked.stamped present

end Checked

end CodeGraph

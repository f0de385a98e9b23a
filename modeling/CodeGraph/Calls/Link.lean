import Std.Data.HashMap
import CodeGraph.Calls.Target
import CodeGraph.Graph.Containment

/-!
# Calls between files

Calls that reach nothing in their own file get a second chance once the graphs of all files are one:
they reach functions by the names on the graph. What a function offers is read off the graph too,
before any edge is added; so nothing that linking adds changes what it finds (`Graph.linkTables`).
-/

namespace CodeGraph

/-- Handles listed under keys, in order. -/
abbrev Listing (α β : Type) [BEq α] [Hashable α] := Std.HashMap α (List β)

/-- List one more under a key. -/
def Listing.add {α β : Type} [BEq α] [Hashable α] (listing : Listing α β) (key : α) (item : β) :
    Listing α β :=
  listing.insert key (listing.getD key [] ++ [item])

/-- What linking reads off a graph. -/
structure LinkTables where
  /-- Functions outside classes that are no methods, by name. -/
  free : Listing String Nat := {}
  /-- Functions in classes, by name. -/
  methods : Listing String Nat := {}
  /-- Constructors, by the name of their class. -/
  constructors : Listing String Nat := {}
  /-- Parameters with their positions, by function. -/
  params : Listing Nat (Nat × Nat) := {}
  /-- The sites at which a function returns, by function. -/
  returns : Listing Nat Nat := {}
  /-- The calls that reach nothing yet, with their ids. -/
  pending : List (String × Nat) := []

namespace LinkTables

/-- Enter a function. -/
def addFunction (tables : LinkTables) (graph : Graph) (parent : Option Nat) (handle : Nat)
    (node : Node) : LinkTables :=
  match node.name with
  | none => tables
  | some name =>
    match (parent.bind graph.node?).filter fun owner => owner.kind == .cls with
    | some owner =>
      let tables := { tables with methods := tables.methods.add name handle }
      match owner.name with
      | some className =>
        if name = "constructor" then
          { tables with constructors := tables.constructors.add className handle }
        else tables
      | none => tables
    | none =>
      if node.properties.isSet "isMethod" then tables
      else { tables with free := tables.free.add name handle }

/-- Enter a parameter. -/
def addParam (tables : LinkTables) (parent : Option Nat) (handle : Nat) (node : Node) :
    LinkTables :=
  match parent, node.properties.number? "index" with
  | some function, some position =>
    { tables with params := tables.params.add function (position.toCount, handle) }
  | _, _ => tables

/-- Enter a site at which a function returns. -/
def addReturn (tables : LinkTables) (function : Option Nat) (handle : Nat) : LinkTables :=
  match function with
  | some function => { tables with returns := tables.returns.add function handle }
  | none => tables

/-- Enter a node. An expression right below a function is returned by it. -/
def add (graph : Graph) (parents : Array (Option Nat)) (tables : LinkTables)
    (entry : Node × Nat) : LinkTables :=
  let (node, handle) := entry
  let parent := parents[handle]?.join
  match node.kind with
  | .func => tables.addFunction graph parent handle node
  | .param => tables.addParam parent handle node
  | .stmt =>
    if node.properties.text? "kind" = some "return_statement" then
      tables.addReturn (graph.functionAround parents handle) handle
    else tables
  | .expr => tables.addReturn (parent.filter fun owner => graph.hasKind owner .func) handle
  | .call =>
    if node.properties.flag? "resolved" = some false then
      { tables with pending := (node.id, handle) :: tables.pending }
    else tables
  | _ => tables

/-- The functions that a call may reach. -/
def targets (tables : LinkTables) (call : Node) : List Nat :=
  match call.properties.text? "callee" with
  | none => []
  | some name =>
    if call.properties.isSet "isConstructor" then tables.constructors.getD name []
    else if call.properties.isSet "isMethodCall" then tables.methods.getD name []
    else tables.free.getD name []

/-- What a function offers to calls. -/
def target (tables : LinkTables) (node : Nat) : CallTarget where
  node := node
  params := tables.params.getD node []
  returns := tables.returns.getD node []

end LinkTables

namespace Graph

/-- What linking reads off a graph. -/
def linkTables (graph : Graph) (parents : Array (Option Nat)) : LinkTables :=
  graph.nodes.zipIdx.foldl (LinkTables.add graph parents) {}

/-- What a call brings to its targets, by its node. -/
def callSite (graph : Graph) (parents : Array (Option Nat)) (handle : Nat) (node : Node) :
    CallSite where
  node := handle
  caller := graph.functionAround parents handle
  consumed := node.properties.isSet "consumed"
  argumentCount := ((node.properties.number? "argCount").map Binary64.toCount).getD 0
  line := node.location.line

/-- A call that linking resolves: its handle and its edges. -/
structure LinkedCall where
  node : Nat
  edges : List Connection

/-- The calls that linking resolves, in the order of their ids. -/
def linkedCalls (graph : Graph) : List LinkedCall :=
  let parents := graph.parents
  let tables := graph.linkTables parents
  -- Ids decide the order, so that it does not depend on how the files were united.
  let pending := tables.pending.mergeSort fun a b =>
    a.1 < b.1 || (a.1 == b.1 && a.2 ≤ b.2)
  pending.filterMap fun (_, handle) =>
    match graph.nodes[handle]? with
    | none => none
    | some node =>
      match tables.targets node with
      | [] => none
      | found =>
        let site := graph.callSite parents handle node
        some
          { node := handle
            edges := found.flatMap fun target => site.edges graph.nameOf (tables.target target) }

/-- Add the edges of a resolved call, and mark it. -/
def addLinked (graph : Graph) (linked : LinkedCall) : Graph :=
  (graph.connectAll linked.edges).setProperty linked.node "resolved" (.flag true)

/-- Resolve calls across files: the graph, and how many calls were resolved. -/
def linkAcrossFiles (graph : Graph) : Graph × Nat :=
  let linked := graph.linkedCalls
  (linked.foldl addLinked graph, linked.length)

end Graph

end CodeGraph

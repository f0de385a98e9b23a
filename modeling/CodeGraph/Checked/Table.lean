import CodeGraph.Scope
import CodeGraph.Graph.Connection
import CodeGraph.Graph.Union

/-!
# Tables that have to hold what they are asked for

Graphs are built by numbers: those of nodes, regions, blocks, statements, scopes, functions and
classes. The definitions elsewhere make do when a number is not that of an entry. Those here do not:
they look every number up before they use it or store it, and a number without an entry ends them. What
they give then is the number (`Missing`). They are to give what the others give, and never a number.
-/

namespace CodeGraph

/-- The tables whose entries have numbers. -/
inductive Table where
  | nodes
  | regions
  | blocks
  | statements
  | scopes
  | functions
  | classes
  /-- The nodes of a graph under the handles that they have in another graph. -/
  | renamed
deriving DecidableEq, Repr

/-- A number that is not that of an entry of a table. -/
structure Missing where
  table : Table
  number : Nat
deriving DecidableEq, Repr

namespace Checked

/-- The entry that a number stands for. -/
def entry {Item : Type} (table : Table) (items : Array Item) (number : Nat) : Except Missing Item :=
  match items[number]? with
  | some item => .ok item
  | none => .error ⟨table, number⟩

/-- Make sure that a number stands for an entry. -/
def require {Item : Type} (table : Table) (items : Array Item) (number : Nat) :
    Except Missing Unit :=
  (entry table items number).map fun _ => ()

/-- Make sure that a number stands for an entry, if there is one. -/
def require? {Item : Type} (table : Table) (items : Array Item) :
    Option Nat → Except Missing Unit
  | some number => require table items number
  | none => .ok ()

/-- A loop each of whose steps may come by a number without an entry. It is over then, and where there
is no step to take. -/
def loop {State : Type} (step : State → Except Missing (Option State)) :
    Except Missing State → Option (Except Missing State)
  | .error _ => none
  | .ok state =>
    match step state with
    | .error missing => some (.error missing)
    | .ok none => none
    | .ok (some next) => some (.ok next)

/-! ## Scopes -/

/-- The first answer on the chain from a scope outwards. -/
def search {Answer : Type} (scopes : Scopes) (answer : Nat → Scope → Option Answer) (id : Nat) :
    Except Missing (Option Answer) :=
  match found : scopes.list[id]? with
  | none => .error ⟨.scopes, id⟩
  | some scope =>
    match answer id scope with
    | some value => .ok (some value)
    | none =>
      match named : scope.parent with
      | none => .ok none
      | some parent =>
        have : parent < id := scopes.parent_lt id scope parent found named
        search scopes answer parent
termination_by id

/-- The variable that a name stands for in a scope. -/
def resolveVariable (scopes : Scopes) (id : Nat) (name : String) : Except Missing (Option Nat) :=
  search scopes (fun _ scope => scope.declaredVariables[name]?) id

/-- The function that a name stands for in a scope. -/
def resolveFunction (scopes : Scopes) (id : Nat) (name : String) : Except Missing (Option Nat) :=
  search scopes (fun _ scope => scope.declaredFunctions[name]?) id

/-- The nearest scope of the chain that receives hoisted declarations. -/
def hoistTarget (scopes : Scopes) (id : Nat) : Except Missing Nat := do
  let found ← search scopes
    (fun at_ scope => if scope.hoists || scope.parent.isNone then some at_ else none) id
  return found.getD id

/-- Declare a variable. -/
def declareVariable (scopes : Scopes) (id : Nat) (name : String) (node : Nat) :
    Except Missing Scopes := do
  require .scopes scopes.list id
  return scopes.declareVariable id name node

/-- Declare a function. -/
def declareFunction (scopes : Scopes) (id : Nat) (name : String) (node : Nat) :
    Except Missing Scopes := do
  require .scopes scopes.list id
  return scopes.declareFunction id name node

/-! ## Graphs -/

/-- The graph with the edge that a connection asks for. -/
def connect (graph : Graph) (connection : Connection) : Except Missing Graph :=
  match graph.addEdge connection.source connection.target connection.kind connection.tag
    connection.properties with
  | .ok (extended, _) => .ok extended
  | .error unissued => .error ⟨.nodes, unissued.handle⟩

/-- The graph with the edges that a list of connections asks for. -/
def connectAll (graph : Graph) (connections : List Connection) : Except Missing Graph :=
  connections.foldlM connect graph

/-- Add an arc of another graph, its ends renamed by a table of handles. -/
def addRenamed (names : Array Nat) (graph : Graph) (arc : Arc) : Except Missing Graph := do
  let source ← entry .renamed names arc.source
  let target ← entry .renamed names arc.target
  require .nodes graph.nodes source
  require .nodes graph.nodes target
  return (graph.addArc { arc.edge with source, target }).1

/-- Add everything that another graph holds. -/
def absorb (graph other : Graph) : Except Missing Graph := do
  let added := graph.addAll other.nodes
  let joined ← other.arcs.toList.foldlM (addRenamed added.2) added.1
  return other.files.foldl Graph.addFile joined

end Checked

end CodeGraph

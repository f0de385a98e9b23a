import Std.Data.HashMap
import CodeGraph.Graph.Basic
import CodeGraph.Flow.Region
import CodeGraph.Source.Text
import CodeGraph.Source.Tree

/-!
# Facts about a file

What the walk over the syntax tree of one file collects: the nodes of the graph with their
containment edges, the regions with their statements and accesses, the scopes, and tables of the
functions, classes and calls. Region 0 is the top level of the module. The operations here are the
ones of which every step of the walk is made.
-/

namespace CodeGraph

/-- A file to be looked at: its path, its text and the tree that the parser made of it. -/
structure SourceFile where
  path : Path
  source : SourceText
  tree : Tree

/-- What a call is aimed at, as far as names tell. -/
inductive Callee where
  /-- A plain call of a name. -/
  | function (name : String)
  /-- A call of a member of some receiver. -/
  | method (receiver name : String)
  /-- A call that makes an object of a named class. -/
  | constructor (name : String)
  /-- Anything else. -/
  | dynamic
deriving DecidableEq, Repr, Inhabited

/-- The name that a call is aimed at. -/
def Callee.name? : Callee → Option String
  | function name => some name
  | method _ name => some name
  | constructor name => some name
  | dynamic => none

/-- What is known of a function. -/
structure FunctionFact where
  node : Nat
  name : Option String
  /-- Parameters with their positions; the names of a destructured parameter share a position. -/
  params : Array (Nat × Nat) := #[]
  /-- Return statements, and an expression that is returned without one. -/
  returns : Array Nat := #[]
  isMethod : Bool
deriving Repr, Inhabited

/-- What is known of a class. -/
structure ClassFact where
  name : Option String
  methods : Array Nat := #[]
deriving Repr, Inhabited

/-- What is known of a call. -/
structure CallFact where
  node : Nat
  /-- The function around the call; none at the top level. -/
  caller : Option Nat
  scope : Nat
  callee : Callee
  argumentCount : Nat
  /-- The site that takes the value of the call, when the value is used. -/
  consumer : Option Nat
  line : Nat
deriving Repr, Inhabited

/-- Everything that the walk over a file has learned. -/
structure Facts where
  graph : Graph := {}
  regions : Array Region := #[{ owner := none }]
  scopes : Scopes := .initial
  functions : Array FunctionFact := #[]
  /-- The latest function fact of each function node. -/
  functionIndex : Std.HashMap Nat Nat := {}
  classes : Array ClassFact := #[]
  calls : Array CallFact := #[]
  /-- The region in which each variable and parameter is declared. -/
  regionOf : Std.HashMap Nat Nat := {}

/-- Where the walk is. -/
structure Context where
  region : Nat := 0
  block : Nat := Skeleton.root
  scope : Nat := Scopes.moduleScope
  /-- The statement to which accesses belong. -/
  statement : Option Nat := none
  /-- The node at which accesses happen: the nearest call, expression, statement or class. -/
  site : Option Nat := none
  /-- The node that contains new nodes. -/
  parent : Option Nat := none
  /-- The number of the fact about the function around. -/
  function : Option Nat := none
deriving Repr, Inhabited

namespace Context

/-- The context of the statements of an arm, contained in a node. -/
def enter (context : Context) (block parent : Nat) : Context :=
  { context with block, statement := none, site := none, parent := some parent }

/-- The context inside a site. -/
def atSite (context : Context) (site : Nat) : Context :=
  { context with site := some site, parent := some site }

end Context

namespace SourceFile

/-- The text of a node. -/
def textOf (file : SourceFile) (cursor : Cursor) : String :=
  file.source.slice cursor.start cursor.stop

/-- The line on which a node starts. -/
def lineOf (file : SourceFile) (cursor : Cursor) : Nat := file.source.line cursor.start

/-- The graph node that stands for a syntax node. Its id names the bytes that it covers, so that
nested nodes that start at one place stay apart. -/
def nodeOf (file : SourceFile) (cursor : Cursor) (kind : NodeKind) (name : Option String) : Node :=
  { id := file.path.text ++ ":" ++ kind.name ++ ":" ++ toString cursor.start ++ "-"
      ++ toString cursor.stop
    kind, name
    location := ⟨file.path, file.lineOf cursor, file.source.column cursor.start⟩ }

end SourceFile

namespace Facts

/-- Add a node below its container. -/
def place (facts : Facts) (node : Node) (parent : Option Nat) : Facts × Nat :=
  let added := facts.graph.addNode node
  let graph :=
    match parent with
    | some container =>
      if container = added.2 then added.1 else added.1.withEdge container added.2 .child
    | none => added.1
  ({ facts with graph }, added.2)

/-- Record an access where the walk is. -/
def record (facts : Facts) (context : Context) (access : Access) : Facts :=
  { facts with
    regions := facts.regions.modify context.region fun region =>
      region.record context.statement access }

/-- Add a scope. -/
def pushScope (facts : Facts) (parent : Nat) (hoists : Bool) : Facts × Nat :=
  let pushed := facts.scopes.push parent hoists
  ({ facts with scopes := pushed.1 }, pushed.2)

/-- Add a statement to the block where the walk is. -/
def pushStatement (facts : Facts) (context : Context) (site : Nat) (kind : StatementKind) :
    Facts × Nat :=
  match facts.regions[context.region]? with
  | some region =>
    ({ facts with regions := facts.regions.modify context.region fun region =>
        (region.push context.block site kind).1 },
     (region.push context.block site kind).2)
  | none => (facts, 0)

/-- Add an arm to a statement of the region where the walk is. -/
def pushArm (facts : Facts) (context : Context) (statement : Nat) (role : Role) : Facts × Nat :=
  match facts.regions[context.region]? with
  | some region =>
    ({ facts with regions := facts.regions.modify context.region fun region =>
        (region.addArm statement role).1 },
     (region.addArm statement role).2)
  | none => (facts, 0)

/-- Record a site at which the function around returns. -/
def recordReturn (facts : Facts) (function : Option Nat) (site : Nat) : Facts :=
  match function with
  | some number =>
    { facts with functions := facts.functions.modify number fun fact =>
        { fact with returns := fact.returns.push site } }
  | none => facts

/-- A statement that was just opened: the facts, the context inside it, its number, its node. -/
structure Opened where
  facts : Facts
  context : Context
  statement : Nat
  site : Nat

/-- Add a statement and its node. -/
def openStatement (facts : Facts) (file : SourceFile) (cursor : Cursor) (context : Context)
    (kind : StatementKind) : Opened :=
  let node := (file.nodeOf cursor .stmt none).set "kind" (.text cursor.kind)
  let placed := facts.place node context.parent
  let pushed := placed.1.pushStatement context placed.2 kind
  { facts := pushed.1
    context := { context.atSite placed.2 with statement := some pushed.2 }
    statement := pushed.2
    site := placed.2 }

/-- Add the node of an expression that defines a value. -/
def openExpression (facts : Facts) (file : SourceFile) (cursor : Cursor) (context : Context) :
    Facts × Nat :=
  facts.place ((file.nodeOf cursor .expr none).set "kind" (.text cursor.kind)) context.parent

/-- The facts with all names looked up; accesses whose name stands for nothing are gone. -/
def resolveNames (facts : Facts) : Facts :=
  { facts with regions := facts.regions.map fun region => region.resolve facts.scopes }

/-- The region of a declared variable. -/
def region? (facts : Facts) (handle : Nat) : Option Nat := facts.regionOf[handle]?

end Facts

end CodeGraph

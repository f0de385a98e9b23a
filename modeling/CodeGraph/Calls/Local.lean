import CodeGraph.Facts.Walk
import CodeGraph.Calls.Target

/-!
# Calls within a file

Which functions of its own file a call may reach, by names alone. A plain call reaches the function
that its name stands for in its scope, or else every free function of that name; a call of a member
reaches every method of that name; `new` reaches the constructors of every class of that name.
-/

namespace CodeGraph

namespace Facts

/-- The latest fact about a function node. -/
def function? (facts : Facts) (node : Nat) : Option FunctionFact :=
  facts.functionIndex[node]?.bind fun number => facts.functions[number]?

/-- Whether a function node has a name. -/
def isNamed (facts : Facts) (name : String) (node : Nat) : Bool :=
  (facts.function? node).bind FunctionFact.name == some name

/-- The methods of a list of classes that have a name. -/
def methodsNamed (facts : Facts) (classes : List ClassFact) (name : String) : List Nat :=
  (classes.flatMap fun fact => fact.methods.toList).filter (facts.isNamed name)

/-- The functions that a call may reach. -/
def candidates (facts : Facts) (call : CallFact) : List Nat :=
  match call.callee with
  | .function name =>
    match facts.scopes.resolveFunction call.scope name with
    | some function => [function]
    | none =>
      (facts.functions.toList.filter fun fact => !fact.isMethod && fact.name == some name).map
        FunctionFact.node
  | .method _ name => facts.methodsNamed facts.classes.toList name
  | .constructor name =>
    facts.methodsNamed (facts.classes.toList.filter fun fact => fact.name == some name)
      "constructor"
  | .dynamic => []

/-- What a call brings to its targets. -/
def siteOf (call : CallFact) : CallSite where
  node := call.node
  caller := call.caller
  consumed := call.consumer.isSome
  argumentCount := call.argumentCount
  line := call.line

/-- What a function offers to calls. -/
def target? (facts : Facts) (node : Nat) : Option CallTarget :=
  (facts.function? node).map fun fact =>
    { node := fact.node, params := fact.params.toList, returns := fact.returns.toList }

/-- The edges of a call to everything that it may reach. -/
def callEdges (facts : Facts) (nameOf : Nat → String) (call : CallFact) : List Connection :=
  ((facts.candidates call).filterMap facts.target?).flatMap fun target =>
    (siteOf call).edges nameOf target

/-- Whether a call reaches anything. -/
def isResolved (facts : Facts) (call : CallFact) : Bool := !(facts.candidates call).isEmpty

/-- The calls that reach something. -/
def resolvedCalls (facts : Facts) : List CallFact := facts.calls.toList.filter facts.isResolved

/-- Record of one call whether it reaches anything, and add its edges. -/
def linkCall (facts : Facts) (nameOf : Nat → String) (graph : Graph) (call : CallFact) : Graph :=
  (graph.setProperty call.node "resolved" (.flag (facts.isResolved call))).connectAll
    (facts.callEdges nameOf call)

/-- The edge that brings the value of a call to the site that takes it. -/
def consumerEdge (call : CallFact) : List Connection :=
  (call.consumer.toList.filter fun consumer => consumer != call.node).map fun consumer =>
    { source := call.node, target := consumer, kind := .flow, tag := some "result"
      properties := Properties.empty.insert "via" (.text "result") }

end Facts

end CodeGraph

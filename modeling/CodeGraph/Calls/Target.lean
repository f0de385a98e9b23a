import CodeGraph.Graph.Connection

/-!
# Calls and their targets

The edges between one call and one function that it may reach: the function around the call calls
the function; a call whose value is used gets the result, from each site at which the function
returns; and the call passes its arguments to the parameters whose position it fills.
-/

namespace CodeGraph

/-- What a call brings to its targets. -/
structure CallSite where
  node : Nat
  /-- The function around the call. -/
  caller : Option Nat
  /-- Whether the value of the call is used. -/
  consumed : Bool
  argumentCount : Nat
  line : Nat
deriving Repr

/-- What a function offers to the calls that reach it. -/
structure CallTarget where
  node : Nat
  /-- Parameters with their positions. -/
  params : List (Nat × Nat)
  /-- The sites at which it returns. -/
  returns : List Nat
deriving Repr

namespace CallSite

/-- The edge from the function around a call to a target. -/
def callEdge (site : CallSite) (target : CallTarget) : List Connection :=
  site.caller.toList.map fun caller =>
    { source := caller, target := target.node, kind := .call
      properties := Properties.empty.insert "line" (.ofNat site.line) }

/-- The edges that bring the result of a target to a call whose value is used. -/
def resultEdges (site : CallSite) (target : CallTarget) : List Connection :=
  if site.consumed then
    { source := target.node, target := site.node, kind := .result }
      :: target.returns.map fun returned =>
        { source := returned, target := site.node, kind := .flow, tag := some "return"
          properties := Properties.empty.insert "via" (.text "return") }
  else []

/-- The edges that bring the arguments of a call to the parameters of a target. -/
def argumentEdges (nameOf : Nat → String) (site : CallSite) (target : CallTarget) :
    List Connection :=
  (target.params.filter fun param => param.1 < site.argumentCount).map fun param =>
    { source := site.node, target := param.2, kind := .flow, tag := some (nameOf param.2)
      properties := (Properties.empty.insert "via" (.text "argument")).insert
        "variable" (.text (nameOf param.2)) }

/-- All edges between a call and a target. -/
def edges (nameOf : Nat → String) (site : CallSite) (target : CallTarget) : List Connection :=
  site.callEdge target ++ site.resultEdges target ++ site.argumentEdges nameOf target

end CallSite

end CodeGraph

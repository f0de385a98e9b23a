import CodeGraph.Flow.Region
import CodeGraph.Flow.Control
import CodeGraph.Flow.Closure

/-!
# Reaching definitions

A definition is a variable together with the site that writes it. Which definitions are live before
a statement is found one definition at a time: from the statements that leave the definition behind,
and from the entry if it is live there, control is followed through all statements that do not write
the variable (`Reaching.reached`). A set of definitions is a list in the order of variables and
sites, each definition once.
-/

namespace CodeGraph

/-- A variable and a site that writes it. -/
structure Definition where
  binding : Nat
  site : Nat
deriving DecidableEq, Repr, Inhabited

namespace Definition

/-- Whether a definition comes no later than another in the order of variables, then sites. -/
def notAfter (a b : Definition) : Bool :=
  a.binding < b.binding || (a.binding == b.binding && a.site ≤ b.site)

/-- The definitions of a list as a set: in order, each once. -/
def sorted (definitions : List Definition) : List Definition :=
  (definitions.mergeSort notAfter).eraseReps

/-- The set after a write: the other definitions of the variable are gone. -/
def write (state : List Definition) (binding site : Nat) : List Definition :=
  let others := state.filter fun definition => definition.binding ≠ binding
  others.takeWhile (fun definition => definition.notAfter ⟨binding, site⟩)
    ++ ⟨binding, site⟩
    :: others.dropWhile (fun definition => definition.notAfter ⟨binding, site⟩)

/-- The set after one access. -/
def step (state : List Definition) (access : Access) : List Definition :=
  match access.defined? with
  | some binding => write state binding access.site
  | none => state

/-- The set after a list of accesses. -/
def transfer (state : List Definition) (accesses : List Access) : List Definition :=
  accesses.foldl step state

end Definition

/-- Whether a list of accesses writes a variable. -/
def writes (accesses : List Access) (binding : Nat) : Bool :=
  accesses.any fun access => access.defined? == some binding

namespace Reaching

/-- The definitions live at the first statement of a region, given those live at its entry. -/
def start (region : Region) (entry : List Definition) : List Definition :=
  Definition.transfer entry region.entryAccesses.toList

/-- The definitions that a statement leaves behind. -/
def left (region : Region) (statement : Nat) : List Definition :=
  Definition.transfer [] (region.accessesOf statement)

/-- The statements that a definition gets to in one step from where it is made. -/
def origins (region : Region) (control : Control) (entry : List Definition)
    (definition : Definition) : List Nat :=
  let fromEntry :=
    if (start region entry).contains definition then control.entry.toList else []
  let makers := (List.range region.accesses.size).filter fun statement =>
    (left region statement).contains definition
  fromEntry ++ makers.flatMap control.successors

/-- The statements before which a definition is live. -/
def reached (region : Region) (control : Control) (entry : List Definition)
    (definition : Definition) : Array Bool :=
  closure
    (fun statement =>
      if writes (region.accessesOf statement) definition.binding then []
      else control.successors statement)
    (origins region control entry definition)
    (Array.replicate region.accesses.size false)

/-- Every definition that is live at the first statement or left behind by one. -/
def candidates (region : Region) (entry : List Definition) : List Definition :=
  Definition.sorted (start region entry
    ++ (List.range region.accesses.size).flatMap (left region))

/-- The definitions live before each statement. -/
def before (region : Region) (control : Control) (entry : List Definition) :
    List (List Definition) :=
  let table := (candidates region entry).map fun definition =>
    (definition, reached region control entry definition)
  (List.range region.accesses.size).map fun statement =>
    table.filterMap fun row => if row.2.getD statement false then some row.1 else none

end Reaching

end CodeGraph

import CodeGraph.Scope
import CodeGraph.Flow.Skeleton

/-!
# Flow regions

A region is the body of one function, or the top level of a module: its skeleton, its parameters,
and its accesses. An access reads or writes a binding at a site; it belongs to a statement, or to
the entry of the region when it happens before the first statement (the default of a parameter).
-/

namespace CodeGraph

/-- Whether an access reads or writes. -/
inductive AccessKind where
  | read
  | write
deriving DecidableEq, Repr, Inhabited

/-- What an access refers to: a binding, or a name that is still to be looked up in a scope. -/
inductive Binding where
  | node (handle : Nat)
  | name (text : String) (scope : Nat)
deriving DecidableEq, Repr, Inhabited

/-- One read or write of a binding, at the node where it happens. -/
structure Access where
  kind : AccessKind
  binding : Binding
  site : Nat
deriving DecidableEq, Repr, Inhabited

namespace Access

/-- The binding that an access is known to refer to. -/
def handle? (access : Access) : Option Nat :=
  match access.binding with
  | .node handle => some handle
  | .name _ _ => none

/-- The binding that an access reads, if it is known. -/
def used? (access : Access) : Option Nat :=
  match access.kind with
  | .read => access.handle?
  | .write => none

/-- The binding that an access writes, if it is known. -/
def defined? (access : Access) : Option Nat :=
  match access.kind with
  | .write => access.handle?
  | .read => none

/-- The access with its name looked up; nothing if the name stands for nothing. -/
def resolve (scopes : Scopes) (access : Access) : Option Access :=
  match access.binding with
  | .node _ => some access
  | .name text scope =>
    (scopes.resolveVariable scope text).map fun handle => { access with binding := .node handle }

end Access

/-- The body of a function, or the top level of a module. -/
structure Region where
  /-- The function that owns the body; none for the top level. -/
  owner : Option Nat
  skeleton : Skeleton := .empty
  /-- The parameters, whose definitions are live at the entry. -/
  params : Array Nat := #[]
  /-- The accesses before the first statement, in order. -/
  entryAccesses : Array Access := #[]
  /-- The accesses of each statement, in order of evaluation. -/
  accesses : Array (Array Access) := #[]

namespace Region

/-- Add a statement at the end of a block. -/
def push (region : Region) (block site : Nat) (kind : StatementKind) : Region × Nat :=
  let (skeleton, number) := region.skeleton.push block site kind
  ({ region with skeleton, accesses := region.accesses.push #[] }, number)

/-- Add an empty block as the last arm of a statement. -/
def addArm (region : Region) (statement : Nat) (role : Role) : Region × Nat :=
  let (skeleton, number) := region.skeleton.addArm statement role
  ({ region with skeleton }, number)

/-- Record an access of a statement, or of the entry. -/
def record (region : Region) (statement : Option Nat) (access : Access) : Region :=
  match statement with
  | some number =>
    { region with accesses := region.accesses.modify number fun list => list.push access }
  | none => { region with entryAccesses := region.entryAccesses.push access }

/-- The accesses of a statement. -/
def accessesOf (region : Region) (statement : Nat) : List Access :=
  (region.accesses[statement]?.map Array.toList).getD []

/-- All accesses: those of the entry, then those of the statements in order. -/
def allAccesses (region : Region) : List Access :=
  region.entryAccesses.toList ++ region.accesses.toList.flatMap Array.toList

/-- The region with its names looked up; accesses whose name stands for nothing are gone. -/
def resolve (region : Region) (scopes : Scopes) : Region :=
  { region with
    entryAccesses := region.entryAccesses.filterMap (Access.resolve scopes)
    accesses := region.accesses.map fun list => list.filterMap (Access.resolve scopes) }

/-- The site of a statement. -/
def siteOf? (region : Region) (statement : Nat) : Option Nat :=
  region.skeleton.statements[statement]?.map Statement.site

end Region

end CodeGraph

import CodeGraph.Flow.Reaching
import CodeGraph.Graph.Connection

/-!
# Edges of control flow and data flow

What the control flow and the accesses of the regions of a file ask to be connected. Each transfer
of control is one edge with its converse, labelled and tagged alike. A write is connected to its
variable by `defines`, a read by `uses`, and every definition that reaches a read by a `flow` edge
tagged with the name of the variable.
-/

namespace CodeGraph

namespace Control

/-- One transfer of control between two nodes. -/
structure Link where
  source : Nat
  target : Nat
  label : Option Label
deriving DecidableEq, Repr

/-- The two edges of a transfer. -/
def Link.connections (link : Link) : List Connection :=
  let tag := link.label.map Label.text
  let properties :=
    match tag with
    | some text => Properties.empty.insert "label" (.text text)
    | none => .empty
  [{ source := link.source, target := link.target, kind := .successor, tag, properties },
   { source := link.target, target := link.source, kind := .predecessor, tag, properties }]

/-- The transfers of a region between nodes: from the owner to the first statement, from the
statements that leave the body to the owner, and between statements. A region without an owner has
no node to come from or to leave to. -/
def links (region : Region) (control : Control) : List Link :=
  let sites := region.skeleton.statements.toList.map Statement.site
  let atEnds :=
    match region.owner with
    | none => []
    | some owner =>
      let entry := (control.entry.bind region.siteOf?).toList.map fun site =>
        { source := owner, target := site, label := some .entry : Link }
      let exits := (sites.zip control.exits.toList).flatMap fun (site, labels) =>
        labels.map fun label => { source := site, target := owner, label := some label : Link }
      entry ++ exits
  let inside := (sites.zip control.transfers.toList).flatMap fun (site, transfers) =>
    transfers.filterMap fun transfer =>
      (region.siteOf? transfer.target).map fun target =>
        { source := site, target, label := transfer.label : Link }
  atEnds ++ inside

end Control

namespace DataFlow

/-- Every definition in a list of regions: each parameter at itself, each write at its site. -/
def definitions (regions : List Region) : List Definition :=
  regions.flatMap fun region =>
    region.params.toList.map (fun param => ⟨param, param⟩)
      ++ region.allAccesses.filterMap fun access =>
        access.defined?.map fun binding => ⟨binding, access.site⟩

/-- Whether a variable is declared in another region than the one of a given number. -/
def isCaptured (regionOf : Nat → Option Nat) (number binding : Nat) : Bool :=
  match regionOf binding with
  | some owner => owner != number
  | none => false

/-- The definitions live at the entry of a region: its parameters, and all definitions of the
variables that it uses but that belong to other regions. -/
def entryState (regionOf : Nat → Option Nat) (everywhere : List Definition) (number : Nat)
    (region : Region) : List Definition :=
  let captured := (region.allAccesses.filterMap fun access =>
    access.handle?.filter (isCaptured regionOf number)).eraseDups
  Definition.sorted
    (region.params.toList.map (fun param => ⟨param, param⟩)
      ++ everywhere.filter fun definition => captured.contains definition.binding)

/-- The edges from the definitions that reach a read to the reading site. -/
def flowsInto (name : String) (site : Nat) (reaching : List Definition) : List Connection :=
  reaching.map fun definition =>
    { source := definition.site, target := site, kind := .flow, tag := some name
      properties := Properties.empty.insert "variable" (.text name) }

/-- The edges of one access before which a set of definitions is live. -/
def accessEdges (nameOf : Nat → String) (state : List Definition) (access : Access) :
    List Connection :=
  match access.handle? with
  | none => []
  | some binding =>
    match access.kind with
    | .read =>
      { source := access.site, target := binding, kind := .uses }
        :: flowsInto (nameOf binding) access.site
          (state.filter fun definition =>
            definition.binding == binding && definition.site != access.site)
    | .write => [{ source := access.site, target := binding, kind := .defines }]

/-- The edges of a list of accesses before which a set of definitions is live. -/
def edgesAlong (nameOf : Nat → String) : List Definition → List Access → List Connection
  | _, [] => []
  | state, access :: rest =>
    accessEdges nameOf state access ++ edgesAlong nameOf (Definition.step state access) rest

/-- The edges of a region, given the definitions live at its entry. -/
def regionEdges (nameOf : Nat → String) (region : Region) (control : Control)
    (entry : List Definition) : List Connection :=
  edgesAlong nameOf entry region.entryAccesses.toList
    ++ ((Reaching.before region control entry).zip region.accesses.toList).flatMap
      fun (state, accesses) => edgesAlong nameOf state accesses.toList

/-- The edges of all regions of a file. -/
def edges (nameOf : Nat → String) (regionOf : Nat → Option Nat) (regions : List Region)
    (controls : List Control) : List Connection :=
  let everywhere := definitions regions
  (regions.zip controls).zipIdx.flatMap fun ((region, control), number) =>
    regionEdges nameOf region control (entryState regionOf everywhere number region)

end DataFlow

end CodeGraph

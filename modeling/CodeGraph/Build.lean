import CodeGraph.Calls.Local
import CodeGraph.Calls.Link
import CodeGraph.Flow.Edges
import CodeGraph.Graph.Union
import CodeGraph.Source.Problem

/-!
# Building graphs

The graph of a file comes from the facts about it: first its nodes and their containment, then the
edges of control flow, of data flow, and of calls. The graph of several files is the union of
theirs, with the calls between files resolved.
-/

namespace CodeGraph

/-- The version of the library. -/
def version : String := "0.1.0"

/-- What the stages behind the walk ask to be connected, stage by stage. -/
structure Stages where
  control : List Control.Link
  access : List Connection
  results : List Connection
  resolved : Nat

namespace Facts

/-- The control flow of each region. -/
def controls (facts : Facts) : List Control :=
  facts.regions.toList.map fun region => Control.of region.skeleton

/-- What the stages behind the walk ask to be connected. -/
def stages (facts : Facts) : Stages where
  control := (facts.regions.toList.zip facts.controls).flatMap fun (region, control) =>
    control.links region
  access := DataFlow.edges facts.graph.nameOf facts.region? facts.regions.toList facts.controls
  results := facts.calls.toList.flatMap consumerEdge
  resolved := facts.resolvedCalls.length

/-- The graph of a file, before its path is recorded. -/
def assemble (facts : Facts) : Graph :=
  let stages := facts.stages
  let flowing := ((facts.graph.connectAll (stages.control.flatMap Control.Link.connections)
    ).connectAll stages.access).connectAll stages.results
  facts.calls.foldl (facts.linkCall facts.graph.nameOf) flowing

end Facts

namespace Graph

/-- The graph of a file, made at the present. -/
def ofFile (present : Instant) (file : SourceFile) : Graph :=
  ((Facts.of file).assemble.addFile file.path).stamped present

/-- The union of the graphs of files that were asked for, with the calls between them resolved. -/
def ofFiles (present : Instant) (files : List Path) (graphs : List Graph) : Graph :=
  let united := graphs.foldl (fun united graph => (united.absorb graph).1) empty
  (files.foldl addFile united).linkAcrossFiles.1.stamped present

end Graph

end CodeGraph

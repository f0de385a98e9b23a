import CodeGraph.Graph.Basic
import CodeGraph.Json.Typed
import CodeGraph.Json.Writer
import CodeGraph.Time.Rfc3339

/-!
# Graphs as text

The stored form of a graph is a document: its nodes, its edges with the two nodes under which the
graph holds them, the two indexes, and the metadata. Both ends of every edge have to be nodes of the
graph; the indexes, and the ends that an edge itself names, are taken as they are.

A number that is infinite or no number has no stored form, and `null` is written in its place.
-/

namespace CodeGraph

open Doc

/-! ## Writing -/

/-- The stored form of a property value. -/
def PropertyValue.toDoc : PropertyValue → Doc
  | flag value => Doc.bool value
  | number value => if value.isFinite then Doc.number (.ofBinary64 value) else null
  | text value => ofText value

/-- The stored form of properties. -/
def Properties.toDoc (properties : Properties) : Doc :=
  ofMembers (properties.entries.map fun entry => (entry.1, entry.2.toDoc))

/-- The stored form of a location. -/
def Location.toDoc (location : Location) : Doc :=
  ofMembers [("file", ofText location.file.text), ("line", ofNat location.line),
    ("column", ofNat location.column)]

/-- The stored form of a node. -/
def Node.toDoc (node : Node) : Doc :=
  ofMembers [("id", ofText node.id), ("node_type", ofText node.kind.name),
    ("name", node.name.elim null ofText), ("location", node.location.toDoc),
    ("properties", node.properties.toDoc)]

/-- The stored form of an edge. -/
def Edge.toDoc (edge : Edge) : Doc :=
  ofMembers [("id", ofText edge.id), ("edge_type", ofText edge.kind.name),
    ("from", ofNat edge.source), ("to", ofNat edge.target),
    ("properties", edge.properties.toDoc)]

/-- The stored form of an edge in its place. -/
def Arc.toDoc (arc : Arc) : Doc :=
  ofList [ofNat arc.source, ofNat arc.target, arc.edge.toDoc]

/-- The stored form of an index. -/
def Graph.indexDoc (index : Std.HashMap String Nat) : Doc :=
  ofMembers (index.toList.map fun entry => (entry.1, ofNat entry.2))

namespace Graph

/-- The name of the property that tells edges with a direction from edges without one. -/
def directedName : String := "directed"

/-- The stored form of the nodes and edges of a graph. -/
def bodyDoc (graph : Graph) : Doc :=
  ofMembers [("nodes", ofList (graph.nodes.toList.map Node.toDoc)), ("node_holes", ofList []),
    ("edge_property", ofText directedName), ("edges", ofList (graph.arcs.toList.map Arc.toDoc))]

/-- The stored form of the metadata of a graph. -/
def metadataDoc (graph : Graph) : Doc :=
  ofMembers [("files", ofList (graph.files.map fun file => ofText file.text)),
    ("language", ofText graph.language), ("created_at", ofText graph.created.text)]

/-- The stored form of a graph. -/
def toDoc (graph : Graph) : Doc :=
  ofMembers [("graph", graph.bodyDoc), ("node_index", indexDoc graph.nodeIndex),
    ("edge_index", indexDoc graph.edgeIndex), ("metadata", graph.metadataDoc)]

/-- The text of a graph. -/
def toText (graph : Graph) : String := graph.toDoc.toText

end Graph

/-! ## Reading -/

/-- The largest handle, line or column that a stored graph may name. -/
def maxStored : Nat := 0xFFFFFFFF

/-- How deep a property value of a node may be before it is known that it is none. -/
def nodeValueDepth : Nat := 123

/-- How deep a property value of an edge may be before it is known that it is none. -/
def edgeValueDepth : Nat := 122

/-- Read a property value. -/
def Doc.getProperty (depth : Nat) (doc : Doc) : Except Fault PropertyValue := do
  doc.survey depth
  match doc with
  | Doc.bool value => return .flag value
  | Doc.number value =>
    match value.toBinary64? with
    | some x => return .number x
    | none => .error .data
  | Doc.text (.ok value) => return .text value
  | _ => .error .data

/-- Read properties. -/
def Doc.getProperties (depth : Nat) (doc : Doc) : Except Fault Properties :=
  Properties.ofList <$> doc.getTable (getProperty depth)

/-- Read the path of a file. -/
def Doc.getPath (doc : Doc) : Except Fault Path := Path.mk <$> doc.getText

/-- The fields of a location. -/
def Location.fields : List (Doc.Field Location) := [
  ⟨"file", fun doc location => do return { location with file := ← doc.getPath }, .always⟩,
  ⟨"line", fun doc location => do return { location with line := ← doc.getNat maxStored }, .always⟩,
  ⟨"column", fun doc location => do
    return { location with column := ← doc.getNat maxStored }, .always⟩]

/-- The fields of a node. -/
def Node.fields : List (Doc.Field Node) := [
  ⟨"id", fun doc node => do return { node with id := ← doc.getText }, .always⟩,
  ⟨"node_type", fun doc node => do
    return { node with kind := ← doc.getName NodeKind.ofName? }, .always⟩,
  ⟨"name", fun doc node => do return { node with name := ← doc.getOption getText }, .inArrays⟩,
  ⟨"location", fun doc node => do
    return { node with location := ← doc.getRecord Location.fields default }, .always⟩,
  ⟨"properties", fun doc node => do
    return { node with properties := ← doc.getProperties nodeValueDepth }, .always⟩]

/-- The fields of an edge. -/
def Edge.fields : List (Doc.Field Edge) := [
  ⟨"id", fun doc edge => do return { edge with id := ← doc.getText }, .always⟩,
  ⟨"edge_type", fun doc edge => do
    return { edge with kind := ← doc.getName EdgeKind.ofName? }, .always⟩,
  ⟨"from", fun doc edge => do return { edge with source := ← doc.getNat maxStored }, .always⟩,
  ⟨"to", fun doc edge => do return { edge with target := ← doc.getNat maxStored }, .always⟩,
  ⟨"properties", fun doc edge => do
    return { edge with properties := ← doc.getProperties edgeValueDepth }, .always⟩]

/-- The parts of an edge in its place. -/
def Arc.fields : List (Doc.Field Arc) := [
  ⟨"source", fun doc arc => do return { arc with source := ← doc.getNat maxStored }, .always⟩,
  ⟨"target", fun doc arc => do return { arc with target := ← doc.getNat maxStored }, .always⟩,
  ⟨"edge", fun doc arc => do
    return { arc with edge := ← doc.getRecord Edge.fields default }, .always⟩]

/-- Read an edge in its place. -/
def Doc.getArc : Doc → Except Fault Arc
  | array items ending => readFields Arc.fields items ending default
  | other => .error other.mismatch

/-- Read a list in which nothing may stand. -/
def Doc.getNone : Doc → Except Fault Unit
  | array [] ending => ending.close
  | array (item :: _) _ => do
    let _ ← item.getNat maxStored
    .error .data
  | other => .error other.mismatch

/-- The word for edges with a direction, and the one for edges without. -/
def Graph.directedOfName? (name : String) : Option Bool :=
  if name = Graph.directedName then some true
  else if name = "undirected" then some false
  else none

/-- The nodes and edges of a graph as they are read. -/
structure GraphBody where
  nodes : List Node := []
  arcs : List Arc := []
  directed : Bool := true

/-- The fields of the nodes and edges. -/
def GraphBody.fields : List (Doc.Field GraphBody) := [
  ⟨"nodes", fun doc body => do
    return { body with nodes := ← doc.getList (getRecord Node.fields default) }, .always⟩,
  ⟨"node_holes", fun doc body => do
    doc.getNone
    return body, .never⟩,
  ⟨"edge_property", fun doc body => do
    return { body with directed := ← doc.getName Graph.directedOfName? }, .always⟩,
  ⟨"edges", fun doc body => do return { body with arcs := ← doc.getList getArc }, .always⟩]

/-- Read the nodes and edges of a graph. -/
def Doc.getBody (doc : Doc) (graph : Graph) : Except Fault Graph := do
  let body ← doc.getRecord GraphBody.fields {}
  let count := body.nodes.length
  if body.directed && body.arcs.all fun arc => arc.source < count && arc.target < count then
    return { graph with nodes := body.nodes.toArray, arcs := body.arcs.toArray }
  else .error .data

/-- Read an index. -/
def Doc.getIndex (doc : Doc) : Except Fault (Std.HashMap String Nat) :=
  Std.HashMap.ofList <$> doc.getTable (getNat maxStored)

/-- Read an instant. -/
def Doc.getInstant (doc : Doc) : Except Fault Instant := do
  match Instant.ofText? (← doc.getText) with
  | some instant => return instant
  | none => .error .data

/-- The fields of the metadata. -/
def Graph.metadataFields : List (Doc.Field Graph) := [
  ⟨"files", fun doc graph => do return { graph with files := ← doc.getList getPath }, .always⟩,
  ⟨"language", fun doc graph => do return { graph with language := ← doc.getText }, .always⟩,
  ⟨"created_at", fun doc graph => do return { graph with created := ← doc.getInstant }, .always⟩]

/-- The fields of a graph. -/
def Graph.fields : List (Doc.Field Graph) := [
  ⟨"graph", getBody, .always⟩,
  ⟨"node_index", fun doc graph => do return { graph with nodeIndex := ← doc.getIndex }, .always⟩,
  ⟨"edge_index", fun doc graph => do return { graph with edgeIndex := ← doc.getIndex }, .always⟩,
  ⟨"metadata", fun doc graph => doc.getRecord Graph.metadataFields graph, .always⟩]

/-- The graph that a text is the stored form of. -/
def Graph.ofText (text : String) : Except Fault Graph :=
  Doc.decode (getRecord Graph.fields .empty) text

end CodeGraph

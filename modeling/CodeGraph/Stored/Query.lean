import CodeGraph.Graph.Query
import CodeGraph.Json.Typed
import CodeGraph.Json.Writer

/-!
# Queries as text

The stored form of a query holds only what the query says: filters by the names of kinds, a part of
a name, a bound on the length of paths.
-/

namespace CodeGraph

namespace Query

open Doc

/-- The largest bound on the length of paths. -/
def maxBound : Nat := 0xFFFFFFFFFFFFFFFF

/-- Read a filter by kinds, given the names of the kinds. -/
def getKinds {α : Type} (ofName? : String → Option α) (doc : Doc) :
    Except Fault (Option (List α)) :=
  doc.getOption (getList (getName ofName?))

/-- The fields of a query. -/
def fields : List (Doc.Field Query) := [
  ⟨"node_types", fun doc query => do
    return { query with nodeKinds := ← getKinds NodeKind.ofName? doc }, .never⟩,
  ⟨"edge_types", fun doc query => do
    return { query with edgeKinds := ← getKinds EdgeKind.ofName? doc }, .never⟩,
  ⟨"pattern", fun doc query => do
    return { query with pattern := ← doc.getOption getText }, .never⟩,
  ⟨"max_depth", fun doc query => do
    return { query with maxDepth := ← doc.getOption (getNat maxBound) }, .never⟩]

/-- Read a query. -/
def ofDoc (doc : Doc) : Except Fault Query := doc.getRecord fields {}

/-- The query that a text is the stored form of. -/
def ofText (text : String) : Except Fault Query := Doc.decode ofDoc text

/-- A member of an object, if there is something to write. -/
def member {α : Type} (key : String) (value : Option α) (write : α → Doc) : List (String × Doc) :=
  (value.map fun value => (key, write value)).toList

/-- The stored form of a list of names. -/
def namesDoc (names : List String) : Doc := ofList (names.map Doc.ofText)

/-- The stored form of a query. -/
def toDoc (query : Query) : Doc :=
  ofMembers (member "node_types" query.nodeKinds (fun kinds => namesDoc (kinds.map NodeKind.name))
    ++ member "edge_types" query.edgeKinds (fun kinds => namesDoc (kinds.map EdgeKind.name))
    ++ member "pattern" query.pattern Doc.ofText
    ++ member "max_depth" query.maxDepth ofNat)

end Query

end CodeGraph

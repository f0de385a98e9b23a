import CodeGraph.Proofs.Calls.Returns
import CodeGraph.Proofs.Graph.Part

/-!
# Linking graphs of files

In a graph that was united from graphs of files (`Graph.Gathered`) edges can be told apart, since no path
contains one of the texts that separate the parts of an edge id. So linking adds all connections between the
calls that it resolves and what they aim at, each as an edge of its own unless the graph has it already, and
changes nothing else but the marks of these calls (`Graph.Gathered.linkAcrossFiles_exact`).
-/

namespace CodeGraph

namespace Graph

variable {graph : Graph}

/-- `Gathered graph`: the graph was united from graphs of files whose paths contain neither of the texts
that separate the parts of an edge id.

* `file`: the graph of one file.
* `absorb`: everything that another such graph holds was added.
* `merge`: the union of a list of such graphs. -/
inductive Gathered : Graph → Prop
  | file (present : Instant) (file : SourceFile) : Plain file.path.text →
      Gathered (ofFile present file)
  | absorb {graph other : Graph} : Gathered graph → Gathered other →
      Gathered (graph.absorb other).1
  | merge (present : Instant) (graphs : List Graph) : (∀ graph ∈ graphs, Gathered graph) →
      Gathered (merge present graphs)

namespace Gathered

theorem wellFormed (gathered : graph.Gathered) : graph.WellFormed := by
  induction gathered with
  | file present file _ => exact wellFormed_ofFile present file
  | absorb _ _ ih ih' => exact (ih.absorb ih').1
  | merge present graphs _ ih => exact wellFormed_merge present ih

theorem plainIds (gathered : graph.Gathered) : graph.PlainIds := by
  induction gathered with
  | file present file plain => exact plainIds_ofFile present plain
  | absorb first second ih ih' => exact ih.absorb ih' first.wellFormed second.wellFormed
  | merge present graphs all ih =>
    cases graphs with
    | nil => exact fun handle node found => by simp [Graph.merge, stamped, empty] at found
    | cons first rest =>
      have none : empty.PlainIds := fun handle node found => by simp [empty] at found
      exact none.unite wellFormed_empty (fun other there => (all other there).wellFormed) ih

theorem tellsEdges (gathered : graph.Gathered) : graph.TellsEdges :=
  gathered.wellFormed.tellsEdges_of_plain gathered.plainIds

/-- Linking adds the connections between the calls that it resolves and what they aim at, and no other
edges. It marks these calls as resolved and counts them; all else stays as it was. -/
theorem linkAcrossFiles_exact (gathered : graph.Gathered) :
    (∀ kind source target tag,
      graph.linkAcrossFiles.1.HasEdge kind source target tag ↔
        graph.HasEdge kind source target tag ∨
          ∃ handle call goal connection, graph.Pending handle call ∧ graph.Aims call goal ∧
            graph.Links handle call goal connection ∧ connection.kind = kind ∧
            connection.source = source ∧ connection.target = target ∧ connection.tag = tag) ∧
      (∀ (place : Nat) (arc : Arc), graph.arcs[place]? = some arc →
        graph.linkAcrossFiles.1.arcs[place]? = some arc) ∧
      (∀ handle node, graph.Linked handle node →
        graph.linkAcrossFiles.1.nodes[handle]? = some (node.set "resolved" (.flag true))) ∧
      (∀ handle, (¬ ∃ node, graph.Linked handle node) →
        graph.linkAcrossFiles.1.nodes[handle]? = graph.nodes[handle]?) ∧
      (graph.linkAcrossFiles.1.files = graph.files ∧
        graph.linkAcrossFiles.1.language = graph.language ∧
        graph.linkAcrossFiles.1.created = graph.created) ∧
      ∃ handles : List Nat, handles.Nodup ∧
        (∀ handle, handle ∈ handles ↔ ∃ node, graph.Linked handle node) ∧
        graph.linkAcrossFiles.2 = handles.length := by
  have formed := gathered.wellFormed
  exact ⟨formed.hasEdge_linkAcrossFiles gathered.tellsEdges, formed.linkAcrossFiles.2.arcs,
    fun handle node linked => node_of_linked linked,
    fun handle unlinked => node_of_not_linked unlinked, metadata_linkAcrossFiles graph,
    graph.linkedCalls.map LinkedCall.node, graph.nodup_linkedCalls,
    mem_linkedCalls_node, (List.length_map _).symm⟩

/-- A file with the tree of `f()`. -/
def caller (path : String) : SourceFile where
  path := ⟨path⟩
  source := .ofString "f()"
  tree := .node { kind := "program", start := 0, stop := 3, named := true }
    [.node { kind := "expression_statement", start := 0, stop := 3, named := true }
      [.node { kind := "call_expression", start := 0, stop := 3, named := true }
        [.node { kind := "identifier", field := some "function", start := 0, stop := 1, named := true }
          [],
        .node { kind := "arguments", field := some "arguments", start := 1, stop := 3, named := true }
          []]]]

end Gathered

end Graph

/-! ## A call into another file -/

namespace SourceFile

/-- A file with the tree of `function f(a) { return a; }`. -/
def returning : SourceFile where
  path := ⟨"a.ts"⟩
  source := .ofString "function f(a) \x7b return a; \x7d"
  tree :=
    let node (kind : String) (field : Option String) (start stop : Nat) (children : List Tree) :=
      Tree.node { kind, field, start, stop, named := true } children
    node "program" none 0 27 [node "function_declaration" none 0 27 [
      node "identifier" (some "name") 9 10 [],
      node "formal_parameters" (some "parameters") 10 13 [node "required_parameter" none 11 12 [
        node "identifier" (some "pattern") 11 12 []]],
      node "statement_block" (some "body") 14 27 [node "return_statement" none 16 25 [
        node "identifier" none 23 24 []]]]]

/-- A file with the tree of `function g() { return f(1); }`. -/
def consuming : SourceFile where
  path := ⟨"b.ts"⟩
  source := .ofString "function g() \x7b return f(1); \x7d"
  tree :=
    let node (kind : String) (field : Option String) (start stop : Nat) (children : List Tree) :=
      Tree.node { kind, field, start, stop, named := true } children
    node "program" none 0 29 [node "function_declaration" none 0 29 [
      node "identifier" (some "name") 9 10 [],
      node "formal_parameters" (some "parameters") 10 12 [],
      node "statement_block" (some "body") 13 29 [node "return_statement" none 15 27 [
        node "call_expression" none 22 26 [
          node "identifier" (some "function") 22 23 [],
          node "arguments" (some "arguments") 23 26 [node "number" none 24 25 []]]]]]]

theorem returning_apart : returning.Apart := by decide +kernel

theorem consuming_apart : consuming.Apart := by decide +kernel

/-- Linking sees a free function with one parameter, which returns at its statement. -/
theorem returning_seen (present : Instant) :
    let graph := Graph.ofFile present returning
    ∃ target param site, graph.IdAt target "a.ts:function:0-27" ∧
      graph.IdAt param "a.ts:parameter:11-12" ∧ graph.IdAt site "a.ts:statement:16-25" ∧
      graph.FreeFunction target "f" ∧ graph.ParamOf target 0 param ∧ graph.nameOf param = "a" ∧
      graph.ReturnSite target site := by
  intro graph
  have formed := Graph.wellFormed_ofFile present returning
  have grown := grown_ofFile present returning
  obtain ⟨function, listed, id, kind, named, plain, top⟩ : ∃ yield ∈ returning.yields,
      yield.node.id = "a.ts:function:0-27" ∧ yield.node.kind = .func ∧ yield.node.name = some "f" ∧
        yield.node.properties.get? "isMethod" = some (.flag false) ∧ yield.home.container = none := by
    decide +kernel
  obtain ⟨param, listed', id', kind', named', index, home⟩ : ∃ yield ∈ returning.yields,
      yield.node.id = "a.ts:parameter:11-12" ∧ yield.node.kind = .param ∧
        yield.node.name = some "a" ∧
        yield.node.properties.get? "index" = some (.ofNat 0) ∧
        yield.home = ⟨some "a.ts:function:0-27", some "a.ts:function:0-27"⟩ := by
    decide +kernel
  obtain ⟨site, listed'', id'', answers, around⟩ : ∃ yield ∈ returning.yields,
      yield.node.id = "a.ts:statement:16-25" ∧ yield.Answers ∧
        yield.home.function = some "a.ts:function:0-27" := by
    decide +kernel
  obtain ⟨target, there⟩ := exists_idAt_ofFile present ⟨function, listed, id⟩
  obtain ⟨first, there'⟩ := exists_idAt_ofFile present ⟨param, listed', id'⟩
  obtain ⟨place, there''⟩ := exists_idAt_ofFile present ⟨site, listed'', id''⟩
  obtain ⟨node, found, same, name, properties⟩ :=
    node_of_yield returning_apart listed (id ▸ there)
  obtain ⟨node', found', -, name', -⟩ := node_of_yield returning_apart listed' (id' ▸ there')
  have func : graph.hasKind target .func = true := by
    rw [Graph.hasKind, found, Option.map_some, same, kind]
    rfl
  refine ⟨target, first, place, there, there', there'', ⟨⟨node, found, same.trans kind,
    name.trans named⟩, ?apart, node, found, ?plain⟩, ?takes, ?name, ?returns⟩
  case apart =>
    have above := grown.parent? formed returning_apart.told listed (id ▸ there)
    rw [top] at above
    rintro ⟨owner, parent, up, -⟩
    obtain ⟨_, missing, -⟩ := rel_some_left above up
    cases missing
  case plain =>
    rw [Properties.isSet, properties "isMethod" (by decide), plain]
    rfl
  case takes =>
    refine (paramOf_iff returning_apart func).2 ⟨.ofNat 0, ⟨param, listed', kind', id' ▸ there', ?_,
      by rw [home], _, by rw [home], there⟩, (Binary64.toCount_ofNat (by decide)).symm⟩
    rw [Properties.number?, index]
    rfl
  case name => rw [Graph.nameOf, found', Option.bind_some, name', named', Option.getD_some]
  case returns =>
    exact (returnSite_iff returning_apart func).2
      ⟨site, listed'', answers, id'' ▸ there'', _, around, there⟩

/-- The call of the file is in a function, and reaches nothing in the file. -/
theorem consuming_pending (present : Instant) :
    let graph := Graph.ofFile present consuming
    ∃ caller call node, graph.IdAt caller "b.ts:function:0-29" ∧
      graph.IdAt call "b.ts:call:22-26" ∧ graph.Pending call node ∧
      graph.enclosingFunction? call = some caller ∧
      node.properties.text? "callee" = some "f" ∧
      node.properties.isSet "isConstructor" = false ∧
      node.properties.isSet "isMethodCall" = false ∧
      node.properties.isSet "consumed" = true ∧
      node.properties.number? "argCount" = some (.ofNat 1) := by
  intro graph
  have formed := Graph.wellFormed_ofFile present consuming
  obtain ⟨yield, listed, id, kind, around, callee, isNew, member, consumed, count⟩ :
      ∃ yield ∈ consuming.yields, yield.node.id = "b.ts:call:22-26" ∧ yield.node.kind = .call ∧
        yield.home.function = some "b.ts:function:0-29" ∧
        yield.node.properties.get? "callee" = some (.text "f") ∧
        yield.node.properties.get? "isConstructor" = some (.flag false) ∧
        yield.node.properties.get? "isMethodCall" = some (.flag false) ∧
        yield.node.properties.get? "consumed" = some (.flag true) ∧
        yield.node.properties.get? "argCount" = some (.ofNat 1) := by
    decide +kernel
  obtain ⟨call, there⟩ := exists_idAt_ofFile present ⟨yield, listed, id⟩
  obtain ⟨node, found, same, -, properties⟩ := node_of_yield consuming_apart listed (id ▸ there)
  obtain ⟨caller, nearest, function⟩ := rel_some_right
    ((grown_ofFile present consuming).enclosingFunction? formed consuming_apart.told listed
      (id ▸ there)) around
  refine ⟨caller, call, node, function, there, ⟨found, same.trans kind, ?unresolved⟩, nearest,
    ?callee, ?isNew, ?member, ?consumed, ?count⟩
  case unresolved =>
    obtain ⟨cursor, fact, -, last, rfl⟩ := Facts.call_of_node found (same.trans kind)
    have written : ∀ fact ∈ (Facts.of consuming).calls.toList, fact.callee = .function "f" := by
      decide +kernel
    have names : ∀ fact ∈ (Facts.of consuming).functions.toList, fact.name ≠ some "f" := by
      decide +kernel
    have stays : (Facts.of consuming).isResolved fact = false := by
      rw [Bool.eq_false_iff, Ne, Facts.isResolved_iff]
      rintro ⟨target, candidate⟩
      exact Facts.not_candidate_of_names (written fact last.mem)
        (fun fact inside => names fact (Array.mem_toList_iff.2 inside)) target candidate
    rw [Node.set, Properties.flag?, Properties.get?_insert_self, stays]
    rfl
  case callee =>
    rw [Properties.text?, properties "callee" (by decide), callee]
    rfl
  case isNew =>
    rw [Properties.isSet, properties "isConstructor" (by decide), isNew]
    rfl
  case member =>
    rw [Properties.isSet, properties "isMethodCall" (by decide), member]
    rfl
  case consumed =>
    rw [Properties.isSet, properties "consumed" (by decide), consumed]
    rfl
  case count =>
    rw [Properties.number?, properties "argCount" (by decide), count]
    rfl

/-- Where both files stand in a graph, the call aims at the function of the other file, and linking asks for
an edge from the function around it, from the function and its return statement to the call, and from the
call to the parameter. None of them is there before. -/
theorem consuming_aims {present present' : Instant} {whole : Graph} {front back : Nat}
    (formed : whole.WellFormed) (first : (Graph.ofFile present returning).Stands whole front)
    (second : (Graph.ofFile present' consuming).Stands whole back)
    (behind : front + (Graph.ofFile present returning).nodes.size ≤ back) :
    ∃ target param site caller call node,
      (whole.IdAt target "a.ts:function:0-27" ∧ whole.IdAt param "a.ts:parameter:11-12" ∧
        whole.IdAt site "a.ts:statement:16-25" ∧ whole.IdAt caller "b.ts:function:0-29" ∧
        whole.IdAt call "b.ts:call:22-26") ∧
      whole.Pending call node ∧ whole.Aims node target ∧
      ∀ bond ∈ [(EdgeKind.call, caller, target, none), (.result, target, call, none),
          (.flow, site, call, some "return"), (.flow, call, param, some "a")],
        ¬ whole.HasEdge bond.1 bond.2.1 bond.2.2.1 bond.2.2.2 ∧
          ∃ connection, whole.Links call node target connection ∧ connection.kind = bond.1 ∧
            connection.source = bond.2.1 ∧ connection.target = bond.2.2.1 ∧
            connection.tag = bond.2.2.2 := by
  have formed₁ := Graph.wellFormed_ofFile present returning
  have formed₂ := Graph.wellFormed_ofFile present' consuming
  obtain ⟨target, param, site, there, there', there'', free, takes, name, returns⟩ :=
    returning_seen present
  obtain ⟨caller, call, node, function, spot, ⟨found, kind, unresolved⟩, nearest, callee, isNew,
    member, consumed, count⟩ := consuming_pending present'
  have less := spot.lt
  have held : whole.nodes[back + call]? = some node := (second.nodes call less).trans found
  have around := second.enclosingFunction? formed₂ formed less
  rw [nearest, Option.map_some] at around
  have aims : whole.Aims node (front + target) := by
    refine ⟨"f", callee, ?_⟩
    rw [if_neg (by simp [isNew]), if_neg (by simp [member])]
    exact first.freeFunction formed₁ free
  have named : whole.nameOf (front + param) = "a" := by
    rw [Graph.nameOf, first.nodes param there'.lt]
    exact name
  -- An edge between the two files would leave the part of the first one.
  have leaves : ∀ {inner outer : Nat}, inner < (Graph.ofFile present returning).nodes.size →
      (Graph.ofFile present returning).spans front (front + inner) ≠
        (Graph.ofFile present returning).spans front (back + outer) := by
    intro inner outer small same
    have yes : (Graph.ofFile present returning).spans front (front + inner) = true :=
      Graph.spans_iff.2 (by omega)
    rw [yes, eq_comm, Graph.spans_iff] at same
    omega
  refine ⟨front + target, front + param, front + site, back + caller, back + call, node,
    ⟨first.idAt there, first.idAt there', first.idAt there'', second.idAt function,
      second.idAt spot⟩, ⟨held, kind, unresolved⟩, aims, fun bond inside => ?_⟩
  simp only [List.mem_cons, List.not_mem_nil, or_false] at inside
  rcases inside with rfl | rfl | rfl | rfl
  · exact ⟨fun has => leaves there.lt (first.closed_hasEdge formed has).symm,
      _, .call around, rfl, rfl, rfl, rfl⟩
  · exact ⟨fun has => leaves there.lt (first.closed_hasEdge formed has),
      _, .result consumed, rfl, rfl, rfl, rfl⟩
  · exact ⟨fun has => leaves there''.lt (first.closed_hasEdge formed has),
      _, .returned consumed (first.returnSite formed₁ formed returns), rfl, rfl, rfl, rfl⟩
  · refine ⟨fun has => leaves there'.lt (first.closed_hasEdge formed has).symm,
      _, .argument (first.paramOf formed₁ takes) count ?_, rfl, rfl, rfl, by rw [named]⟩
    rw [Binary64.toCount_ofNat (by decide)]
    decide

end SourceFile

namespace Graph

namespace Gathered

open SourceFile

theorem plain_two : Plain "a.ts" ∧ Plain "b.ts" := by decide +kernel

theorem wellFormed_two :
    ∀ part ∈ [ofFile .epoch returning, ofFile .epoch consuming], part.WellFormed := by
  intro part there
  simp only [List.mem_cons, List.not_mem_nil, or_false] at there
  rcases there with rfl | rfl <;> exact wellFormed_ofFile _ _

theorem separate_two : [ofFile .epoch returning, ofFile .epoch consuming].Pairwise Separate := by
  have apart : returning.path ≠ consuming.path := by decide
  simpa using separate_ofFile .epoch .epoch plain_two.1 plain_two.2 apart

/-- The two files stand in their union one behind the other. -/
theorem stand_two :
    let graph := Graph.merge .epoch [ofFile .epoch returning, ofFile .epoch consuming]
    (ofFile .epoch returning).Stands graph 0 ∧
      (ofFile .epoch consuming).Stands graph (ofFile .epoch returning).nodes.size := by
  refine ⟨@stands_merge .epoch [] [ofFile .epoch consuming] _ wellFormed_two separate_two, ?_⟩
  have second := @stands_merge .epoch [ofFile .epoch returning] [] _ wellFormed_two separate_two
  simpa [sizeOfAll] using second

/-- There is one call in the union of the two files. -/
theorem idAt_of_call {handle : Nat} {node : Node}
    (found : (Graph.merge .epoch [ofFile .epoch returning, ofFile .epoch consuming]).nodes[handle]? =
      some node) (kind : node.kind = .call) :
    (Graph.merge .epoch [ofFile .epoch returning, ofFile .epoch consuming]).IdAt handle
      "b.ts:call:22-26" := by
  obtain ⟨nodes, -⟩ := content_merge_of_separate .epoch wellFormed_two separate_two
  rw [← Array.getElem?_toList, nodes] at found
  refine ⟨node, by rw [← Array.getElem?_toList, nodes]; exact found, ?_⟩
  obtain ⟨part, inside, there⟩ := List.mem_flatMap.1 (List.mem_of_getElem? found)
  obtain ⟨place, held⟩ := Array.mem_iff_getElem?.1 (Array.mem_toList_iff.1 there)
  have ids : ∀ file ∈ [returning, consuming], ∀ yield ∈ file.yields, yield.node.kind = .call →
      yield.node.id = "b.ts:call:22-26" := by
    decide +kernel
  obtain ⟨file, listed, rfl⟩ : ∃ file ∈ [returning, consuming], ofFile .epoch file = part := by
    simpa [eq_comm] using inside
  obtain ⟨yield, yielded, id, same, -⟩ := yield_of_node held
  exact id.symm.trans (ids file listed yield yielded (same.trans kind))

/-- Linking the union of the two files adds these edges, and counts one call. -/
theorem linked_two_files :
    let graph := Graph.merge .epoch [ofFile .epoch returning, ofFile .epoch consuming]
    (Plain "a.ts" ∧ Plain "b.ts") ∧ ∃ target param site caller call : Nat,
      (graph.IdAt target "a.ts:function:0-27" ∧ graph.IdAt param "a.ts:parameter:11-12" ∧
        graph.IdAt site "a.ts:statement:16-25" ∧ graph.IdAt caller "b.ts:function:0-29" ∧
        graph.IdAt call "b.ts:call:22-26") ∧
      (∀ bond ∈ [(EdgeKind.call, caller, target, none), (.result, target, call, none),
          (.flow, site, call, some "return"), (.flow, call, param, some "a")],
        ¬ graph.HasEdge bond.1 bond.2.1 bond.2.2.1 bond.2.2.2 ∧
          graph.linkAcrossFiles.1.HasEdge bond.1 bond.2.1 bond.2.2.1 bond.2.2.2) ∧
      (∃ node, graph.linkAcrossFiles.1.nodes[call]? = some node ∧
        node.properties.flag? "resolved" = some true) ∧
      graph.linkAcrossFiles.2 = 1 := by
  intro graph
  have gathered : graph.Gathered := by
    refine .merge .epoch _ fun part there => ?_
    simp only [List.mem_cons, List.not_mem_nil, or_false] at there
    rcases there with rfl | rfl
    · exact .file .epoch returning plain_two.1
    · exact .file .epoch consuming plain_two.2
  have formed := gathered.wellFormed
  obtain ⟨edges, -, marked, -, -, handles, distinct, all, counts⟩ := linkAcrossFiles_exact gathered
  obtain ⟨target, param, site, caller, call, node, ids, pending, aims, links⟩ :=
    consuming_aims formed stand_two.1 stand_two.2 (Nat.zero_add _).le
  have linked : graph.Linked call node := ⟨pending, target, aims⟩
  refine ⟨plain_two, target, param, site, caller, call, ids, fun bond inside => ?added,
    ⟨_, marked call node linked, ?mark⟩, ?one⟩
  case added =>
    obtain ⟨new, connection, asked, kind, source, end_, tag⟩ := links bond inside
    exact ⟨new, (edges _ _ _ _).2
      (.inr ⟨call, node, target, connection, pending, aims, asked, kind, source, end_, tag⟩)⟩
  case mark =>
    rw [Node.set, Properties.flag?, Properties.get?_insert_self]
    rfl
  case one =>
    have only : ∀ handle, handle ∈ handles ↔ handle = call := by
      intro handle
      rw [all]
      constructor
      · rintro ⟨other, ⟨found, kind, -⟩, -⟩
        exact formed.idAt_unique (idAt_of_call found kind) ids.2.2.2.2
      · rintro rfl
        exact ⟨node, linked⟩
    have same : handles.Perm [call] :=
      (List.perm_ext_iff_of_nodup distinct (List.nodup_singleton call)).2 fun handle =>
        (only handle).trans List.mem_singleton.symm
    exact counts.trans same.length_eq

end Gathered

end Graph

end CodeGraph

import CodeGraph.Proofs.Calls.Gathered
import CodeGraph.Proofs.Flow.Emission

/-!
# The schema of the graph

Between which kinds of nodes there can be an edge of a kind (`EdgeKind.Admits`). The walk contains nodes
where the chart of the file has them (`Facts.Charts.fits_child`), and each stage behind the walk joins
sites, functions, calls and variables of which it is known what they are (`Facts.Sound.fits_connections`);
so the graph of a file keeps to the schema (`Graph.conforms_ofFile`). Unions identify nodes by their ids,
which tell the kinds (`SourceFile.kind_of_id`), and linking reads what it joins off the graph. So whatever
is made of graphs of files keeps to the schema as well (`Graph.Joined.keeps_schema`).
-/

namespace CodeGraph

/-- `kind.Admits source target`: an edge of the kind can lead from a node of one kind to one of another. -/
def EdgeKind.Admits : EdgeKind → NodeKind → NodeKind → Prop
  | child, source, target => source ∉ [.var, .param] ∧ (target = .param → source = .func)
  | successor, source, target => source ∈ [.stmt, .expr, .func] ∧ target ∈ [.stmt, .expr, .func]
  | predecessor, source, target => source ∈ [.stmt, .expr, .func] ∧ target ∈ [.stmt, .expr, .func]
  | flow, source, target => source ∈ [.stmt, .expr, .cls, .param, .call] ∧
      target ∈ [.stmt, .expr, .cls, .call, .func, .param]
  | call, source, target => source = .func ∧ target = .func
  | result, source, target => source = .func ∧ target = .call
  | defines, source, target => source ∈ [.stmt, .expr, .cls] ∧ target ∈ [.var, .param]
  | uses, source, target => source ∈ [.stmt, .expr, .call, .cls, .func] ∧ target ∈ [.var, .param]

instance (kind : EdgeKind) (source target : NodeKind) : Decidable (kind.Admits source target) := by
  cases kind <;> exact inferInstanceAs (Decidable (_ ∧ _))

namespace Graph

variable {graph other : Graph}

/-- Two nodes are of kinds between which there can be an edge of a kind. -/
def Fits (graph : Graph) (kind : EdgeKind) (source target : Nat) : Prop :=
  ∃ from_ to_, graph.nodes[source]? = some from_ ∧ graph.nodes[target]? = some to_ ∧
    kind.Admits from_.kind to_.kind

/-- Every edge of a graph keeps to the schema. -/
def Conforms (graph : Graph) : Prop :=
  ∀ edge ∈ graph.edges, graph.Fits edge.kind edge.source edge.target

/-- What is known of the kinds of two nodes is enough for an edge between them. -/
theorem KindIn.fits {source target : Nat} {sources targets : List NodeKind}
    (from_ : graph.KindIn source sources) (kind : EdgeKind) (to_ : graph.KindIn target targets)
    (admits : ∀ a ∈ sources, ∀ b ∈ targets, kind.Admits a b) : graph.Fits kind source target := by
  obtain ⟨left, found, inside⟩ := from_
  obtain ⟨right, found', inside'⟩ := to_
  exact ⟨left, right, found, found', admits _ inside _ inside'⟩

theorem Fits.kept {kind : EdgeKind} {source target : Nat} (fits : graph.Fits kind source target)
    (kept : graph.Kept other) : other.Fits kind source target := by
  obtain ⟨from_, to_, left, right, admits⟩ := fits
  obtain ⟨from', left', -, same, -⟩ := kept.nodes _ _ left
  obtain ⟨to', right', -, same', -⟩ := kept.nodes _ _ right
  exact ⟨from', to', left', right', by rwa [same, same']⟩

/-- A graph whose edges are those of another one or fit it keeps to the schema. -/
theorem Conforms.grow (conforms : graph.Conforms) (kept : graph.Kept other)
    (edges : ∀ edge ∈ other.edges, edge ∈ graph.edges ∨
      graph.Fits edge.kind edge.source edge.target) : other.Conforms :=
  fun edge inside => ((edges edge inside).elim (conforms edge) id).kept kept

theorem Conforms.connectAll (conforms : graph.Conforms) {connections : List Connection}
    (fit : ∀ connection ∈ connections,
      graph.Fits connection.kind connection.source connection.target) :
    (graph.connectAll connections).Conforms := by
  refine conforms.grow (WellFormed.kept_connectAll _ _) fun edge inside => ?_
  rcases edge_of_connectAll inside with old | ⟨connection, there, kind, source, target, -⟩
  · exact .inl old
  · exact .inr (kind ▸ source ▸ target ▸ fit connection there)

theorem Conforms.setProperty (conforms : graph.Conforms) (handle : Nat) (key : String)
    (value : PropertyValue) : (graph.setProperty handle key value).Conforms :=
  conforms.grow (WellFormed.kept_setProperty _ _ _ _) fun _ inside => .inl inside

end Graph

/-! ## Graphs of files -/

namespace Facts

variable {file : SourceFile} {facts : Facts}

/-- The handle that placing a node gives is that of a node of its kind. -/
theorem Formed.kind_place (formed : Formed file facts.graph) {node : Node} (draws : file.Draws node)
    (parent : Option Nat) :
    (facts.place node parent).1.graph.KindIn (facts.place node parent).2 [node.kind] := by
  obtain ⟨held, found, same⟩ := handle_place formed.wellFormed node parent
  have drawn := (@Formed.place file facts parent node formed draws).draws _ held found
  exact ⟨held, found, List.mem_singleton.2 (drawn.kind_eq draws same)⟩

/-- The facts about functions are about functions. -/
theorem Charts.functions (charts : Charts file file.yields facts) :
    ∀ signature ∈ facts.signatures, facts.graph.KindIn signature.node [.func] := by
  induction charts with
  | start => exact fun _ none => nomatch none
  | @quiet before after _ same ih =>
    have functions : after.functions = before.functions := congrArg View.functions same
    have graph : after.graph = before.graph := congrArg View.graph same
    rw [graph, signatures, functions]
    exact ih
  | @place facts node parent home _ _ _ _ _ _ ih =>
    exact fun signature inside => (ih signature inside).kept (extends_place facts node parent).graph
  | @param facts cursor context home number position rest optional hasDefault _ _ _ _ _ ih =>
    have placed := (extends_place facts
      (paramNode file cursor position rest optional hasDefault) context.parent).graph
    have same : (noteParam (facts.place (paramNode file cursor position rest optional hasDefault)
        context.parent).1 number position (facts.place (paramNode file cursor position rest optional
        hasDefault) context.parent).2).signatures = facts.signatures :=
      signatures_modify _ number fun _ => rfl
    rw [same]
    exact fun signature inside => (ih signature inside).kept placed
  | @push facts context home site kind _ _ _ _ ih =>
    rw [graph_pushStatement, signatures, functions_pushStatement]
    exact ih
  | @returns facts context home site _ _ _ ih =>
    rw [graph_recordReturn, graph_pushStatement, signatures_recordReturn, signatures,
      functions_pushStatement]
    exact ih
  | @enter facts node name isMethod charts function ih =>
    obtain ⟨yield, inside, spot, func⟩ := function
    have kind := charts.formed.kind_of_yield inside spot
    rw [func] at kind
    rw [signatures_pushFunction]
    refine List.forall_mem_append.2 ⟨ih, fun signature only => ?_⟩
    obtain rfl := List.mem_singleton.1 only
    exact kind
  | call context home call _ _ _ _ ih => exact ih

/-- Placing a node keeps containment to the schema if the node may stand in its container. -/
theorem Formed.fits_place (formed : Formed file facts.graph) {node : Node} (draws : file.Draws node)
    {parent : Option Nat} (there : ∀ source, parent = some source → source < facts.graph.nodes.size)
    (fits : ∀ source, parent = some source →
      (facts.place node parent).1.graph.Fits .child source (facts.place node parent).2)
    {source target : Nat} {tag : Option String}
    (old : facts.graph.HasEdge .child source target tag → facts.graph.Fits .child source target)
    (has : (facts.place node parent).1.graph.HasEdge .child source target tag) :
    (facts.place node parent).1.graph.Fits .child source target := by
  rcases (hasEdge_place formed draws there .child source target tag).1 has with
    before | ⟨-, -, given, -, rfl⟩
  · exact (old before).kept (extends_place facts node parent).graph
  · exact fits source given

/-- The container of a node is that of a yield that contains, so it is neither a variable nor a
parameter. -/
theorem Charts.fits_container (charts : Charts file file.yields facts) {node : Node}
    (draws : file.Draws node) (plain : node.kind ≠ .param) {parent : Option Nat} {home : Home}
    (rooted : home.Rooted file.yields) {id : String} {container : Nat}
    (around : home.container = some id) (spot : facts.graph.IdAt container id) :
    (facts.place node parent).1.graph.Fits .child container (facts.place node parent).2 := by
  obtain ⟨yield, inside, rfl, contains, -⟩ := rooted.inner id around
  have above := (charts.formed.kind_of_yield inside spot).kept (extends_place facts node parent).graph
  refine above.fits .child (charts.formed.kind_place draws parent) fun a left b right => ?_
  obtain rfl := List.mem_singleton.1 left
  obtain rfl := List.mem_singleton.1 right
  refine ⟨fun binds => ?_, fun param => absurd param plain⟩
  rcases List.mem_pair.1 binds with same | same <;> simp [same, NodeKind.isBinding] at contains

/-- What the walk contains in what keeps to the schema: no variable and no parameter contains a node, and
functions alone contain parameters. -/
theorem Charts.fits_child (charts : Charts file file.yields facts) {source target : Nat}
    {tag : Option String} (has : facts.graph.HasEdge .child source target tag) :
    facts.graph.Fits .child source target := by
  induction charts generalizing source target tag with
  | start =>
    obtain ⟨edge, inside, -⟩ := has
    cases inside
  | @quiet before after _ same ih =>
    have graph : after.graph = before.graph := congrArg View.graph same
    rw [graph] at has ⊢
    exact ih has
  | @place facts node parent home charts draws plain below rooted _ ih =>
    refine charts.formed.fits_place draws (fun source given => ?_) (fun source given => ?_) ih has
    · obtain ⟨_, -, spot⟩ := rel_some_left below given
      exact spot.lt
    · obtain ⟨id, around, spot⟩ := rel_some_left below given
      exact charts.fits_container draws plain rooted around spot
  | @param facts cursor context home number position rest optional hasDefault charts stands given
      direct _ ih =>
    have draws : file.Draws (paramNode file cursor position rest optional hasDefault) :=
      draws_paramNode cursor position rest optional hasDefault
    have kept := (extends_place facts
      (paramNode file cursor position rest optional hasDefault) context.parent).graph
    obtain ⟨function, around, signature, found, named⟩ := stands.about given
    -- The node that is to contain the parameter is the one that the facts about the function are about.
    have owner : context.parent = some signature.node := by
      obtain ⟨container, above, spot⟩ := rel_some_right stands.parent (direct.trans around)
      rw [above, charts.formed.wellFormed.idAt_unique spot named]
    refine charts.formed.fits_place draws (fun source same => ?_) (fun source same => ?_) ih has
    · exact Option.some.inj (owner.symm.trans same) ▸ named.lt
    · obtain rfl := Option.some.inj (owner.symm.trans same)
      have func := (charts.functions signature (List.mem_of_getElem? found)).kept kept
      have param : (facts.place _ context.parent).1.graph.KindIn (facts.place _ context.parent).2
          [.param] := charts.formed.kind_place draws context.parent
      exact func.fits .child param (by decide)
  | push context home site kind _ _ _ _ ih =>
    rw [graph_pushStatement] at has ⊢
    exact ih has
  | returns context home site _ _ _ ih =>
    rw [graph_recordReturn, graph_pushStatement] at has ⊢
    exact ih has
  | enter node name isMethod _ _ ih => exact ih has
  | call context home call _ _ _ _ ih => exact ih has

/-! ## The later stages -/

theorem Sound.fits_access (sound : Sound file facts) {connection : Connection}
    (inside : connection ∈ facts.stages.access) :
    facts.graph.Fits connection.kind connection.source connection.target := by
  obtain ⟨number, region, place, earlier, access, found, ⟨later, split⟩, asks⟩ :=
    (DataFlow.mem_edges sound.each_region.1).1 inside
  rw [Array.getElem?_toList] at found
  have listed : region ∈ facts.regions.toList := Array.mem_toList_iff.2 (Array.mem_of_getElem? found)
  have there : access ∈ region.accessesAt place := by rw [split]; simp
  have held := (sound.regions number region found).accesses access
    (Region.mem_allAccesses.2 ⟨place, there⟩)
  cases asks with
  | defines writes =>
    have site := held.site
    rw [kind_of_defined? writes] at site
    exact site.fits .defines (held.node _ (handle?_of_defined? writes)) (by decide)
  | uses reads =>
    have site := held.site
    rw [kind_of_used? reads] at site
    exact site.fits .uses (held.node _ (handle?_of_used? reads)) (by decide)
  | flow reads live _ =>
    have site := held.site
    rw [kind_of_used? reads] at site
    exact (sound.kind_of_made (DataFlow.made_of_liveAfter listed split live)).fits .flow site (by decide)

theorem Sound.fits_results (sound : Sound file facts) {connection : Connection}
    (inside : connection ∈ facts.stages.results) :
    facts.graph.Fits connection.kind connection.source connection.target := by
  obtain ⟨call, listed, here⟩ := List.mem_flatMap.1 inside
  obtain ⟨number, found⟩ := List.getElem?_of_mem listed
  have held := sound.calls number call (by simpa using found)
  obtain ⟨consumer, given, rfl⟩ := List.mem_map.1 here
  exact held.node.fits .flow (held.consumer consumer (Option.mem_toList.1 (List.mem_filter.1 given).1))
    (by decide)

theorem Sound.fits_callEdges (sound : Sound file facts) {call : CallFact}
    (listed : call ∈ facts.calls.toList) {nameOf : Nat → String} {connection : Connection}
    (inside : connection ∈ facts.callEdges nameOf call) :
    facts.graph.Fits connection.kind connection.source connection.target := by
  obtain ⟨held, fact, known, yields⟩ := sound.yields_of_mem_callEdges listed inside
  cases yields with
  | call around => exact (held.caller _ around).fits .call known.node (by decide)
  | result _ => exact known.node.fits .result held.node (by decide)
  | returned _ listed => exact (known.returns _ listed).fits .flow held.node (by decide)
  | argument listed _ => exact held.node.fits .flow (known.params _ listed) (by decide)

/-- What the stages behind the walk ask to be connected fits. -/
theorem Sound.fits_connections (sound : Sound file facts) {connection : Connection}
    (inside : connection ∈ facts.connections) :
    facts.graph.Fits connection.kind connection.source connection.target := by
  simp only [connections, List.mem_append, or_assoc] at inside
  rcases inside with control | access | results | calls
  · obtain ⟨kind, from_, to_⟩ := sound.ends_control control
    rcases kind with kind | kind
    · exact kind ▸ from_.fits .successor to_ (by decide)
    · exact kind ▸ from_.fits .predecessor to_ (by decide)
  · exact sound.fits_access access
  · exact sound.fits_results results
  · obtain ⟨call, listed, here⟩ := List.mem_flatMap.1 calls
    exact sound.fits_callEdges listed here

end Facts

namespace Graph

variable {graph other : Graph}

/-- The graph of a file keeps to the schema, whatever its syntax tree and its path are. -/
theorem conforms_ofFile (present : Instant) (file : SourceFile) :
    (ofFile present file).Conforms := by
  have sound := Facts.sound_of file
  have formed := wellFormed_ofFile present file
  refine fun edge inside => Fits.kept ?_ (kept_ofFile present file)
  obtain ⟨tag, has⟩ := formed.hasEdge_of_mem inside
  rcases (Facts.hasEdge_ofFile present file _ _ _ _).1 has with walked | asked
  · obtain ⟨edge', inside', kind, source, target, -⟩ := walked
    obtain ⟨handle, arc, held, rfl⟩ := mem_edges.1 inside'
    have child : edge.kind = .child := kind.symm.trans (sound.children handle arc held).1
    rw [child]
    obtain ⟨tag', has'⟩ := sound.formed.hasEdge_of_mem (mem_edges.2 ⟨handle, arc, held, rfl⟩)
    rw [kind, source, target, child] at has'
    exact (Facts.charts_of file).fits_child has'
  · obtain ⟨connection, there, kind, source, target, -⟩ := asked
    exact kind ▸ source ▸ target ▸ sound.fits_connections there

/-! ## Graphs put together -/

/-- A graph that is well-formed and keeps to the schema, and whose nodes stand for nodes of syntax trees. -/
structure Typed (graph : Graph) : Prop where
  formed : graph.WellFormed
  drawn : ∀ (handle : Nat) (node : Node), graph.nodes[handle]? = some node →
    ∃ file : SourceFile, file.Draws node
  conforms : graph.Conforms

theorem typed_empty : empty.Typed :=
  ⟨wellFormed_empty, fun _ _ none => (nomatch none), fun _ none => (nomatch none)⟩

theorem typed_ofFile (present : Instant) (file : SourceFile) : (ofFile present file).Typed :=
  ⟨wellFormed_ofFile present file, fun _ _ found => ⟨file, draws_ofFile found⟩,
    conforms_ofFile present file⟩

namespace Typed

/-- In a union an edge joins nodes of the kinds that it joined before, since ids tell the kinds. -/
theorem absorb (typed : graph.Typed) (typed' : other.Typed) : (graph.absorb other).1.Typed := by
  obtain ⟨whole, kept⟩ := typed.formed.absorb typed'.formed
  have drawn : ∀ node ∈ (graph.absorb other).1.nodes.toList, ∃ file : SourceFile, file.Draws node := by
    intro node inside
    rcases typed.formed.mem_nodes_absorb typed'.formed inside with old | new
    · obtain ⟨handle, found⟩ := mem_nodes.1 old
      exact typed.drawn handle node found
    · obtain ⟨handle, found⟩ := mem_nodes.1 new
      exact typed'.drawn handle node found
  refine ⟨whole, fun handle node found => drawn node (mem_nodes.2 ⟨handle, found⟩),
    fun edge inside => ?_⟩
  obtain ⟨arc, there, rfl⟩ := List.mem_map.1 inside
  rw [typed.formed.arcs_absorb typed'.formed, List.mem_append] at there
  rcases there with old | new
  · exact (typed.conforms _ (List.mem_map_of_mem old)).kept kept
  · obtain ⟨arc, listed, rfl⟩ := List.mem_map.1 new
    have listed := (List.mem_filter.1 listed).1
    obtain ⟨place, held⟩ := Array.mem_iff_getElem?.1 (Array.mem_toList_iff.1 listed)
    obtain ⟨starts, ends⟩ := typed'.formed.ends place arc held
    obtain ⟨from_, to_, left, right, admits⟩ := typed'.conforms _ (List.mem_map_of_mem listed)
    rw [starts] at left
    rw [ends] at right
    have renames := typed.formed.renames_absorb typed'.formed
    -- An end may be renamed to a node of the other graph, but that one has the same id, and so the same kind.
    have renamed : ∀ {handle : Nat} {node : Node}, other.nodes[handle]? = some node → ∃ held,
        (graph.absorb other).1.nodes[(graph.absorb other).2.getD handle 0]? = some held ∧
          held.kind = node.kind := by
      intro handle node found
      obtain ⟨later, held, named, found', same⟩ := renames.2 handle node (by simpa using found)
      obtain ⟨file, draws⟩ := typed'.drawn handle node found
      obtain ⟨file', draws'⟩ := drawn held (mem_nodes.2 ⟨later, found'⟩)
      rw [Array.getD_eq_getD_getElem?, named, Option.getD_some]
      exact ⟨held, found', SourceFile.kind_of_id draws' draws same⟩
    obtain ⟨from', left', kind⟩ := renamed left
    obtain ⟨to', right', kind'⟩ := renamed right
    exact ⟨from', to', left', right', by rw [kind, kind']; exact admits⟩

theorem unite (typed : graph.Typed) {graphs : List Graph} (all : ∀ other ∈ graphs, other.Typed) :
    (graph.unite graphs).Typed := by
  induction graphs generalizing graph with
  | nil => exact typed
  | cons other rest ih =>
    exact ih (typed.absorb (all other List.mem_cons_self))
      fun next there => all next (List.mem_cons_of_mem _ there)

/-- Only the metadata of a graph is left out of account. -/
theorem relabelled (typed : graph.Typed) (language : String) (created : Instant) :
    { graph with language, created }.Typed :=
  ⟨typed.formed.relabelled language created, typed.drawn, typed.conforms⟩

theorem merge (present : Instant) {graphs : List Graph} (all : ∀ graph ∈ graphs, graph.Typed) :
    (merge present graphs).Typed := by
  cases graphs with
  | nil => exact typed_empty.relabelled _ present
  | cons first rest => exact (typed_empty.unite all).relabelled _ _

end Typed

/-- What linking asks to be connected fits: the tables of functions, parameters and returning sites are
read off the graph. -/
theorem fits_of_links {handle target : Nat} {call : Node} {connection : Connection}
    (pending : graph.Pending handle call) (aims : graph.Aims call target)
    (links : graph.Links handle call target connection) :
    graph.Fits connection.kind connection.source connection.target := by
  have called : graph.KindIn handle [.call] := ⟨call, pending.1, List.mem_singleton.2 pending.2.1⟩
  have function : graph.KindIn target [.func] := kind_of_aims aims
  cases links with
  | call around =>
    exact (kind_of_hasKind (hasKind_of_climb around)).fits .call function (by decide)
  | result => exact function.fits .result called (by decide)
  | returned _ returns =>
    obtain ⟨node, found, sort⟩ := returns
    have site : graph.KindIn _ [.stmt, .expr] := ⟨node, found, by
      rcases sort with ⟨kind, -⟩ | ⟨kind, -⟩ <;> simp [kind]⟩
    exact site.fits .flow called (by decide)
  | argument paramOf =>
    obtain ⟨node, number, found, kind, -⟩ := paramOf
    have param : graph.KindIn _ [.param] := ⟨node, found, List.mem_singleton.2 kind⟩
    exact called.fits .flow param (by decide)

/-- A graph keeps to the schema while calls are linked whose edges fit. -/
theorem Conforms.addLinkedAll {linked : List LinkedCall} (conforms : other.Conforms)
    (kept : graph.Kept other) (fit : ∀ call ∈ linked, ∀ connection ∈ call.edges,
      graph.Fits connection.kind connection.source connection.target) :
    (linked.foldl addLinked other).Conforms := by
  induction linked generalizing other with
  | nil => exact conforms
  | cons call rest ih =>
    have fits := fun connection inside => (fit call List.mem_cons_self connection inside).kept kept
    refine ih ((conforms.connectAll fits).setProperty _ _ _) ?_
      fun next there => fit next (List.mem_cons_of_mem _ there)
    exact (kept.trans (WellFormed.kept_connectAll _ _)).trans (WellFormed.kept_setProperty _ _ _ _)

theorem Typed.link (typed : graph.Typed) : graph.linkAcrossFiles.1.Typed := by
  refine ⟨typed.formed.linkAcrossFiles.1, fun handle node found => ?drawn, ?conforms⟩
  case drawn =>
    obtain ⟨old, held, ⟨-, rfl⟩ | ⟨-, rfl⟩⟩ := node_of_linkAcrossFiles found
    · obtain ⟨file, draws⟩ := typed.drawn handle old held
      exact ⟨file, draws.set _ _⟩
    · exact typed.drawn handle node held
  case conforms =>
    refine typed.conforms.addLinkedAll (.refl graph) fun call inside connection asked => ?_
    obtain ⟨node, ⟨pending, -⟩, edges⟩ := edges_of_mem_linkedCalls inside
    obtain ⟨target, aims, links⟩ := (edges connection).1 asked
    exact fits_of_links pending aims links

theorem Joined.typed {files : List SourceFile} (joined : graph.Joined files) : graph.Typed := by
  induction joined with
  | empty => exact typed_empty
  | file present _ => exact typed_ofFile present _
  | absorb _ _ ih ih' => exact ih.absorb ih'
  | merge present graphs _ ih => exact .merge present ih
  | addFile path _ ih => exact ⟨ih.formed.addFile path, ih.drawn, ih.conforms⟩
  | stamped instant _ ih => exact ih.relabelled _ instant
  | link _ ih => exact ih.link

/-- Every edge keeps to the schema in the graph of any file, and in any graph that was put together from
such graphs by uniting them and linking their calls. -/
theorem Joined.keeps_schema {files : List SourceFile} (joined : graph.Joined files) :
    graph.Conforms :=
  joined.typed.conforms

/-- The union of a file that calls a function and a file that declares it keeps to the schema when the call
is linked. -/
theorem caller_keeps_schema :
    let files := [Gathered.caller "b.ts", SourceFile.retrying]
    let graph := (Graph.merge .epoch (files.map (ofFile .epoch))).linkAcrossFiles.1
    graph.Joined files ∧ graph.Conforms := by
  intro files graph
  have joined : graph.Joined files := by
    refine .link (.merge .epoch _ fun each there => ?_)
    obtain ⟨file, inside, rfl⟩ := List.mem_map.1 there
    exact .file .epoch inside
  exact ⟨joined, joined.keeps_schema⟩

end Graph

end CodeGraph

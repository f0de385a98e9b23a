import CodeGraph.Proofs.Calls.Order
import CodeGraph.Proofs.Facts.Containment
import CodeGraph.Proofs.Flow.Links
import CodeGraph.Proofs.Graph.Reached

/-!
# Control flow in the graph of a file

The control-flow edges of the graph of a file are the ways that control passes in its regions
(`Region.Passes`), each with one converse edge of the same label, and between nodes of one function
(`SourceFile.flow_exact`). An edge is tagged with its label (`Graph.Tagged`), so ways that differ in their
labels alone keep edges of their own. Uniting graphs and linking calls adds no such edge
(`Graph.Joined.flow`).
-/

namespace CodeGraph

namespace Control

/-- The two edges of a link lead both ways, and are labelled and tagged alike. -/
theorem Link.mem_connections {link : Link} {connection : Connection}
    (inside : connection ∈ link.connections) :
    connection.tag = link.label.map Label.text ∧
      connection.properties.text? "label" = connection.tag ∧
      (connection.kind = .successor ∧ connection.source = link.source ∧
          connection.target = link.target ∨
        connection.kind = .predecessor ∧ connection.source = link.target ∧
          connection.target = link.source) := by
  have labelled : connection.properties.text? "label" = connection.tag := by
    simp only [connections, List.mem_cons, List.not_mem_nil, or_false] at inside
    cases label : link.label with
    | none =>
      rw [label] at inside
      rcases inside with rfl | rfl <;> rfl
    | some text =>
      rw [label] at inside
      rcases inside with rfl | rfl <;> simp [Properties.text?, PropertyValue.text?]
  simp only [connections, List.mem_cons, List.not_mem_nil, or_false] at inside
  rcases inside with rfl | rfl
  · exact ⟨rfl, labelled, .inl ⟨rfl, rfl, rfl⟩⟩
  · exact ⟨rfl, labelled, .inr ⟨rfl, rfl, rfl⟩⟩

end Control

/-- Edges of the kind lead along the flow of control, or back. -/
def EdgeKind.isControl : EdgeKind → Bool
  | successor | predecessor => true
  | _ => false

namespace Graph

variable {graph : Graph}

/-! ## Tags and labels -/

/-- Edges along the flow of control are tagged with their labels. -/
def Tagged (graph : Graph) : Prop :=
  ∀ (handle : Nat) (arc : Arc), graph.arcs[handle]? = some arc → arc.edge.kind.isControl = true →
    ∃ start goal, graph.nodes[arc.source]? = some start ∧ graph.nodes[arc.target]? = some goal ∧
      arc.edge.id = edgeId arc.edge.kind start.id goal.id (arc.edge.properties.text? "label")

theorem Tagged.connect (tagged : graph.Tagged) {connection : Connection}
    (labelled : connection.kind.isControl = true →
      connection.properties.text? "label" = connection.tag) :
    (graph.connect connection).Tagged := by
  unfold Graph.connect Graph.withEdge addEdge
  cases left : graph.nodes[connection.source]? with
  | none => exact tagged
  | some from_ =>
    cases right : graph.nodes[connection.target]? with
    | none => exact tagged
    | some to_ =>
      simp only [addArc]
      split
      · exact tagged
      · intro handle arc held control
        rw [Array.getElem?_push] at held
        split at held
        · obtain rfl := Option.some.inj held
          exact ⟨from_, to_, left, right, by rw [labelled control]⟩
        · exact tagged handle arc held control

theorem Tagged.connectAll (tagged : graph.Tagged) {connections : List Connection}
    (labelled : ∀ connection ∈ connections, connection.kind.isControl = true →
      connection.properties.text? "label" = connection.tag) :
    (graph.connectAll connections).Tagged := by
  induction connections generalizing graph with
  | nil => exact tagged
  | cons connection rest ih =>
    exact ih (tagged.connect (labelled connection List.mem_cons_self))
      fun other there => labelled other (List.mem_cons_of_mem _ there)

theorem Tagged.setProperty (tagged : graph.Tagged) (changed : Nat) (key : String)
    (value : PropertyValue) : (graph.setProperty changed key value).Tagged := by
  intro handle arc held control
  obtain ⟨start, goal, left, right, id⟩ := tagged handle arc held control
  have kept := WellFormed.kept_setProperty graph changed key value
  obtain ⟨start', left', same, -⟩ := kept.nodes _ _ left
  obtain ⟨goal', right', same', -⟩ := kept.nodes _ _ right
  exact ⟨start', goal', left', right', by rw [same, same', id]⟩

/-- An edge of a kind between two nodes, with a label, has a given handle. -/
def Labelled (graph : Graph) (kind : EdgeKind) (source target : Nat) (label : Option String)
    (handle : Nat) : Prop :=
  ∃ arc, graph.arcs[handle]? = some arc ∧ arc.edge.kind = kind ∧ arc.source = source ∧
    arc.target = target ∧ arc.edge.properties.text? "label" = label

section Labelled

variable {kind : EdgeKind} {source target : Nat} {label : Option String}

/-- There is one edge along the flow of control with a label. -/
theorem Labelled.unique {handle other : Nat} (formed : graph.WellFormed) (tagged : graph.Tagged)
    (control : kind.isControl = true) (labelled : graph.Labelled kind source target label handle)
    (also : graph.Labelled kind source target label other) : handle = other := by
  obtain ⟨arc, held, rfl, rfl, rfl, rfl⟩ := labelled
  obtain ⟨arc', held', sameKind, sameSource, sameTarget, sameLabel⟩ := also
  obtain ⟨start, goal, left, right, id⟩ := tagged handle arc held control
  obtain ⟨start', goal', left', right', id'⟩ := tagged other arc' held' (sameKind ▸ control)
  rw [sameSource, left] at left'
  rw [sameTarget, right] at right'
  obtain rfl := Option.some.inj left'
  obtain rfl := Option.some.inj right'
  rw [sameKind, sameLabel] at id'
  have first := (formed.edges_indexed arc.edge.id handle).2 ⟨arc, held, rfl⟩
  have second := (formed.edges_indexed arc.edge.id other).2 ⟨arc', held', id'.trans id.symm⟩
  exact Option.some.inj (first.symm.trans second)

/-- An edge along the flow of control is there under a tag just if it is there with the label. -/
theorem WellFormed.exists_labelled (formed : graph.WellFormed) (tells : graph.TellsEdges)
    (tagged : graph.Tagged) (control : kind.isControl = true) :
    (∃ handle, graph.Labelled kind source target label handle) ↔
      graph.HasEdge kind source target label := by
  constructor
  · rintro ⟨handle, arc, held, rfl, rfl, rfl, rfl⟩
    obtain ⟨start, goal, left, right, id⟩ := tagged handle arc held control
    exact ⟨arc.edge, mem_edges.2 ⟨handle, arc, held, rfl⟩, rfl, (formed.ends handle arc held).1,
      (formed.ends handle arc held).2, start, goal, left, right, id⟩
  · rintro ⟨edge, inside, rfl, rfl, rfl, from_, to_, left, right, id⟩
    obtain ⟨handle, arc, held, rfl⟩ := mem_edges.1 inside
    obtain ⟨sources, targets⟩ := formed.ends handle arc held
    obtain ⟨start, goal, left', right', id'⟩ := tagged handle arc held control
    -- The label is the tag under which the edge is there, since the id tells the tag.
    obtain ⟨-, -, -, same⟩ := tells _ _ _ _ _ _ _ _ _ _ _ _ left right left' right'
      (id.symm.trans id')
    exact ⟨handle, arc, held, rfl, sources.symm, targets.symm, same.symm⟩

end Labelled

end Graph

namespace Facts

variable {file : SourceFile} {facts : Facts}

/-- Only the stage of control flow asks for edges along it. -/
theorem Sound.control_of_connections (sound : Sound file facts) {connection : Connection}
    (inside : connection ∈ facts.connections) (kind : connection.kind.isControl = true) :
    ∃ link ∈ facts.stages.control, connection ∈ link.connections := by
  simp only [connections, List.mem_append, or_assoc] at inside
  rcases inside with control | access | results | calls
  · exact List.mem_flatMap.1 control
  · obtain ⟨number, region, place, earlier, access, -, -, asks⟩ :=
      (DataFlow.mem_edges sound.each_region.1).1 access
    cases asks <;> cases kind
  · obtain ⟨call, -, here⟩ := List.mem_flatMap.1 results
    obtain ⟨consumer, -, rfl⟩ := List.mem_map.1 here
    cases kind
  · obtain ⟨call, -, here⟩ := List.mem_flatMap.1 calls
    obtain ⟨target, -, here⟩ := List.mem_flatMap.1 here
    cases CallSite.mem_edges.1 here <;> cases kind

/-- The walk makes no edges along the flow of control. -/
theorem Sound.tagged_walk (sound : Sound file facts) : facts.graph.Tagged := by
  intro handle arc held control
  rw [(sound.children handle arc held).1] at control
  cases control

/-- All stages tag edges along the flow of control with their labels. -/
theorem Sound.tagged_assemble (sound : Sound file facts) : facts.assemble.Tagged := by
  have labelled : ∀ connection ∈ facts.connections, connection.kind.isControl = true →
      connection.properties.text? "label" = connection.tag := by
    intro connection inside control
    obtain ⟨link, -, there⟩ := sound.control_of_connections inside control
    exact (Control.Link.mem_connections there).2.1
  simp only [connections, List.mem_append] at labelled
  have flowing := ((sound.tagged_walk.connectAll fun connection inside =>
    labelled connection (.inl (.inl (.inl inside)))).connectAll fun connection inside =>
    labelled connection (.inl (.inl (.inr inside)))).connectAll fun connection inside =>
    labelled connection (.inl (.inr inside))
  have linked : ∀ (calls : List CallFact) (graph : Graph), graph.Tagged →
      (∀ call ∈ calls, call ∈ facts.calls.toList) →
      (calls.foldl (facts.linkCall facts.graph.nameOf) graph).Tagged := by
    intro calls
    induction calls with
    | nil => exact fun _ tagged _ => tagged
    | cons call rest ih =>
      intro graph tagged listed
      refine ih _ ((tagged.setProperty _ _ _).connectAll fun connection asked => ?_)
        fun other there => listed other (List.mem_cons_of_mem _ there)
      exact labelled connection (.inr (List.mem_flatMap.2 ⟨call, listed call List.mem_cons_self, asked⟩))
  rw [assemble, ← Array.foldl_toList]
  exact linked _ _ flowing fun _ listed => listed

/-- Control passes from one node to another under the text of a label, within a region. -/
def Passes (facts : Facts) (source target : Nat) (label : Option String) : Prop :=
  ∃ region ∈ facts.regions.toList, ∃ way : Option Label,
    region.Passes (Control.of region.skeleton) source target way ∧ label = way.map Label.text

theorem mem_control {link : Control.Link} : link ∈ facts.stages.control ↔
    ∃ region ∈ facts.regions.toList,
      region.Passes (Control.of region.skeleton) link.source link.target link.label := by
  have zipped : facts.regions.toList.zip facts.controls =
      facts.regions.toList.map fun region => (region, Control.of region.skeleton) :=
    List.map_prod_left_eq_zip.symm
  simp only [stages, zipped, List.mem_flatMap, List.mem_map, exists_exists_and_eq_and,
    Control.mem_links]

end Facts

namespace Graph

variable {graph : Graph}

section File

variable {present : Instant} {file : SourceFile} {kind : EdgeKind} {source target : Nat}
  {label : Option String}

theorem tellsEdges_ofFile (present : Instant) (file : SourceFile) :
    (ofFile present file).TellsEdges :=
  Facts.tellsEdges_of_draws (wellFormed_ofFile present file) fun _ _ found => draws_ofFile found

theorem tagged_ofFile (present : Instant) (file : SourceFile) : (ofFile present file).Tagged := by
  rw [Tagged, arcs_ofFile, nodes_ofFile]
  exact (Facts.sound_of file).tagged_assemble

/-- Each of the two edges of a link is there, with its label. -/
theorem exists_labelled_ofFile (control : kind.isControl = true) :
    (∃ handle, (ofFile present file).Labelled kind source target label handle) ↔
      ∃ link ∈ (Facts.of file).stages.control,
        Asked link.connections kind source target label := by
  have sound := Facts.sound_of file
  have walked : ¬ (Facts.of file).graph.HasEdge kind source target label := by
    rintro ⟨edge, inside, rfl, -⟩
    obtain ⟨handle, arc, held, rfl⟩ := mem_edges.1 inside
    rw [(sound.children handle arc held).1] at control
    cases control
  rw [(wellFormed_ofFile present file).exists_labelled (tellsEdges_ofFile present file)
    (tagged_ofFile present file) control, Facts.hasEdge_ofFile, or_iff_right walked]
  constructor
  · rintro ⟨connection, inside, rfl, fits⟩
    obtain ⟨link, listed, there⟩ := sound.control_of_connections inside control
    exact ⟨link, listed, connection, there, rfl, fits⟩
  · rintro ⟨link, listed, connection, there, fits⟩
    refine ⟨connection, ?_, fits⟩
    simp only [Facts.connections, List.mem_append]
    exact .inl (.inl (.inl (List.mem_flatMap.2 ⟨link, listed, there⟩)))

/-- The edges along the flow of control are the ways that control passes. -/
theorem exists_successor : (∃ handle,
    (ofFile present file).Labelled .successor source target label handle) ↔
      (Facts.of file).Passes source target label := by
  rw [exists_labelled_ofFile rfl]
  constructor
  · rintro ⟨link, listed, connection, there, kind, rfl, rfl, rfl⟩
    obtain ⟨tag, -, ⟨-, sources, targets⟩ | ⟨wrong, -⟩⟩ := Control.Link.mem_connections there
    · obtain ⟨region, inside, passes⟩ := Facts.mem_control.1 listed
      exact ⟨region, inside, link.label, sources ▸ targets ▸ passes, tag⟩
    · cases kind.symm.trans wrong
  · rintro ⟨region, inside, way, passes, rfl⟩
    exact ⟨⟨source, target, way⟩, Facts.mem_control.2 ⟨region, inside, passes⟩, _,
      List.mem_cons_self, rfl, rfl, rfl, rfl⟩

/-- The edges back are the same ways, the other way round. -/
theorem exists_predecessor : (∃ handle,
    (ofFile present file).Labelled .predecessor target source label handle) ↔
      (Facts.of file).Passes source target label := by
  rw [exists_labelled_ofFile rfl]
  constructor
  · rintro ⟨link, listed, connection, there, kind, rfl, rfl, rfl⟩
    obtain ⟨tag, -, ⟨wrong, -⟩ | ⟨-, sources, targets⟩⟩ := Control.Link.mem_connections there
    · cases kind.symm.trans wrong
    · obtain ⟨region, inside, passes⟩ := Facts.mem_control.1 listed
      exact ⟨region, inside, link.label, sources ▸ targets ▸ passes, tag⟩
  · rintro ⟨region, inside, way, passes, rfl⟩
    exact ⟨⟨source, target, way⟩, Facts.mem_control.2 ⟨region, inside, passes⟩, _,
      List.mem_cons_of_mem _ List.mem_cons_self, rfl, rfl, rfl, rfl⟩

end File

/-! ## Within a function -/

/-- A node is in a function: it is the function, or the function is the nearest one around it. Outside of
all functions there is none around. -/
def Within (graph : Graph) (function : Option Nat) (handle : Nat) : Prop :=
  function = some handle ∨ graph.enclosingFunction? handle = function

/-- The ways that control passes in a region are within the function that owns it. -/
theorem within_of_passes {file : SourceFile} (apart : file.Apart)
    (settles : (Facts.of file).graph.Settles graph) {region : Region}
    (inside : region ∈ (Facts.of file).regions.toList) {control : Control} {source target : Nat}
    {label : Option Label} (passes : region.Passes control source target label) :
    graph.Within region.owner source ∧ graph.Within region.owner target := by
  obtain ⟨number, found⟩ := List.getElem?_of_mem inside
  rw [Array.getElem?_toList] at found
  have site : ∀ {s site : Nat}, region.siteOf? s = some site → graph.Within region.owner site := by
    intro s site stands
    obtain ⟨statement, stood, rfl⟩ := Option.map_eq_some_iff.1 stands
    exact .inr (SourceFile.enclosingFunction?_of_settles apart settles found
      (Array.mem_toList_iff.2 (Array.mem_of_getElem? stood)))
  cases passes with
  | entry owned _ first => exact ⟨.inl owned, site first⟩
  | exit owned left _ _ => exact ⟨site left, .inl owned⟩
  | transfer from_ _ to_ => exact ⟨site from_, site to_⟩

/-! ## Graphs put together -/

/-- `Joined files graph`: the graph was put together from graphs of the given files: by uniting them, by
recording files and times, and by linking calls. -/
inductive Joined (files : List SourceFile) : Graph → Prop
  | empty : Joined files empty
  | file (present : Instant) {file : SourceFile} : file ∈ files → Joined files (ofFile present file)
  | absorb {graph other : Graph} : Joined files graph → Joined files other →
      Joined files (graph.absorb other).1
  | merge (present : Instant) (graphs : List Graph) : (∀ graph ∈ graphs, Joined files graph) →
      Joined files (merge present graphs)
  | addFile {graph : Graph} (path : Path) : Joined files graph → Joined files (graph.addFile path)
  | stamped {graph : Graph} (instant : Instant) : Joined files graph →
      Joined files (graph.stamped instant)
  | link {graph : Graph} : Joined files graph → Joined files graph.linkAcrossFiles.1

namespace Joined

variable {files : List SourceFile}

theorem wellFormed (joined : graph.Joined files) : graph.WellFormed := by
  induction joined with
  | empty => exact wellFormed_empty
  | file present _ => exact wellFormed_ofFile present _
  | absorb _ _ ih ih' => exact (ih.absorb ih').1
  | merge present graphs _ ih => exact wellFormed_merge present ih
  | addFile path _ ih => exact ih.addFile path
  | stamped instant _ ih => exact ih.relabelled _ instant
  | link _ ih => exact ih.linkAcrossFiles.1

/-- An edge of a union is an edge of one of the graphs. -/
theorem bond_of_unite {united : Graph} (formed : united.WellFormed) {graphs : List Graph}
    (all : ∀ graph ∈ graphs, graph.WellFormed) {bond : Bond}
    (inside : bond ∈ (united.unite graphs).bonds) :
    bond ∈ united.bonds ∨ ∃ graph ∈ graphs, bond ∈ graph.bonds := by
  induction graphs generalizing united with
  | nil => exact .inl inside
  | cons graph rest ih =>
    have other := all graph List.mem_cons_self
    rcases ih (formed.absorb other).1 (fun next there => all next (List.mem_cons_of_mem _ there))
      inside with first | ⟨next, there, held⟩
    · rw [(formed.content_absorb other).2.1, List.mem_append] at first
      exact first.imp id fun new => ⟨graph, List.mem_cons_self, (List.mem_filter.1 new).1⟩
    · exact .inr ⟨next, List.mem_cons_of_mem _ there, held⟩

/-- Linking adds no edge along the flow of control. -/
theorem bond_of_link (formed : graph.WellFormed) {bond : Bond}
    (inside : bond ∈ graph.linkAcrossFiles.1.bonds) (control : bond.kind.isControl = true) :
    bond ∈ graph.bonds := by
  have edges : ∀ call ∈ graph.linkedCalls, ∀ connection ∈ call.edges,
      graph.Joins connection ∧ connection.kind.isControl = false := by
    intro call listed connection asked
    obtain ⟨node, ⟨pending, -⟩, each⟩ := edges_of_mem_linkedCalls listed
    obtain ⟨target, aims, links⟩ := (each connection).1 asked
    exact ⟨joins_of_links pending.1 aims links, by cases links <;> rfl⟩
  have added := formed.bonds_foldl_addLinked fun call listed connection asked =>
    (edges call listed connection asked).1
  rw [linkAcrossFiles, added, mem_foldl_appendNew] at inside
  rcases inside with old | ⟨-, found⟩
  · exact old
  · obtain ⟨call, listed, here⟩ := List.mem_flatMap.1 (List.mem_of_find?_eq_some found)
    obtain ⟨connection, asked, rfl⟩ := List.mem_map.1 here
    exact absurd ((edges call listed connection asked).2.symm.trans control) (by decide)

/-- Uniting and linking add no edge along the flow of control: each one is an edge of some file. -/
theorem flow (joined : graph.Joined files) {bond : Bond} (inside : bond ∈ graph.bonds)
    (control : bond.kind.isControl = true) :
    ∃ file ∈ files, ∃ present, bond ∈ (ofFile present file).bonds := by
  induction joined with
  | empty => cases inside
  | @file present file there => exact ⟨file, there, present, inside⟩
  | absorb first second ih ih' =>
    rw [(first.wellFormed.content_absorb second.wellFormed).2.1, List.mem_append] at inside
    exact inside.elim ih fun new => ih' (List.mem_filter.1 new).1
  | merge present graphs all ih =>
    cases graphs with
    | nil => cases inside
    | cons first rest =>
      rcases bond_of_unite wellFormed_empty (fun other there => (all other there).wellFormed)
        inside with none | ⟨other, there, held⟩
      · cases none
      · exact ih other there held
  | addFile _ _ ih => exact ih inside
  | stamped _ _ ih => exact ih inside
  | link joined ih => exact ih (bond_of_link joined.wellFormed inside control)

end Joined

end Graph

/-- The control-flow edges of the graph of a file are the ways that control passes within its regions, each
with one converse of the same label, and within one function. Uniting graphs and linking calls adds no
such edge. -/
theorem SourceFile.flow_exact (present : Instant) {file : SourceFile} (apart : file.Apart) :
    (∀ source target label,
      (∃ edge, (Graph.ofFile present file).Labelled .successor source target label edge) ↔
        (Facts.of file).Passes source target label) ∧
    (∀ source target label edge,
      (Graph.ofFile present file).Labelled .successor source target label edge →
        ∃! converse, (Graph.ofFile present file).Labelled .predecessor target source label converse) ∧
    (∀ source target label edge,
      (Graph.ofFile present file).Labelled .predecessor target source label edge →
        ∃! converse, (Graph.ofFile present file).Labelled .successor source target label converse) ∧
    (∀ source target label edge,
      (Graph.ofFile present file).Labelled .successor source target label edge →
        ∃ function, (Graph.ofFile present file).Within function source ∧
          (Graph.ofFile present file).Within function target) ∧
    ∀ files graph, Graph.Joined files graph → ∀ bond ∈ graph.bonds, bond.kind.isControl = true →
      ∃ file ∈ files, ∃ present, bond ∈ (Graph.ofFile present file).bonds := by
  have settles : (Facts.of file).graph.Settles (Graph.ofFile present file) :=
    @settles_of_mem_graphs present file _ (by simp [graphs])
  have formed := Graph.wellFormed_ofFile present file
  have tagged := Graph.tagged_ofFile present file
  refine ⟨fun _ _ _ => Graph.exists_successor, ?forth, ?back, ?within,
    fun _ _ joined _ inside control => joined.flow inside control⟩
  case forth =>
    intro source target label edge labelled
    obtain ⟨converse, found⟩ := Graph.exists_predecessor.2 (Graph.exists_successor.1 ⟨edge, labelled⟩)
    exact ⟨converse, found, fun _ also => also.unique formed tagged rfl found⟩
  case back =>
    intro source target label edge labelled
    obtain ⟨converse, found⟩ := Graph.exists_successor.2 (Graph.exists_predecessor.1 ⟨edge, labelled⟩)
    exact ⟨converse, found, fun _ also => also.unique formed tagged rfl found⟩
  case within =>
    intro source target label edge labelled
    obtain ⟨region, inside, way, passes, -⟩ := Graph.exists_successor.1 ⟨edge, labelled⟩
    exact ⟨region.owner, Graph.within_of_passes apart settles inside passes⟩

/-- The entry of a function that calls itself has a converse. -/
theorem SourceFile.retrying_flow : retrying.Apart ∧ ∃ function first,
    (∃ edge, (Graph.ofFile .epoch retrying).Labelled .successor function first (some "entry") edge) ∧
    ∃! converse, (Graph.ofFile .epoch retrying).Labelled .predecessor first function (some "entry")
      converse := by
  obtain ⟨passes, converse, -⟩ := flow_exact .epoch retrying_apart
  have entered : ((Facts.of retrying).regions[1]?.any fun region =>
      (Control.of region.skeleton).entry == some 0 && (region.siteOf? 0).isSome) = true := by
    decide +kernel
  obtain ⟨region, found, entered⟩ := (Option.any_eq_true _ _).1 entered
  rw [Bool.and_eq_true, beq_iff_eq] at entered
  obtain ⟨first, site⟩ := Option.isSome_iff_exists.1 entered.2
  have owned := owner_eq_none_iff found
  obtain ⟨function, owner⟩ := Option.ne_none_iff_exists'.1 (mt owned.1 Nat.one_ne_zero)
  obtain ⟨edge, labelled⟩ := (passes function first (some "entry")).2
    ⟨region, Array.mem_toList_iff.2 (Array.mem_of_getElem? found), some .entry,
      .entry owner entered.1 site, rfl⟩
  exact ⟨retrying_apart, function, first, ⟨edge, labelled⟩, converse _ _ _ edge labelled⟩

end CodeGraph

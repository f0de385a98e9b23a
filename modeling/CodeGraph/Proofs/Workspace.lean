import CodeGraph.Proofs.Calls.Gathered
import CodeGraph.Proofs.Calls.Order
import CodeGraph.Proofs.Graph.SideBySide
import CodeGraph.Workspace

/-!
# The order of files

The graphs of two files are the same or have nothing in common, since the id of a node tells the path of
its file. So the order in which files are built does not matter: their union is alike in every order, and
linking depends on ids only (`Workspace.buildFiles_perm`).
-/

namespace CodeGraph

namespace Graph

theorem language_absorb (graph other : Graph) :
    (graph.absorb other).1.language = graph.language := by
  have fold : ∀ {α : Type} (step : Graph → α → Graph), (∀ graph item,
      (step graph item).language = graph.language) → ∀ (items : List α) (graph : Graph),
      (items.foldl step graph).language = graph.language := by
    intro α step keeps items
    induction items with
    | nil => exact fun _ => rfl
    | cons item rest ih => exact fun graph => (ih _).trans (keeps graph item)
  have nodes : (graph.addAll other.nodes).1.language = graph.language := by
    rw [WellFormed.addAll_fst]
    refine fold _ (fun graph node => ?_) _ graph
    unfold Graph.addNode
    split <;> rfl
  simp only [Graph.absorb]
  rw [← Array.foldl_toList]
  rw [WellFormed.addFiles_eq]
  refine (fold _ (fun graph arc => ?_) _ _).trans nodes
  unfold Graph.addRenamed
  split
  · unfold Graph.addArc
    split <;> rfl
  · rfl

theorem language_unite (graph : Graph) (graphs : List Graph) :
    (graph.unite graphs).language = graph.language := by
  induction graphs generalizing graph with
  | nil => rfl
  | cons other rest ih => exact (ih _).trans (language_absorb graph other)

theorem PlainIds.addFiles {graph : Graph} (plain : graph.PlainIds) (files : List Path) :
    (files.foldl Graph.addFile graph).PlainIds := by
  rw [WellFormed.addFiles_eq]
  exact plain

/-- Listing more files keeps graphs alike. -/
theorem Alike.addFiles {graph other : Graph} (alike : graph.Alike other) (formed : graph.WellFormed)
    (formed' : other.WellFormed) {files files' : List Path} (order : files.Perm files') :
    (files.foldl Graph.addFile graph).Alike (files'.foldl Graph.addFile other) := by
  refine ⟨?_, fun id => ?_, fun components => ?_⟩
  · rw [WellFormed.addFiles_eq, WellFormed.addFiles_eq]
    exact alike.nodes
  · rw [WellFormed.addFiles_eq, WellFormed.addFiles_eq]
    exact alike.into id
  · rw [formed.lists_addFiles, formed'.lists_addFiles, alike.files]
    simp only [Path.Lists, order.mem_iff]

end Graph

/-- A file right below the root is read. -/
theorem FileTree.readText_of_entry (entries : List (String × FileTree)) {path : Path} {name : String}
    (pieces : Path.pieces path.text = [name]) (proper : name ≠ "" ∧ name ≠ "." ∧ name ≠ "..")
    {content : ByteArray} (found : entries.lookup name = some (.file content)) {text : String}
    (valid : String.fromUTF8? content = some text) :
    (FileTree.directory entries).readText path = .ok text := by
  have there : FileTree.get? (.directory entries) [name] = some (.file content) := by
    simp [FileTree.get?, FileTree.entries?, found]
  have located : (FileTree.directory entries).locate path = .ok [name] := by
    rw [FileTree.locate, pieces, FileTree.follow]
    simp [FileTree.get?, proper.1, proper.2.1, proper.2.2, found, FileTree.follow]
  have read : (FileTree.directory entries).readBytes path = .ok content := by
    rw [FileTree.readBytes, located]
    simp only [bind, Except.bind, there]
    rfl
  rw [FileTree.readText, read]
  simp only [bind, Except.bind, valid]
  rfl

namespace Workspace

variable (workspace : Workspace)

theorem wellFormed_buildFile (path : Path) : (workspace.buildFile path).WellFormed := by
  unfold buildFile
  split
  · exact Graph.wellFormed_ofFile _ _
  · exact Graph.wellFormed_empty.relabelled _ _

/-- The nodes of the graph of a file stand for nodes of its syntax tree. -/
theorem draws_buildFile {path : Path} {id : String}
    (inside : id ∈ (workspace.buildFile path).nodeIds) :
    ∃ (file : SourceFile) (node : Node), file.path = path ∧ file.Draws node ∧ node.id = id := by
  obtain ⟨handle, node, found, rfl⟩ := Graph.mem_nodeIds.1 inside
  unfold buildFile at found
  cases parsed : workspace.parse path with
  | error problem =>
    rw [parsed] at found
    simp [Graph.stamped, Graph.empty] at found
  | ok file =>
    rw [parsed] at found
    refine ⟨file, node, ?_, Graph.draws_ofFile found, rfl⟩
    unfold parse at parsed
    cases read : workspace.files.readText path with
    | error problem =>
      rw [read] at parsed
      cases parsed
    | ok text =>
      rw [read] at parsed
      cases parsed
      rfl

theorem plainIds_buildFile {path : Path} (plain : Graph.Plain path.text) :
    (workspace.buildFile path).PlainIds := by
  intro handle node found
  obtain ⟨file, drawn, rfl, draws, same⟩ :=
    workspace.draws_buildFile (Graph.mem_nodeIds.2 ⟨handle, node, found, rfl⟩)
  rw [← same]
  exact Graph.plain_of_draws plain draws

theorem apart_buildFile {path other : Path} (plain : Graph.Plain path.text)
    (plain' : Graph.Plain other.text) :
    (workspace.buildFile path).Apart (workspace.buildFile other) := by
  by_cases same : path = other
  · rw [same]
    exact .inl rfl
  · have separate : (workspace.buildFile path).Separate (workspace.buildFile other) := by
      refine Graph.separate_of_nodes (workspace.wellFormed_buildFile path)
        (workspace.wellFormed_buildFile other) (workspace.plainIds_buildFile plain)
        (workspace.plainIds_buildFile plain') fun id inside inside' => same ?_
      obtain ⟨file, node, rfl, draws, rfl⟩ := workspace.draws_buildFile inside
      obtain ⟨file', node', rfl, draws', equal⟩ := workspace.draws_buildFile inside'
      exact SourceFile.path_of_id draws draws' equal.symm
    exact .inr ⟨separate.nodes, separate.bonds⟩

theorem wellFormed_union (paths : List Path) :
    (Graph.empty.unite (paths.map workspace.buildFile)).WellFormed := by
  refine Graph.wellFormed_empty.unite fun graph inside => ?_
  obtain ⟨path, -, rfl⟩ := List.mem_map.1 inside
  exact workspace.wellFormed_buildFile path

theorem plainIds_union {paths : List Path} (plain : ∀ path ∈ paths, Graph.Plain path.text) :
    (Graph.empty.unite (paths.map workspace.buildFile)).PlainIds := by
  have none : Graph.empty.PlainIds := fun handle node found => by simp [Graph.empty] at found
  refine none.unite Graph.wellFormed_empty (fun graph inside => ?_) fun graph inside => ?_
  all_goals obtain ⟨path, there, rfl⟩ := List.mem_map.1 inside
  · exact workspace.wellFormed_buildFile path
  · exact workspace.plainIds_buildFile (plain path there)

/-- Building files in another order gives a graph with the same nodes, the same edges and the same files.
Handles aside, nothing differs. -/
theorem buildFiles_perm {paths others : List Path} (order : paths.Perm others)
    (plain : ∀ path ∈ paths, Graph.Plain path.text) :
    let graph := workspace.buildFiles paths
    let other := workspace.buildFiles others
    (∀ node, node ∈ graph.nodes.toList ↔ node ∈ other.nodes.toList) ∧
      (∀ bond, bond ∈ graph.bonds ↔ bond ∈ other.bonds) ∧
      graph.files.map Path.components = other.files.map Path.components ∧
      graph.language = other.language ∧ graph.created = other.created := by
  have built : ∀ graph ∈ paths.map workspace.buildFile, graph.WellFormed := by
    intro graph inside
    obtain ⟨path, -, rfl⟩ := List.mem_map.1 inside
    exact workspace.wellFormed_buildFile path
  have apart : ∀ first ∈ paths.map workspace.buildFile, ∀ second ∈ paths.map workspace.buildFile,
      first.Apart second := by
    intro first inside second inside'
    obtain ⟨path, there, rfl⟩ := List.mem_map.1 inside
    obtain ⟨path', there', rfl⟩ := List.mem_map.1 inside'
    exact workspace.apart_buildFile (plain path there) (plain path' there')
  let union := Graph.empty.unite (paths.map workspace.buildFile)
  let union' := Graph.empty.unite (others.map workspace.buildFile)
  have formed : union.WellFormed := workspace.wellFormed_union paths
  have formed' : union'.WellFormed := workspace.wellFormed_union others
  have plains : union.PlainIds := workspace.plainIds_union plain
  have plains' : union'.PlainIds :=
    workspace.plainIds_union fun path there => plain path (order.mem_iff.2 there)
  have alike : union.Alike union' := Graph.wellFormed_empty.alike_unite
    (order.map workspace.buildFile) built apart
  have listed := alike.addFiles formed formed' order
  have whole := (formed.addFiles paths).1
  have whole' := (formed'.addFiles others).1
  obtain ⟨nodes, bonds⟩ := listed.linkAcrossFiles whole whole'
    (plains.addFiles paths) (plains'.addFiles others)
  obtain ⟨files, language, -⟩ := Graph.metadata_linkAcrossFiles (paths.foldl Graph.addFile union)
  obtain ⟨files', language', -⟩ :=
    Graph.metadata_linkAcrossFiles (others.foldl Graph.addFile union')
  refine ⟨nodes, bonds, ?_, ?_, rfl⟩
  · have paths := Path.components_eq_of_lists whole.files_sorted whole'.files_sorted listed.files
    rw [← files, ← files'] at paths
    exact paths
  · have same : (paths.foldl Graph.addFile union).language =
        (others.foldl Graph.addFile union').language := by
      rw [Graph.WellFormed.addFiles_eq, Graph.WellFormed.addFiles_eq]
      exact (Graph.language_unite _ _).trans (Graph.language_unite _ _).symm
    rw [← language, ← language'] at same
    exact same

/-- A workspace of two files, the second of which calls a function of the first. -/
def pair : Workspace where
  files := .directory
    [("a.ts", .file SourceFile.returning.source.bytes), ("b.ts", .file SourceFile.consuming.source.bytes)]
  grammar := fun _ source =>
    if source.bytes.size = 27 then SourceFile.returning.tree else SourceFile.consuming.tree
  present := .epoch

theorem plain_pair : ∀ path ∈ [(⟨"a.ts"⟩ : Path), ⟨"b.ts"⟩], Graph.Plain path.text := by
  decide

/-- The graphs of the two files are those of the texts in them. -/
theorem buildFile_pair :
    [(⟨"a.ts"⟩ : Path), ⟨"b.ts"⟩].map pair.buildFile =
      [Graph.ofFile .epoch SourceFile.returning, Graph.ofFile .epoch SourceFile.consuming] := by
  have first : pair.files.readText ⟨"a.ts"⟩ = .ok "function f(a) \x7b return a; \x7d" :=
    FileTree.readText_of_entry _ (by decide +kernel : Path.pieces _ = ["a.ts"]) (by decide) rfl
      (by decide +kernel)
  have second : pair.files.readText ⟨"b.ts"⟩ = .ok "function g() \x7b return f(1); \x7d" :=
    FileTree.readText_of_entry _ (by decide +kernel : Path.pieces _ = ["b.ts"]) (by decide) rfl
      (by decide +kernel)
  have short : SourceFile.returning.source.bytes.size = 27 := by decide +kernel
  have long : SourceFile.consuming.source.bytes.size ≠ 27 := by decide +kernel
  have tree : pair.grammar (Dialect.ofPath ⟨"a.ts"⟩) SourceFile.returning.source =
      SourceFile.returning.tree := by
    simp only [pair, if_pos short]
  have tree' : pair.grammar (Dialect.ofPath ⟨"b.ts"⟩) SourceFile.consuming.source =
      SourceFile.consuming.tree := by
    simp only [pair, if_neg long]
  have parsed : pair.parse ⟨"a.ts"⟩ = .ok SourceFile.returning := by
    rw [parse, first]
    exact congrArg (fun tree => Except.ok { SourceFile.returning with tree }) tree
  have parsed' : pair.parse ⟨"b.ts"⟩ = .ok SourceFile.consuming := by
    rw [parse, second]
    exact congrArg (fun tree => Except.ok { SourceFile.consuming with tree }) tree'
  rw [List.map_cons, List.map_cons, List.map_nil, buildFile, buildFile, parsed, parsed']
  rfl

/-- The graph of the two files has the edge of the call from one to the other. -/
theorem call_pair : ∃ bond ∈ (pair.buildFiles [⟨"a.ts"⟩, ⟨"b.ts"⟩]).bonds, bond.kind = .call ∧
    bond.source = "b.ts:function:0-29" ∧ bond.target = "a.ts:function:0-27" := by
  let paths := [(⟨"a.ts"⟩ : Path), ⟨"b.ts"⟩]
  let union := Graph.empty.unite (paths.map pair.buildFile)
  let listed := paths.foldl Graph.addFile union
  have formed : listed.WellFormed := ((pair.wellFormed_union paths).addFiles paths).1
  have tells : listed.TellsEdges := by
    have plain : union.PlainIds := pair.plainIds_union plain_pair
    exact formed.tellsEdges_of_plain (plain.addFiles paths)
  have united : ∀ {part : Graph} {offset : Nat}, part.Stands (Graph.merge .epoch
      [Graph.ofFile .epoch SourceFile.returning, Graph.ofFile .epoch SourceFile.consuming]) offset →
      part.Stands listed offset := by
    intro part offset stands
    refine stands.of_eq ?_ ?_ <;>
    · simp only [listed, Graph.WellFormed.addFiles_eq, union, paths, buildFile_pair]
      rfl
  obtain ⟨target, param, site, caller, call, node, ids, pending, aims, links⟩ :=
    SourceFile.consuming_aims formed (united Graph.Gathered.stand_two.1)
      (united Graph.Gathered.stand_two.2) (Nat.zero_add _).le
  obtain ⟨-, connection, asked, kind, source, end_, tag⟩ := links (.call, caller, target, none)
    List.mem_cons_self
  have has : listed.linkAcrossFiles.1.HasEdge .call caller target none :=
    (formed.hasEdge_linkAcrossFiles tells _ _ _ _).2
      (.inr ⟨call, node, target, connection, pending, aims, asked, kind, source, end_, tag⟩)
  obtain ⟨edge, inside, isCall, rfl, rfl, -⟩ := has
  obtain ⟨arc, there, rfl⟩ := List.mem_map.1 inside
  obtain ⟨place, found⟩ := Array.mem_iff_getElem?.1 (Array.mem_toList_iff.1 there)
  obtain ⟨from_, to_⟩ := formed.linkAcrossFiles.1.ends place arc found
  have idOf : ∀ {handle : Nat} {id : String}, listed.IdAt handle id →
      listed.linkAcrossFiles.1.idOf handle = id := by
    intro handle id spot
    obtain ⟨node, held, same⟩ := spot.kept formed.linkAcrossFiles.2
    rw [Graph.idOf_of_found held, same]
  refine ⟨_, Graph.mem_bonds.2 ⟨place, arc, found, rfl⟩, isCall, ?_, ?_⟩
  · show listed.linkAcrossFiles.1.idOf arc.source = _
    rw [← from_]
    exact idOf ids.2.2.2.1
  · show listed.linkAcrossFiles.1.idOf arc.target = _
    rw [← to_]
    exact idOf ids.1

/-- The two files can be built in either order: the graph has the same nodes, edges and files, among them
the function that is called from the other file, and the edge of the call. -/
theorem pair_swapped :
    let graph := pair.buildFiles [⟨"a.ts"⟩, ⟨"b.ts"⟩]
    let other := pair.buildFiles [⟨"b.ts"⟩, ⟨"a.ts"⟩]
    (∀ path ∈ [(⟨"a.ts"⟩ : Path), ⟨"b.ts"⟩], Graph.Plain path.text) ∧
      (∀ node, node ∈ graph.nodes.toList ↔ node ∈ other.nodes.toList) ∧
      (∀ bond, bond ∈ graph.bonds ↔ bond ∈ other.bonds) ∧
      graph.files.map Path.components = other.files.map Path.components ∧
      graph.language = other.language ∧ graph.created = other.created ∧
      ∃ bond, (bond ∈ graph.bonds ∧ bond ∈ other.bonds) ∧ bond.kind = .call ∧
        bond.source = "b.ts:function:0-29" ∧ bond.target = "a.ts:function:0-27" := by
  intro graph other
  obtain ⟨nodes, bonds, files, language, created⟩ := pair.buildFiles_perm (.swap _ _ _) plain_pair
  obtain ⟨bond, inside, call⟩ := call_pair
  exact ⟨plain_pair, nodes, bonds, files, language, created, bond,
    ⟨inside, (bonds bond).1 inside⟩, call⟩

end Workspace

end CodeGraph

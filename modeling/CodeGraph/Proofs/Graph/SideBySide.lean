import CodeGraph.Graph.Tally
import CodeGraph.Proofs.Facts.FileNodes
import CodeGraph.Proofs.Graph.Join
import Mathlib.Algebra.Order.Ring.Nat

/-!
# Graphs side by side

Graphs without a common id lie in their union one behind the other: the nodes and edges of each follow those
of the graphs before it, with all handles moved on by as many nodes as there are before it
(`Graph.stands_merge`). So the counts of a union are sums (`Graph.tally_merge`), and every graph can be
found in it again as the part between two handles (`Graph.Stands`). The graphs of different files are such
graphs, since the id of a node tells the path of its file (`SourceFile.merge_additive`).
-/

namespace CodeGraph

/-- An edge whose ends are moved on. -/
def Arc.shift (offset : Nat) (arc : Arc) : Arc :=
  { source := offset + arc.source, target := offset + arc.target
    edge := { arc.edge with source := offset + arc.source, target := offset + arc.target } }

namespace Graph

/-- Two graphs have neither a node nor an edge in common. -/
structure Separate (graph other : Graph) : Prop where
  nodes : ∀ id ∈ graph.nodeIds, id ∉ other.nodeIds
  bonds : ∀ id ∈ graph.bondIds, id ∉ other.bondIds

/-! ## Two graphs side by side -/

section Two

variable {graph other : Graph} (formed : graph.WellFormed) (otherFormed : other.WellFormed)
  (separate : graph.Separate other)
include formed otherFormed separate

theorem WellFormed.nodes_absorb_of_separate :
    (graph.absorb other).1.nodes.toList = graph.nodes.toList ++ other.nodes.toList := by
  rw [(formed.content_absorb otherFormed).1]
  refine congrArg _ (List.filter_eq_self.2 fun node inside => ?_)
  have new : node.id ∉ graph.nodeIds := fun old =>
    separate.nodes _ old (List.mem_map_of_mem inside)
  simpa using new

/-- The nodes of the second graph are moved on behind those of the first. -/
theorem WellFormed.names_of_separate {handle : Nat} (less : handle < other.nodes.size) :
    (graph.absorb other).2[handle]? = some (graph.nodes.size + handle) := by
  have whole := (formed.absorb otherFormed).1
  obtain ⟨node, there⟩ := node_of_lt less
  obtain ⟨place, held, named, found, same⟩ :=
    (formed.renames_absorb otherFormed).2 handle node (by simpa using there)
  -- The new handle is told by the id of its node, so it is enough to see where that node stands.
  have behind : (graph.absorb other).1.nodes[graph.nodes.size + handle]? = some node := by
    rw [← Array.getElem?_toList, formed.nodes_absorb_of_separate otherFormed separate,
      List.getElem?_append_right (by simp)]
    simpa using there
  rw [named, whole.handle_unique found behind same]

theorem WellFormed.arcs_absorb_of_separate :
    (graph.absorb other).1.arcs.toList =
      graph.arcs.toList ++ other.arcs.toList.map (Arc.shift graph.nodes.size) := by
  rw [formed.arcs_absorb otherFormed]
  have all : (other.arcs.toList.filter fun arc => !graph.bondIds.contains arc.edge.id) =
      other.arcs.toList := by
    refine List.filter_eq_self.2 fun arc inside => ?_
    have new : arc.edge.id ∉ graph.bondIds := fun old =>
      separate.bonds _ old (bondIds_eq other ▸ List.mem_map_of_mem inside)
    simpa using new
  rw [all]
  refine congrArg _ (List.map_congr_left fun arc inside => ?_)
  obtain ⟨place, found⟩ := Array.mem_iff_getElem?.1 (Array.mem_toList_iff.1 inside)
  obtain ⟨source, target, -, left, right, -⟩ := otherFormed.named place arc found
  have names : ∀ {handle : Nat} {node : Node}, other.nodes[handle]? = some node →
      (graph.absorb other).2.getD handle 0 = graph.nodes.size + handle := by
    intro handle node there
    rw [Array.getD_eq_getD_getElem?, formed.names_of_separate otherFormed separate
      (Array.getElem?_eq_some_iff.1 there).1, Option.getD_some]
  simp only [Arc.under, Arc.shift, names left, names right]

theorem WellFormed.nodeIds_absorb_of_separate :
    (graph.absorb other).1.nodeIds = graph.nodeIds ++ other.nodeIds := by
  rw [nodeIds, formed.nodes_absorb_of_separate otherFormed separate, List.map_append, nodeIds, nodeIds]

theorem WellFormed.bondIds_absorb_of_separate :
    (graph.absorb other).1.bondIds = graph.bondIds ++ other.bondIds := by
  rw [bondIds_eq, formed.arcs_absorb_of_separate otherFormed separate, List.map_append, bondIds_eq,
    bondIds_eq, List.map_map]
  rfl

end Two

/-! ## Many graphs side by side -/

/-- How many nodes the graphs of a list have. -/
def sizeOfAll (graphs : List Graph) : Nat := (graphs.map fun graph => graph.nodes.size).sum

theorem sizeOfAll_cons (graph : Graph) (rest : List Graph) :
    sizeOfAll (graph :: rest) = graph.nodes.size + sizeOfAll rest := by
  rw [sizeOfAll, List.map_cons, List.sum_cons, sizeOfAll]

/-- The edges of graphs that lie one behind the other, the first one behind a given number of nodes. -/
def arcsOfAll (offset : Nat) : List Graph → List Arc
  | [] => []
  | graph :: rest =>
    graph.arcs.toList.map (Arc.shift offset) ++ arcsOfAll (offset + graph.nodes.size) rest

theorem arcsOfAll_append (offset : Nat) (front back : List Graph) :
    arcsOfAll offset (front ++ back) =
      arcsOfAll offset front ++ arcsOfAll (offset + sizeOfAll front) back := by
  induction front generalizing offset with
  | nil => simp [arcsOfAll, sizeOfAll]
  | cons graph rest ih =>
    simp only [List.cons_append, arcsOfAll, ih, List.append_assoc, sizeOfAll_cons, Nat.add_assoc]

/-- The edges of graphs side by side stay among their nodes. -/
theorem ends_arcsOfAll {graphs : List Graph} (formed : ∀ graph ∈ graphs, graph.WellFormed)
    {offset : Nat} {arc : Arc} (inside : arc ∈ arcsOfAll offset graphs) :
    (offset ≤ arc.source ∧ arc.source < offset + sizeOfAll graphs) ∧
      offset ≤ arc.target ∧ arc.target < offset + sizeOfAll graphs := by
  induction graphs generalizing offset with
  | nil => cases inside
  | cons graph rest ih =>
    rw [sizeOfAll_cons]
    rcases List.mem_append.1 inside with here | later
    · obtain ⟨old, there, rfl⟩ := List.mem_map.1 here
      obtain ⟨place, found⟩ := Array.mem_iff_getElem?.1 (Array.mem_toList_iff.1 there)
      obtain ⟨source, target, -, left, right, -⟩ :=
        (formed graph List.mem_cons_self).named place old found
      have less := (Array.getElem?_eq_some_iff.1 left).1
      have less' := (Array.getElem?_eq_some_iff.1 right).1
      simp only [Arc.shift]
      omega
    · have ends := ih (fun other there => formed other (List.mem_cons_of_mem _ there)) later
      omega

/-- Graphs that are separate lie in their union one behind the other. -/
theorem WellFormed.unite_of_separate {graph : Graph} (formed : graph.WellFormed)
    {graphs : List Graph} (all : ∀ other ∈ graphs, other.WellFormed)
    (separate : (graph :: graphs).Pairwise Separate) :
    (graph.unite graphs).nodes.toList =
        graph.nodes.toList ++ graphs.flatMap (fun other => other.nodes.toList) ∧
      (graph.unite graphs).arcs.toList =
        graph.arcs.toList ++ arcsOfAll graph.nodes.size graphs := by
  induction graphs generalizing graph with
  | nil => exact ⟨(List.append_nil _).symm, (List.append_nil _).symm⟩
  | cons other rest ih =>
    obtain ⟨apart, among⟩ := List.pairwise_cons.1 separate
    obtain ⟨apart', among'⟩ := List.pairwise_cons.1 among
    have otherFormed := all other List.mem_cons_self
    have here := apart other List.mem_cons_self
    have nodes := formed.nodes_absorb_of_separate otherFormed here
    -- What has been united so far is separate from the rest, since each of its parts is.
    have further : ((graph.absorb other).1 :: rest).Pairwise Separate := by
      refine List.pairwise_cons.2 ⟨fun next there => ?_, among'⟩
      have first := apart next (List.mem_cons_of_mem _ there)
      have second := apart' next there
      refine ⟨fun id inside => ?_, fun id inside => ?_⟩
      · rw [formed.nodeIds_absorb_of_separate otherFormed here, List.mem_append] at inside
        exact inside.elim (first.nodes id) (second.nodes id)
      · rw [formed.bondIds_absorb_of_separate otherFormed here, List.mem_append] at inside
        exact inside.elim (first.bonds id) (second.bonds id)
    obtain ⟨nodes', arcs'⟩ := ih (formed.absorb otherFormed).1
      (fun next there => all next (List.mem_cons_of_mem _ there)) further
    have size : (graph.absorb other).1.nodes.size = graph.nodes.size + other.nodes.size := by
      simpa using congrArg List.length nodes
    refine ⟨nodes'.trans ?_, arcs'.trans ?_⟩
    · rw [nodes, List.flatMap_cons, List.append_assoc]
    · rw [formed.arcs_absorb_of_separate otherFormed here, size, arcsOfAll, List.append_assoc]

theorem content_merge_of_separate (present : Instant) {graphs : List Graph}
    (formed : ∀ graph ∈ graphs, graph.WellFormed) (separate : graphs.Pairwise Separate) :
    (merge present graphs).nodes.toList = graphs.flatMap (fun graph => graph.nodes.toList) ∧
      (merge present graphs).arcs.toList = arcsOfAll 0 graphs := by
  have all : (empty :: graphs).Pairwise Separate :=
    List.pairwise_cons.2 ⟨fun _ _ => ⟨fun _ none => (nomatch none), fun _ none => (nomatch none)⟩,
      separate⟩
  cases graphs with
  | nil => exact ⟨rfl, rfl⟩
  | cons first rest => exact wellFormed_empty.unite_of_separate formed all

/-! ## The parts of a union -/

/-- Whether a handle is one of those behind an offset that a graph with as many nodes takes. -/
def spans (part : Graph) (offset handle : Nat) : Bool :=
  offset ≤ handle && handle < offset + part.nodes.size

/-- `part.Stands whole offset`: a graph that stands in another one behind an offset. -/
structure Stands (part whole : Graph) (offset : Nat) : Prop where
  nodes : ∀ handle < part.nodes.size, whole.nodes[offset + handle]? = part.nodes[handle]?
  /-- The edges between nodes of the part are the edges of the part, in their order. -/
  arcs : (whole.arcs.toList.filter fun arc =>
      part.spans offset arc.source && part.spans offset arc.target) =
    part.arcs.toList.map (Arc.shift offset)
  /-- No edge leads into the part or out of it. -/
  closed : ∀ arc ∈ whole.arcs.toList, part.spans offset arc.source = part.spans offset arc.target

theorem spans_iff {part : Graph} {offset handle : Nat} :
    part.spans offset handle = true ↔ offset ≤ handle ∧ handle < offset + part.nodes.size := by
  simp [spans]

/-- Graphs that are separate stand in their union, each behind those before it. -/
theorem stands_merge (present : Instant) {front back : List Graph} {part : Graph}
    (formed : ∀ graph ∈ front ++ part :: back, graph.WellFormed)
    (separate : (front ++ part :: back).Pairwise Separate) :
    part.Stands (merge present (front ++ part :: back)) (sizeOfAll front) := by
  obtain ⟨nodes, arcs⟩ := content_merge_of_separate present formed separate
  have before : ∀ graph ∈ front, graph.WellFormed := fun graph there => formed graph (by simp [there])
  have behind : ∀ graph ∈ back, graph.WellFormed := fun graph there => formed graph (by simp [there])
  have partFormed := formed part (by simp)
  have split : arcsOfAll 0 (front ++ part :: back) = arcsOfAll 0 front ++
      (part.arcs.toList.map (Arc.shift (sizeOfAll front)) ++
        arcsOfAll (sizeOfAll front + part.nodes.size) back) := by
    rw [arcsOfAll_append, Nat.zero_add, arcsOfAll]
  -- The ends of an edge of the union are both before the part, both in it, or both behind it.
  have early : ∀ arc ∈ arcsOfAll 0 front, part.spans (sizeOfAll front) arc.source = false ∧
      part.spans (sizeOfAll front) arc.target = false := by
    intro arc inside
    have ends := ends_arcsOfAll before inside
    constructor <;>
    · rw [Bool.eq_false_iff, Ne, spans_iff]
      omega
  have late : ∀ arc ∈ arcsOfAll (sizeOfAll front + part.nodes.size) back,
      part.spans (sizeOfAll front) arc.source = false ∧
        part.spans (sizeOfAll front) arc.target = false := by
    intro arc inside
    have ends := ends_arcsOfAll behind inside
    constructor <;>
    · rw [Bool.eq_false_iff, Ne, spans_iff]
      omega
  have here : ∀ arc ∈ part.arcs.toList.map (Arc.shift (sizeOfAll front)),
      part.spans (sizeOfAll front) arc.source = true ∧
        part.spans (sizeOfAll front) arc.target = true := by
    intro arc inside
    have own : arc ∈ arcsOfAll (sizeOfAll front) [part] := by simpa [arcsOfAll] using inside
    have ends := ends_arcsOfAll (by simp [partFormed]) own
    simp only [sizeOfAll, List.map_cons, List.map_nil, List.sum_cons, List.sum_nil] at ends ⊢
    constructor <;>
    · rw [spans_iff]
      omega
  refine ⟨fun handle less => ?nodes, ?arcs, fun arc inside => ?closed⟩
  case nodes =>
    have length : (front.flatMap fun graph => graph.nodes.toList).length = sizeOfAll front := by
      simp [List.length_flatMap, sizeOfAll]
    rw [← Array.getElem?_toList, nodes, List.flatMap_append, List.flatMap_cons,
      List.getElem?_append_right (by omega), length, Nat.add_sub_cancel_left,
      List.getElem?_append_left (by simpa using less), Array.getElem?_toList]
  case arcs =>
    rw [arcs, split, List.filter_append, List.filter_append,
      List.filter_eq_nil_iff.2 fun arc inside => by simp [early arc inside],
      List.filter_eq_self.2 fun arc inside => by simp [here arc inside],
      List.filter_eq_nil_iff.2 fun arc inside => by simp [late arc inside],
      List.nil_append, List.append_nil]
  case closed =>
    rw [arcs, split, List.mem_append, List.mem_append] at inside
    rcases inside with front | here' | back
    · rw [(early arc front).1, (early arc front).2]
    · rw [(here arc here').1, (here arc here').2]
    · rw [(late arc back).1, (late arc back).2]

/-- Every handle of a union lies in one of the parts. -/
theorem exists_spans {graphs : List Graph} {handle : Nat} (less : handle < sizeOfAll graphs) :
    ∃ front part back, graphs = front ++ part :: back ∧ part.spans (sizeOfAll front) handle = true := by
  induction graphs generalizing handle with
  | nil => cases less
  | cons graph rest ih =>
    rw [sizeOfAll_cons] at less
    by_cases here : handle < graph.nodes.size
    · exact ⟨[], graph, rest, rfl, spans_iff.2 (by simpa [sizeOfAll] using here)⟩
    · have behind : handle - graph.nodes.size < sizeOfAll rest := by omega
      obtain ⟨front, part, back, rfl, within⟩ := ih behind
      rw [spans_iff] at within
      exact ⟨graph :: front, part, back, rfl, spans_iff.2 (by rw [sizeOfAll_cons]; omega)⟩

/-- Where a part stands in a graph, the graph has the nodes of the part. -/
theorem Stands.node {part whole : Graph} {offset handle : Nat} {node : Node}
    (stands : part.Stands whole offset) (within : part.spans offset handle = true)
    (found : whole.nodes[handle]? = some node) : part.nodes[handle - offset]? = some node := by
  rw [spans_iff] at within
  rw [← stands.nodes _ (by omega), ← found]
  congr 1
  omega

/-- Whether a part stands in a graph is told by the nodes and edges of the graph alone. -/
theorem Stands.of_eq {part whole other : Graph} {offset : Nat} (stands : part.Stands whole offset)
    (nodes : other.nodes = whole.nodes) (arcs : other.arcs = whole.arcs) :
    part.Stands other offset :=
  ⟨nodes ▸ stands.nodes, arcs ▸ stands.arcs, arcs ▸ stands.closed⟩

/-! ## Counts -/

/-- What is found in a table of occurrences is how often a kind occurs, if the table is about it. -/
theorem lookup_occurrences {α : Type} [BEq α] [LawfulBEq α] (kinds found : List α) (kind : α) :
    ((occurrences kinds found).lookup kind).getD 0 =
      if kinds.contains kind then found.count kind else 0 := by
  unfold occurrences
  induction kinds with
  | nil => rfl
  | cons first rest ih =>
    rw [List.map_cons, List.contains_cons]
    -- A kind that does not occur has no entry, and is looked up as zero behind it.
    by_cases same : kind = first
    · subst same
      by_cases absent : found.count kind = 0
      · rw [List.filter_cons_of_neg (by simpa using absent), ih, absent]
        simp
      · rw [List.filter_cons_of_pos (by simpa using absent)]
        simp
    · rw [beq_false_of_ne same, Bool.false_or, ← ih]
      by_cases absent : found.count first = 0
      · rw [List.filter_cons_of_neg (by simpa using absent)]
      · rw [List.filter_cons_of_pos (by simpa using absent), List.lookup_cons, beq_false_of_ne same]

theorem nodesOf_tally (graph : Graph) (kind : NodeKind) :
    graph.tally.nodesOf kind = (graph.nodes.toList.map Node.kind).count kind := by
  have listed : NodeKind.all.contains kind = true := by cases kind <;> decide
  rw [Tally.nodesOf, tally, lookup_occurrences, if_pos listed]

theorem edgesOf_tally (graph : Graph) (kind : EdgeKind) :
    graph.tally.edgesOf kind = (graph.arcs.toList.map fun arc => arc.edge.kind).count kind := by
  have listed : EdgeKind.all.contains kind = true := by cases kind <;> decide
  rw [Tally.edgesOf, tally, lookup_occurrences, if_pos listed, edges, List.map_map]
  rfl

/-- Moving edges on does not change what can be read off them without their ends. -/
theorem map_arcsOfAll {α : Type} (view : Arc → α) (same : ∀ arc offset, view (arc.shift offset) = view arc)
    (offset : Nat) (graphs : List Graph) : (arcsOfAll offset graphs).map view =
      graphs.flatMap fun graph => graph.arcs.toList.map view := by
  induction graphs generalizing offset with
  | nil => rfl
  | cons graph rest ih =>
    simp only [arcsOfAll, List.map_append, List.map_map, ih, List.flatMap_cons, Function.comp_def, same]

/-- The counts of a union of graphs that are separate are the sums of their counts. -/
theorem tally_merge (present : Instant) {graphs : List Graph}
    (formed : ∀ graph ∈ graphs, graph.WellFormed) (separate : graphs.Pairwise Separate) :
    let whole := merge present graphs
    whole.nodes.size = (graphs.map fun graph => graph.nodes.size).sum ∧
      whole.arcs.size = (graphs.map fun graph => graph.arcs.size).sum ∧
      (∀ kind, whole.tally.nodesOf kind = (graphs.map fun graph => graph.tally.nodesOf kind).sum) ∧
      ∀ kind, whole.tally.edgesOf kind = (graphs.map fun graph => graph.tally.edgesOf kind).sum := by
  intro whole
  obtain ⟨nodes, arcs⟩ := content_merge_of_separate present formed separate
  have kinds := congrArg (List.map fun arc => arc.edge.kind) arcs
  rw [map_arcsOfAll _ (fun _ _ => rfl)] at kinds
  refine ⟨?nodes, ?arcs, fun kind => ?nodeKinds, fun kind => ?edgeKinds⟩
  case nodes =>
    have length := congrArg List.length nodes
    rwa [List.length_flatMap, Array.length_toList] at length
  case arcs =>
    have length := congrArg List.length kinds
    rw [List.length_map, Array.length_toList, List.length_flatMap] at length
    simpa using length
  case nodeKinds =>
    simp only [nodesOf_tally, whole, nodes, List.map_flatMap, List.count_flatMap, Function.comp_def]
  case edgeKinds =>
    simp only [edgesOf_tally, whole, kinds, List.count_flatMap, Function.comp_def]

/-! ## Graphs of files -/

/-- Graphs without a common node have no common edge, since the ends of an edge can be told from its
id. -/
theorem separate_of_nodes {graph other : Graph} (formed : graph.WellFormed)
    (formed' : other.WellFormed) (plain : graph.PlainIds) (plain' : other.PlainIds)
    (apart : ∀ id ∈ graph.nodeIds, id ∉ other.nodeIds) : graph.Separate other := by
  refine ⟨apart, fun id inside inside' => ?_⟩
  obtain ⟨bond, there, rfl⟩ := List.mem_map.1 inside
  obtain ⟨bond', there', same⟩ := List.mem_map.1 inside'
  obtain ⟨source, target, tag, id⟩ := formed.ends_of_bond there
  obtain ⟨source', target', tag', id'⟩ := formed'.ends_of_bond there'
  have plainIn : ∀ {graph : Graph}, graph.PlainIds → ∀ {id : String}, id ∈ graph.nodeIds →
      Plain id := by
    intro graph plain id inside
    obtain ⟨handle, node, found, rfl⟩ := mem_nodeIds.1 inside
    exact plain handle node found
  have ids : edgeId bond'.kind ("" ++ bond'.source) ("" ++ bond'.target) tag' =
      edgeId bond.kind ("" ++ bond.source) ("" ++ bond.target) tag := by
    simpa only [String.empty_append, ← id, ← id'] using same
  obtain ⟨-, sources, -⟩ := edgeId_inj (plainIn plain' source') (plainIn plain' target')
    (plainIn plain source) (plainIn plain target) ids
  exact apart _ source (sources ▸ source')

theorem file_ofFile {present : Instant} {file : SourceFile} {handle : Nat} {node : Node}
    (found : (ofFile present file).nodes[handle]? = some node) : node.location.file = file.path := by
  obtain ⟨cursor, kind, name, ⟨-, -, -, place⟩, -⟩ := draws_ofFile found
  rw [place]
  rfl

/-- The graphs of different files are separate. -/
theorem separate_ofFile (present present' : Instant) {file file' : SourceFile}
    (plain : Plain file.path.text) (plain' : Plain file'.path.text) (different : file.path ≠ file'.path) :
    (ofFile present file).Separate (ofFile present' file') := by
  refine separate_of_nodes (wellFormed_ofFile _ _) (wellFormed_ofFile _ _) (plainIds_ofFile _ plain)
    (plainIds_ofFile _ plain') fun id inside inside' => different ?_
  obtain ⟨handle, node, found, rfl⟩ := mem_nodeIds.1 inside
  obtain ⟨handle', node', found', same⟩ := mem_nodeIds.1 inside'
  exact SourceFile.path_of_id (draws_ofFile found) (draws_ofFile found') same.symm

end Graph

namespace SourceFile

variable {files : List SourceFile}

/-- A list of files with different paths is cut at a path in one way only. -/
theorem split_unique (different : files.Pairwise fun file other => file.path ≠ other.path)
    {front front' back back' : List SourceFile} {file file' : SourceFile}
    (cut : files = front ++ file :: back) (cut' : files = front' ++ file' :: back')
    (same : file.path = file'.path) : front = front' ∧ file = file' := by
  have inside : file ∈ files := by simp [cut]
  have inside' : file' ∈ files := by simp [cut']
  have equal : file = file' := by
    by_contra apart
    have symm : Std.Symm fun file other : SourceFile => file.path ≠ other.path := ⟨fun _ _ => Ne.symm⟩
    exact different.forall inside inside' apart same
  subst equal
  rw [cut, List.pairwise_append, List.pairwise_cons] at different
  obtain ⟨-, ⟨later, -⟩, earlier⟩ := different
  have notBefore : file ∉ front := fun there => earlier file there file List.mem_cons_self rfl
  have notBehind : file ∉ back := fun there => later file there rfl
  exact ⟨((List.append_cons_inj_of_notMem notBefore notBehind).1 (cut.symm.trans cut')).1, rfl⟩

/-- The union of the graphs of different files is made of them: nothing is unified, counts add up, and the
part of the union on the nodes of a file is the graph of the file, with its handles moved on. -/
theorem merge_additive (present : Instant) (stamp : SourceFile → Instant)
    (plain : ∀ file ∈ files, Graph.Plain file.path.text)
    (different : files.Pairwise fun file other => file.path ≠ other.path) :
    let graphOf := fun file => Graph.ofFile (stamp file) file
    let graphs := files.map graphOf
    let whole := Graph.merge present graphs
    graphs.Pairwise Graph.Separate ∧
      whole.nodes.size = (graphs.map fun graph => graph.nodes.size).sum ∧
      whole.arcs.size = (graphs.map fun graph => graph.arcs.size).sum ∧
      (∀ kind, whole.tally.nodesOf kind = (graphs.map fun graph => graph.tally.nodesOf kind).sum) ∧
      (∀ kind, whole.tally.edgesOf kind = (graphs.map fun graph => graph.tally.edgesOf kind).sum) ∧
      ∀ file ∈ files, ∃ offset, (graphOf file).Stands whole offset ∧
        ∀ (handle : Nat) (node : Node), whole.nodes[handle]? = some node →
          (node.location.file = file.path ↔ (graphOf file).spans offset handle = true) := by
  intro graphOf graphs whole
  have formed : ∀ graph ∈ graphs, graph.WellFormed := by
    intro graph inside
    obtain ⟨file, -, rfl⟩ := List.mem_map.1 inside
    exact Graph.wellFormed_ofFile _ _
  have separate : graphs.Pairwise Graph.Separate := by
    refine List.pairwise_map.2 (different.imp_of_mem fun inside inside' apart => ?_)
    exact Graph.separate_ofFile _ _ (plain _ inside) (plain _ inside') apart
  obtain ⟨nodes, arcs, nodeKinds, edgeKinds⟩ := Graph.tally_merge present formed separate
  have stands : ∀ {front back : List SourceFile} {file : SourceFile}, files = front ++ file :: back →
      (graphOf file).Stands whole (Graph.sizeOfAll (front.map graphOf)) := by
    intro front back file cut
    have cutGraphs : graphs = front.map graphOf ++ graphOf file :: back.map graphOf := by
      simp [graphs, cut]
    have stood := Graph.stands_merge present (cutGraphs ▸ formed) (cutGraphs ▸ separate)
    rwa [← cutGraphs] at stood
  refine ⟨separate, nodes, arcs, nodeKinds, edgeKinds, fun file inside => ?_⟩
  obtain ⟨front, back, cut⟩ := List.append_of_mem inside
  refine ⟨_, stands cut, fun handle node found => ⟨fun ofFile => ?_, fun within => ?_⟩⟩
  · -- The node lies in the part of some file, which can only be this one.
    have less : handle < Graph.sizeOfAll graphs := by
      rw [Graph.sizeOfAll, ← nodes]
      exact (Array.getElem?_eq_some_iff.1 found).1
    obtain ⟨front', part, back', cut', within⟩ := Graph.exists_spans less
    obtain ⟨front'', rest, cut'', rfl, split⟩ := List.map_eq_append_iff.1 cut'
    obtain ⟨file', back'', rfl, rfl, -⟩ := List.map_eq_cons_iff.1 split
    have there := Graph.file_ofFile ((stands cut'').node within found)
    obtain ⟨rfl, rfl⟩ := split_unique different cut cut'' (ofFile.symm.trans there)
    exact within
  · exact Graph.file_ofFile ((stands cut).node within found)

/-- A file of a given path with the tree of `f();`. -/
def callingAt (path : String) : SourceFile where
  path := ⟨path⟩
  source := .ofString "f();"
  tree :=
    let node (kind : String) (field : Option String) (start stop : Nat) (children : List Tree) :=
      Tree.node { kind, field, start, stop, named := true } children
    node "program" none 0 4 [node "expression_statement" none 0 4 [
      node "call_expression" none 0 3 [
        node "identifier" (some "function") 0 1 [],
        node "arguments" (some "arguments") 1 3 []]]]

@[simp] theorem path_callingAt (path : String) : (callingAt path).path = ⟨path⟩ := rfl

/-- Two files with the same text, one path a part of the other. -/
def callingTwice : List SourceFile := [callingAt "a.ts", callingAt "a.ts:call"]

/-- The second file stands behind the first one in their union. -/
theorem callingTwice_additive :
    (∀ file ∈ callingTwice, Graph.Plain file.path.text) ∧
      (callingTwice.Pairwise fun file other => file.path ≠ other.path) ∧
      ∃ offset, (Graph.ofFile .epoch (callingAt "a.ts:call")).Stands
        (Graph.merge .epoch (callingTwice.map (Graph.ofFile .epoch))) offset := by
  have plain : ∀ file ∈ callingTwice, Graph.Plain file.path.text := by
    simp only [callingTwice, List.forall_mem_cons, path_callingAt]
    decide +kernel
  have different : callingTwice.Pairwise fun file other => file.path ≠ other.path := by
    simp [callingTwice]
  obtain ⟨-, -, -, -, -, parts⟩ := merge_additive .epoch (fun _ => .epoch) plain different
  obtain ⟨offset, stands, -⟩ := parts (callingAt "a.ts:call") (by simp [callingTwice])
  exact ⟨plain, different, offset, stands⟩

end SourceFile

end CodeGraph

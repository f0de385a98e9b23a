import CodeGraph.Proofs.Graph.EdgeId
import CodeGraph.Proofs.Graph.Reached

/-!
# What a union holds

Handles are given out in the order of adding, so a graph is described here without them: by its nodes,
by its edges with the ids of their ends (`Graph.bonds`), and by its files. A union holds what the first
graph holds and then, in order, what is new in the second (`Graph.WellFormed.content_absorb`).

Graphs that hold the same nodes and files, and the same edges in the same order into each node, are alike
(`Graph.Alike`). If any two graphs of a list are the same or have no node in common, uniting the list in
another order leads to a graph that is alike (`Graph.WellFormed.alike_unite`).
-/

namespace CodeGraph

namespace Path

/-- Some spelling of the path with given components is listed. -/
def Lists (files : List Path) (components : List Component) : Prop :=
  ∃ file ∈ files, file.components = components

theorem mem_or_eq_of_mem_insert {path file : Path} {list : List Path}
    (inside : file ∈ path.insert list) : file ∈ list ∨ file = path := by
  unfold insert at inside
  split at inside
  · exact .inl inside
  · next slot _ =>
    rcases List.mem_append.1 inside with front | behind
    · exact .inl (List.mem_of_mem_take front)
    · rcases List.mem_cons.1 behind with rfl | back
      · exact .inr rfl
      · exact .inl (List.mem_of_mem_drop back)

theorem lists_insert {list : List Path} (sorted : Sorted list) (path : Path)
    (components : List Component) :
    Lists (path.insert list) components ↔ Lists list components ∨ path.components = components := by
  constructor
  · rintro ⟨file, inside, rfl⟩
    exact (mem_or_eq_of_mem_insert inside).imp (fun old => ⟨file, old, rfl⟩) fun same => by rw [same]
  · rintro (⟨file, inside, rfl⟩ | rfl)
    · exact ⟨file, mem_insert_of_mem path inside, rfl⟩
    · obtain ⟨file, inside, same⟩ := same_mem_insert sorted path
      exact ⟨file, inside, beq_iff_eq.1 same⟩

/-- Two sorted lists of the same paths have the same components, in the same order. -/
theorem components_eq_of_lists {files files' : List Path} (sorted : Sorted files)
    (sorted' : Sorted files') (same : ∀ components, Lists files components ↔ Lists files' components) :
    files.map Path.components = files'.map Path.components := by
  have before : ∀ {files : List Path}, Sorted files →
      (files.map Path.components).Pairwise fun a b => lexBefore a b = true :=
    fun sorted => List.pairwise_map.2 sorted
  have distinct : ∀ {files : List Path}, Sorted files → (files.map Path.components).Nodup :=
    fun sorted => (before sorted).imp fun {a b} less same => by
      rw [same] at less
      exact lexBefore_irrefl b less
  refine List.Perm.eq_of_pairwise (fun a b _ _ less more => ?_) (before sorted) (before sorted')
    ((List.perm_ext_iff_of_nodup (distinct sorted) (distinct sorted')).2 fun components => ?_)
  · exact absurd (lexBefore_trans less more) (lexBefore_irrefl a)
  · simp only [List.mem_map]
    exact same components

end Path

/-- A list with one more item behind it, unless an item of its key is there already. -/
def appendNew {α : Type} (key : α → String) (known : List α) (item : α) : List α :=
  if key item ∈ known.map key then known else known ++ [item]

/-- Of items with different keys those are appended whose keys are new. -/
theorem foldl_appendNew {α : Type} {key : α → String} {items : List α}
    (distinct : (items.map key).Nodup) (known : List α) :
    items.foldl (appendNew key) known =
      known ++ items.filter fun item => !(known.map key).contains (key item) := by
  induction items generalizing known with
  | nil => simp
  | cons item rest ih =>
    obtain ⟨apart, distinct⟩ := List.nodup_cons.1 distinct
    rw [List.foldl_cons, ih distinct]
    by_cases old : key item ∈ known.map key
    · rw [appendNew, if_pos old, List.filter_cons_of_neg (by simpa using old)]
    · rw [appendNew, if_neg old, List.filter_cons_of_pos (by simpa using old), List.append_assoc,
        List.singleton_append]
      congr 2
      refine List.filter_congr fun other inside => ?_
      have different : key other ≠ key item := fun same =>
        apart (same ▸ List.mem_map_of_mem inside)
      simp [different]

/-- An edge without handles: its ends are given by the ids of their nodes. -/
structure Bond where
  id : String
  kind : EdgeKind
  source : String
  target : String
  properties : Properties
deriving DecidableEq

/-- An arc whose ends are renamed by a table of handles. -/
def Arc.under (names : Array Nat) (arc : Arc) : Arc :=
  let source := names.getD arc.source 0
  let target := names.getD arc.target 0
  { source, target, edge := { arc.edge with source, target } }

namespace Graph

/-- The id of a node; empty if there is no such node. -/
def idOf (graph : Graph) (handle : Nat) : String :=
  ((graph.nodes[handle]?).map Node.id).getD ""

/-- The ids of the nodes. -/
def nodeIds (graph : Graph) : List String := graph.nodes.toList.map Node.id

/-- An edge of the graph, without handles. -/
def bondOf (graph : Graph) (arc : Arc) : Bond where
  id := arc.edge.id
  kind := arc.edge.kind
  source := graph.idOf arc.source
  target := graph.idOf arc.target
  properties := arc.edge.properties

/-- The edges without handles, in the order in which they were added. -/
def bonds (graph : Graph) : List Bond := graph.arcs.toList.map graph.bondOf

/-- The ids of the edges. -/
def bondIds (graph : Graph) : List String := graph.bonds.map Bond.id

theorem bondIds_eq (graph : Graph) :
    graph.bondIds = graph.arcs.toList.map fun arc => arc.edge.id := by
  simp [bondIds, bonds, bondOf, Function.comp_def]

theorem node_of_lt {graph : Graph} {handle : Nat} (less : handle < graph.nodes.size) :
    ∃ node, graph.nodes[handle]? = some node :=
  ⟨graph.nodes[handle], Array.getElem?_eq_getElem less⟩

theorem idOf_of_found {graph : Graph} {handle : Nat} {node : Node}
    (found : graph.nodes[handle]? = some node) : graph.idOf handle = node.id := by
  rw [idOf, found]
  rfl

theorem mem_nodes {graph : Graph} {node : Node} :
    node ∈ graph.nodes.toList ↔ ∃ handle : Nat, graph.nodes[handle]? = some node := by
  rw [Array.mem_toList_iff, Array.mem_iff_getElem?]

theorem mem_nodeIds {graph : Graph} {id : String} :
    id ∈ graph.nodeIds ↔ ∃ (handle : Nat) (node : Node), graph.nodes[handle]? = some node ∧
      node.id = id := by
  simp only [nodeIds, List.mem_map, mem_nodes]
  constructor
  · rintro ⟨node, ⟨handle, found⟩, same⟩
    exact ⟨handle, node, found, same⟩
  · rintro ⟨handle, node, found, same⟩
    exact ⟨node, ⟨handle, found⟩, same⟩

theorem mem_bonds {graph : Graph} {bond : Bond} :
    bond ∈ graph.bonds ↔ ∃ (handle : Nat) (arc : Arc), graph.arcs[handle]? = some arc ∧
      graph.bondOf arc = bond := by
  simp only [bonds, List.mem_map, Array.mem_toList_iff, Array.mem_iff_getElem?]
  constructor
  · rintro ⟨arc, ⟨handle, found⟩, same⟩
    exact ⟨handle, arc, found, same⟩
  · rintro ⟨handle, arc, found, same⟩
    exact ⟨arc, ⟨handle, found⟩, same⟩

/-- Edges between nodes that keep their ids are the same edges. -/
theorem WellFormed.bondOf_of_kept {before after : Graph} (formed : before.WellFormed)
    (kept : before.Kept after) : before.arcs.toList.map after.bondOf = before.bonds := by
  refine List.map_congr_left fun arc inside => ?_
  obtain ⟨handle, found⟩ := Array.mem_iff_getElem?.1 (Array.mem_toList_iff.1 inside)
  obtain ⟨source, target, -, left, right, -⟩ := formed.named handle arc found
  obtain ⟨source', left', sameSource, -⟩ := kept.nodes _ _ left
  obtain ⟨target', right', sameTarget, -⟩ := kept.nodes _ _ right
  simp only [bondOf, idOf_of_found left, idOf_of_found right, idOf_of_found left',
    idOf_of_found right', sameSource, sameTarget]

namespace WellFormed

variable {graph : Graph} (formed : graph.WellFormed)
include formed

theorem nodeIndex_eq_none {id : String} : graph.nodeIndex[id]? = none ↔ id ∉ graph.nodeIds := by
  rw [mem_nodeIds, Option.eq_none_iff_forall_ne_some]
  constructor
  · rintro none ⟨handle, node, found, same⟩
    exact none handle ((formed.nodes_indexed id handle).2 ⟨node, found, same⟩)
  · intro none handle found
    obtain ⟨node, held, same⟩ := (formed.nodes_indexed id handle).1 found
    exact none ⟨handle, node, held, same⟩

theorem edgeIndex_eq_none {id : String} : graph.edgeIndex[id]? = none ↔ id ∉ graph.bondIds := by
  rw [bondIds, List.mem_map, Option.eq_none_iff_forall_ne_some]
  constructor
  · rintro none ⟨bond, inside, same⟩
    obtain ⟨handle, arc, found, rfl⟩ := mem_bonds.1 inside
    exact none handle ((formed.edges_indexed id handle).2 ⟨arc, found, same⟩)
  · intro none handle found
    obtain ⟨arc, held, same⟩ := (formed.edges_indexed id handle).1 found
    exact none ⟨graph.bondOf arc, mem_bonds.2 ⟨handle, arc, held, rfl⟩, same⟩

/-- No two nodes share an id. -/
theorem nodup_nodeIds : graph.nodeIds.Nodup := by
  refine List.pairwise_map.2 (List.pairwise_iff_getElem.2 fun i j left right less same => ?_)
  have found := Array.getElem?_eq_getElem (show i < graph.nodes.size by simpa using left)
  have found' := Array.getElem?_eq_getElem (show j < graph.nodes.size by simpa using right)
  exact Nat.ne_of_lt less (formed.handle_unique found found' same)

/-- No two edges share an id. -/
theorem nodup_bondIds : graph.bondIds.Nodup := by
  rw [bondIds_eq]
  refine List.pairwise_map.2 (List.pairwise_iff_getElem.2 fun i j left right less same => ?_)
  have found := Array.getElem?_eq_getElem (show i < graph.arcs.size by simpa using left)
  have found' := Array.getElem?_eq_getElem (show j < graph.arcs.size by simpa using right)
  have first := (formed.edges_indexed _ i).2 ⟨_, found, same⟩
  have second := (formed.edges_indexed _ j).2 ⟨_, found', rfl⟩
  exact Nat.ne_of_lt less (Option.some.inj (first.symm.trans second))

/-- The ends of an edge are nodes, and its id is made of theirs. -/
theorem ends_of_bond {bond : Bond} (inside : bond ∈ graph.bonds) :
    bond.source ∈ graph.nodeIds ∧ bond.target ∈ graph.nodeIds ∧
      ∃ tag, bond.id = edgeId bond.kind bond.source bond.target tag := by
  obtain ⟨handle, arc, found, rfl⟩ := mem_bonds.1 inside
  obtain ⟨source, target, tag, left, right, id⟩ := formed.named handle arc found
  have sourceId : (graph.bondOf arc).source = source.id := idOf_of_found left
  have targetId : (graph.bondOf arc).target = target.id := idOf_of_found right
  refine ⟨mem_nodeIds.2 ⟨_, source, left, sourceId.symm⟩,
    mem_nodeIds.2 ⟨_, target, right, targetId.symm⟩, tag, ?_⟩
  rw [sourceId, targetId]
  exact id

/-! ## What a union adds -/

theorem nodes_addNode (node : Node) : (graph.addNode node).1.nodes.toList =
    appendNew Node.id graph.nodes.toList node := by
  unfold Graph.addNode appendNew
  cases found : graph.nodeIndex[node.id]? with
  | some handle =>
    rw [if_pos]
    by_contra new
    have none := formed.nodeIndex_eq_none.2 new
    rw [found] at none
    cases none
  | none =>
    have new : node.id ∉ graph.nodes.toList.map Node.id := formed.nodeIndex_eq_none.1 found
    rw [if_neg new]
    exact Array.toList_push

omit formed in
theorem addAll_fst (graph : Graph) (nodes : Array Node) :
    (graph.addAll nodes).1 =
      nodes.toList.foldl (fun graph node => (graph.addNode node).1) graph := by
  have each : ∀ (rest : List Node) (entry : Graph × Array Nat),
      (rest.foldl (fun (entry : Graph × Array Nat) node =>
        ((entry.1.addNode node).1, entry.2.push (entry.1.addNode node).2)) entry).1 =
        rest.foldl (fun graph node => (graph.addNode node).1) entry.1 := by
    intro rest
    induction rest with
    | nil => exact fun _ => rfl
    | cons node rest ih => exact fun entry => ih _
  rw [addAll, ← Array.foldl_toList]
  exact each nodes.toList (graph, #[])

omit formed in
/-- Adding nodes adds no edges. -/
theorem edges_addAll (graph : Graph) (nodes : Array Node) :
    (graph.addAll nodes).1.arcs = graph.arcs ∧
      (graph.addAll nodes).1.edgeIndex = graph.edgeIndex := by
  rw [addAll_fst]
  induction nodes.toList generalizing graph with
  | nil => exact ⟨rfl, rfl⟩
  | cons node rest ih =>
    have same : (graph.addNode node).1.arcs = graph.arcs ∧
        (graph.addNode node).1.edgeIndex = graph.edgeIndex := by
      unfold Graph.addNode
      split <;> exact ⟨rfl, rfl⟩
    obtain ⟨arcs, index⟩ := ih (graph.addNode node).1
    exact ⟨arcs.trans same.1, index.trans same.2⟩

omit formed in
theorem files_addRenamed (graph : Graph) (names : Array Nat) (arc : Arc) :
    (graph.addRenamed names arc).files = graph.files := by
  unfold Graph.addRenamed
  split
  · unfold Graph.addArc
    split <;> rfl
  · rfl

/-- Adding nodes adds those whose ids are new. -/
theorem nodes_addAll {nodes : Array Node} (distinct : (nodes.toList.map Node.id).Nodup) :
    (graph.addAll nodes).1.nodes.toList = graph.nodes.toList ++
      nodes.toList.filter fun node => !graph.nodeIds.contains node.id := by
  have each : ∀ (rest : List Node) (graph : Graph), graph.WellFormed →
      (rest.foldl (fun graph node => (graph.addNode node).1) graph).nodes.toList =
        rest.foldl (appendNew Node.id) graph.nodes.toList := by
    intro rest
    induction rest with
    | nil => exact fun _ _ => rfl
    | cons node rest ih =>
      intro graph formed
      rw [List.foldl_cons, List.foldl_cons, ih _ (formed.addNode node), formed.nodes_addNode]
  rw [addAll_fst, each _ _ formed, foldl_appendNew distinct]
  rfl

/-- Adding an arc whose ends are renamed adds that arc, unless its id is known. -/
theorem arcs_addRenamed {other : Graph} (otherFormed : other.WellFormed) {names : Array Nat}
    (renames : graph.Renames names other.nodes.toList) {handle : Nat} {arc : Arc}
    (held : other.arcs[handle]? = some arc) :
    (graph.addRenamed names arc).arcs.toList =
        appendNew (fun arc => arc.edge.id) graph.arcs.toList (arc.under names) ∧
      (graph.addRenamed names arc).nodes = graph.nodes := by
  obtain ⟨source, target, tag, left, right, -⟩ := otherFormed.named handle arc held
  obtain ⟨from_, start, named, found, same⟩ := renames.2 arc.source source (by simpa using left)
  obtain ⟨to_, goal, named', found', same'⟩ := renames.2 arc.target target (by simpa using right)
  unfold Graph.addRenamed appendNew
  simp only [named, named']
  unfold Graph.addArc
  cases known : graph.edgeIndex[arc.edge.id]? with
  | some place =>
    refine ⟨?_, rfl⟩
    rw [if_pos]
    by_contra new
    rw [← bondIds_eq] at new
    have none : graph.edgeIndex[arc.edge.id]? = none := formed.edgeIndex_eq_none.2 new
    rw [known] at none
    cases none
  | none =>
    refine ⟨?_, rfl⟩
    have new := formed.edgeIndex_eq_none.1 known
    rw [bondIds_eq] at new
    rw [if_neg (by exact new), Array.toList_push]
    simp only [Arc.under, Array.getD_eq_getD_getElem?, named, named', Option.getD_some]

/-- Adding the arcs of another graph adds those whose ids are new. -/
theorem arcs_addArcs {other : Graph} (otherFormed : other.WellFormed) {names : Array Nat}
    (renames : graph.Renames names other.nodes.toList) :
    let joined := other.arcs.toList.foldl (fun graph arc => graph.addRenamed names arc) graph
    joined.WellFormed ∧ joined.nodes = graph.nodes ∧ joined.files = graph.files ∧
      joined.arcs.toList = graph.arcs.toList ++ (other.arcs.toList.filter fun arc =>
        !graph.bondIds.contains arc.edge.id).map fun arc => arc.under names := by
  have each : ∀ (rest : List Arc) (graph : Graph), graph.WellFormed →
      graph.Renames names other.nodes.toList →
      (∀ arc ∈ rest, ∃ handle : Nat, other.arcs[handle]? = some arc) →
      let joined := rest.foldl (fun graph arc => graph.addRenamed names arc) graph
      joined.WellFormed ∧ joined.nodes = graph.nodes ∧ joined.files = graph.files ∧
        joined.arcs.toList = (rest.map fun arc => arc.under names).foldl
          (appendNew fun arc => arc.edge.id) graph.arcs.toList := by
    intro rest
    induction rest with
    | nil => exact fun graph formed _ _ => ⟨formed, rfl, rfl, rfl⟩
    | cons arc rest ih =>
      intro graph formed renames inside
      obtain ⟨handle, held⟩ := inside arc List.mem_cons_self
      obtain ⟨whole, kept⟩ := formed.addRenamed otherFormed renames held
      obtain ⟨added, nodes⟩ := formed.arcs_addRenamed otherFormed renames held
      obtain ⟨formed', nodes', files, arcs⟩ := ih _ whole (renames.kept kept)
        fun next there => inside next (List.mem_cons_of_mem _ there)
      refine ⟨formed', nodes'.trans nodes, files.trans (files_addRenamed graph names arc), ?_⟩
      rw [List.foldl_cons, arcs, added]
      rfl
  obtain ⟨whole, nodes, files, arcs⟩ := each other.arcs.toList graph formed renames fun arc there =>
    Array.mem_iff_getElem?.1 (Array.mem_toList_iff.1 there)
  have distinct := otherFormed.nodup_bondIds
  rw [bondIds_eq] at distinct
  refine ⟨whole, nodes, files, arcs.trans ((foldl_appendNew ?_ _).trans ?_)⟩
  · simpa [Arc.under, Function.comp_def] using distinct
  · rw [List.filter_map, bondIds_eq]
    rfl

/-- Adding a node lists its file at most. -/
theorem lists_addNode {node : Node} {components : List Path.Component}
    (listed : Path.Lists (graph.addNode node).1.files components) :
    Path.Lists graph.files components ∨ node.location.file.components = components := by
  unfold Graph.addNode at listed
  split at listed
  · exact .inl listed
  · exact (Path.lists_insert formed.files_sorted _ _).1 listed

theorem lists_addAll {nodes : Array Node} {components : List Path.Component}
    (listed : Path.Lists (graph.addAll nodes).1.files components) :
    Path.Lists graph.files components ∨
      ∃ node ∈ nodes.toList, node.location.file.components = components := by
  rw [addAll_fst] at listed
  generalize nodes.toList = list at listed ⊢
  induction list generalizing graph with
  | nil => exact .inl listed
  | cons node rest ih =>
    rcases ih (formed.addNode node) listed with old | ⟨other, inside, same⟩
    · exact (formed.lists_addNode old).imp id fun same => ⟨node, List.mem_cons_self, same⟩
    · exact .inr ⟨other, List.mem_cons_of_mem _ inside, same⟩

omit formed in
theorem lists_addAll_of_lists (graph : Graph) (nodes : Array Node)
    {components : List Path.Component} (listed : Path.Lists graph.files components) :
    Path.Lists (graph.addAll nodes).1.files components := by
  rw [addAll_fst]
  induction nodes.toList generalizing graph with
  | nil => exact listed
  | cons node rest ih =>
    have further : Path.Lists (graph.addNode node).1.files components := by
      unfold Graph.addNode
      split
      · exact listed
      · obtain ⟨file, inside, same⟩ := listed
        exact ⟨file, Path.mem_insert_of_mem _ inside, same⟩
    exact ih _ further

theorem lists_addFiles (files : List Path) (components : List Path.Component) :
    Path.Lists (files.foldl Graph.addFile graph).files components ↔
      Path.Lists graph.files components ∨ Path.Lists files components := by
  induction files generalizing graph with
  | nil => simp [Path.Lists]
  | cons file rest ih =>
    rw [List.foldl_cons, ih (formed.addFile file)]
    have first : Path.Lists (graph.addFile file).files components ↔
        Path.Lists graph.files components ∨ file.components = components :=
      Path.lists_insert formed.files_sorted file components
    rw [first, or_assoc]
    simp only [Path.Lists, List.exists_mem_cons_iff]

omit formed in
theorem absorb_fst (graph other : Graph) :
    (graph.absorb other).1 = other.files.foldl Graph.addFile
      (other.arcs.toList.foldl (fun joined arc => joined.addRenamed (graph.absorb other).2 arc)
        (graph.addAll other.nodes).1) := by
  rw [Array.foldl_toList]
  rfl

/-- The edges of a union are those of the first graph and, renamed, those of the second whose ids are
new. -/
theorem arcs_absorb {other : Graph} (otherFormed : other.WellFormed) :
    (graph.absorb other).1.arcs.toList = graph.arcs.toList ++
      (other.arcs.toList.filter fun arc => !graph.bondIds.contains arc.edge.id).map fun arc =>
        arc.under (graph.absorb other).2 := by
  obtain ⟨united, kept, renames⟩ := renames_addAll formed other.nodes
  obtain ⟨-, -, -, arcs⟩ := united.arcs_addArcs otherFormed renames
  rw [bondIds_eq, (edges_addAll graph other.nodes).1, ← bondIds_eq] at arcs
  rw [absorb_fst, addFiles_eq]
  exact arcs

/-- The table of a union gives the node with the same id. -/
theorem renames_absorb {other : Graph} (otherFormed : other.WellFormed) :
    (graph.absorb other).1.Renames (graph.absorb other).2 other.nodes.toList := by
  obtain ⟨united, -, renames⟩ := renames_addAll formed other.nodes
  obtain ⟨-, nodes, -⟩ := united.arcs_addArcs otherFormed renames
  have same : (graph.absorb other).1.nodes = (graph.addAll other.nodes).1.nodes := by
    rw [absorb_fst, addFiles_eq]
    exact nodes
  refine ⟨renames.1, fun i node there => ?_⟩
  rw [same]
  exact renames.2 i node there

omit formed in
/-- An edge whose ends are renamed is between nodes of the same ids. -/
theorem bondOf_under {other : Graph} (otherFormed : other.WellFormed) {names : Array Nat}
    (renames : graph.Renames names other.nodes.toList) {handle : Nat} {arc : Arc}
    (held : other.arcs[handle]? = some arc) :
    graph.bondOf (arc.under names) = other.bondOf arc := by
  obtain ⟨source, target, tag, left, right, -⟩ := otherFormed.named handle arc held
  obtain ⟨from_, start, named, found, same⟩ := renames.2 arc.source source (by simpa using left)
  obtain ⟨to_, goal, named', found', same'⟩ := renames.2 arc.target target (by simpa using right)
  simp only [bondOf, Arc.under, Array.getD_eq_getD_getElem?, named, named', Option.getD_some,
    idOf_of_found found, idOf_of_found found', idOf_of_found left, idOf_of_found right, same, same']

/-- A union holds what the first graph holds and what is new in the second. -/
theorem content_absorb {other : Graph} (otherFormed : other.WellFormed) :
    (graph.absorb other).1.nodes.toList = graph.nodes.toList ++
        other.nodes.toList.filter (fun node => !graph.nodeIds.contains node.id) ∧
      (graph.absorb other).1.bonds = graph.bonds ++
        other.bonds.filter (fun bond => !graph.bondIds.contains bond.id) ∧
      ∀ components, Path.Lists (graph.absorb other).1.files components ↔
        Path.Lists graph.files components ∨ Path.Lists other.files components := by
  obtain ⟨united, kept, renames⟩ := renames_addAll formed other.nodes
  obtain ⟨joined, nodes', files', -⟩ := united.arcs_addArcs otherFormed renames
  refine ⟨?nodes, ?edges, fun components => ?files⟩
  case nodes =>
    rw [absorb_fst, addFiles_eq, ← formed.nodes_addAll otherFormed.nodup_nodeIds]
    exact congrArg Array.toList nodes'
  case edges =>
    have old : graph.arcs.toList.map (graph.absorb other).1.bondOf = graph.bonds :=
      formed.bondOf_of_kept (formed.absorb otherFormed).2
    have new : ∀ arc ∈ other.arcs.toList,
        (graph.absorb other).1.bondOf (arc.under (graph.absorb other).2) = other.bondOf arc := by
      intro arc inside
      obtain ⟨handle, held⟩ := Array.mem_iff_getElem?.1 (Array.mem_toList_iff.1 inside)
      exact bondOf_under otherFormed (formed.renames_absorb otherFormed) held
    rw [bonds, formed.arcs_absorb otherFormed, List.map_append, old, List.map_map,
      show other.bonds = other.arcs.toList.map other.bondOf from rfl, List.filter_map]
    exact congrArg _ (List.map_congr_left fun arc inside => new arc (List.mem_of_mem_filter inside))
  case files =>
    have listed : ∀ components, Path.Lists (graph.absorb other).1.files components ↔
        Path.Lists (graph.addAll other.nodes).1.files components ∨
          Path.Lists other.files components := by
      intro components
      rw [absorb_fst, ← files']
      exact joined.lists_addFiles other.files components
    rw [listed]
    constructor
    · rintro (walked | listed)
      · rcases formed.lists_addAll walked with old | ⟨node, inside, same⟩
        · exact .inl old
        · obtain ⟨handle, found⟩ := mem_nodes.1 inside
          obtain ⟨file, listed, spelled⟩ := otherFormed.files_cover handle node found
          exact .inr ⟨file, listed, (beq_iff_eq.1 spelled).trans same⟩
      · exact .inr listed
    · rintro (old | listed)
      · exact .inl (lists_addAll_of_lists graph other.nodes old)
      · exact .inr listed

end WellFormed

/-- A node of a union is a node of one of the two graphs. -/
theorem WellFormed.mem_nodes_absorb {graph other : Graph} (formed : graph.WellFormed)
    (otherFormed : other.WellFormed) {node : Node}
    (inside : node ∈ (graph.absorb other).1.nodes.toList) :
    node ∈ graph.nodes.toList ∨ node ∈ other.nodes.toList := by
  rw [(formed.content_absorb otherFormed).1, List.mem_append] at inside
  exact inside.imp id fun new => (List.mem_filter.1 new).1

/-- The union of a graph with a list of others, one after the other. -/
def unite (graph : Graph) (graphs : List Graph) : Graph :=
  graphs.foldl (fun united graph => (united.absorb graph).1) graph

theorem WellFormed.unite {graph : Graph} (formed : graph.WellFormed) {graphs : List Graph}
    (all : ∀ other ∈ graphs, other.WellFormed) : (graph.unite graphs).WellFormed := by
  induction graphs generalizing graph with
  | nil => exact formed
  | cons other rest ih =>
    exact ih (formed.absorb (all other List.mem_cons_self)).1
      fun next there => all next (List.mem_cons_of_mem _ there)

theorem PlainIds.absorb {graph other : Graph} (plain : graph.PlainIds) (plain' : other.PlainIds)
    (formed : graph.WellFormed) (otherFormed : other.WellFormed) :
    (graph.absorb other).1.PlainIds := by
  intro handle node found
  rcases formed.mem_nodes_absorb otherFormed (mem_nodes.2 ⟨handle, found⟩) with old | new
  · obtain ⟨place, held⟩ := mem_nodes.1 old
    exact plain place node held
  · obtain ⟨place, held⟩ := mem_nodes.1 new
    exact plain' place node held

theorem PlainIds.unite {graph : Graph} (plain : graph.PlainIds) (formed : graph.WellFormed)
    {graphs : List Graph} (all : ∀ other ∈ graphs, other.WellFormed)
    (plains : ∀ other ∈ graphs, other.PlainIds) : (graph.unite graphs).PlainIds := by
  induction graphs generalizing graph with
  | nil => exact plain
  | cons other rest ih =>
    have otherFormed := all other List.mem_cons_self
    exact ih (plain.absorb (plains other List.mem_cons_self) formed otherFormed)
      (formed.absorb otherFormed).1 (fun next there => all next (List.mem_cons_of_mem _ there))
      fun next there => plains next (List.mem_cons_of_mem _ there)

/-! ## The order of a union -/

/-- Graphs that hold the same, whatever the order, except that the edges into each node come in the same
order. -/
structure Alike (graph other : Graph) : Prop where
  nodes : graph.nodes.toList.Perm other.nodes.toList
  into : ∀ id, (graph.bonds.filter fun bond => bond.target == id) =
    other.bonds.filter fun bond => bond.target == id
  files : ∀ components, Path.Lists graph.files components ↔ Path.Lists other.files components

namespace Alike

theorem refl (graph : Graph) : graph.Alike graph := ⟨.refl _, fun _ => rfl, fun _ => Iff.rfl⟩

theorem symm {graph other : Graph} (alike : graph.Alike other) : other.Alike graph :=
  ⟨alike.nodes.symm, fun id => (alike.into id).symm, fun components => (alike.files components).symm⟩

theorem trans {first second third : Graph} (one : first.Alike second) (two : second.Alike third) :
    first.Alike third :=
  ⟨one.nodes.trans two.nodes, fun id => (one.into id).trans (two.into id),
    fun components => (one.files components).trans (two.files components)⟩

variable {graph other : Graph} (alike : graph.Alike other)
include alike

theorem mem_nodeIds (id : String) : id ∈ graph.nodeIds ↔ id ∈ other.nodeIds :=
  (alike.nodes.map Node.id).mem_iff

theorem mem_bonds (bond : Bond) : bond ∈ graph.bonds ↔ bond ∈ other.bonds := by
  have held : ∀ bonds : List Bond,
      bond ∈ bonds ↔ bond ∈ bonds.filter fun other => other.target == bond.target := by
    simp
  rw [held graph.bonds, alike.into, ← held]

theorem mem_bondIds (id : String) : id ∈ graph.bondIds ↔ id ∈ other.bondIds := by
  simp only [bondIds, List.mem_map, alike.mem_bonds]

/-- Graphs that are alike stay so when the same graph is united with both. -/
theorem absorb (formed : graph.WellFormed) (formed' : other.WellFormed) {added : Graph}
    (addedFormed : added.WellFormed) : (graph.absorb added).1.Alike (other.absorb added).1 := by
  obtain ⟨nodes, bonds, files⟩ := formed.content_absorb addedFormed
  obtain ⟨nodes', bonds', files'⟩ := formed'.content_absorb addedFormed
  refine ⟨?_, fun id => ?_, fun components => ?_⟩
  · simp only [nodes, nodes', List.contains_eq_mem, alike.mem_nodeIds]
    exact alike.nodes.append_right _
  · simp only [bonds, bonds', List.filter_append, List.contains_eq_mem, alike.mem_bondIds,
      alike.into]
  · rw [files, files', alike.files]

end Alike

/-- Two graphs are the same, or have no node and no edge in common. -/
def Apart (graph other : Graph) : Prop :=
  graph = other ∨ (∀ id ∈ graph.nodeIds, id ∉ other.nodeIds) ∧
    ∀ id ∈ graph.bondIds, id ∉ other.bondIds

/-- A graph that has nothing in common with what was added is added as if that were not there. -/
theorem filter_append_apart {α : Type} {key : α → String} {items others : List α}
    {known : List String} (apart : ∀ item ∈ items, key item ∉ others.map key) :
    (items.filter fun item => !(known ++ (others.filter fun other =>
        !known.contains (key other)).map key).contains (key item)) =
      items.filter fun item => !known.contains (key item) := by
  refine List.filter_congr fun item inside => ?_
  have new : key item ∉ (others.filter fun other => !known.contains (key other)).map key :=
    fun there => apart item inside (List.map_subset _ (List.filter_subset_self _) there)
  rw [List.contains_append, Bool.not_or, List.contains_eq_mem (key item) (List.map _ _),
    decide_eq_false new, Bool.not_false, Bool.and_true]

/-- Two graphs that are apart can be united with a third in either order. -/
theorem WellFormed.alike_absorb_comm {graph first second : Graph} (formed : graph.WellFormed)
    (firstFormed : first.WellFormed) (secondFormed : second.WellFormed)
    (apart : first.Apart second) :
    ((graph.absorb first).1.absorb second).1.Alike ((graph.absorb second).1.absorb first).1 := by
  rcases apart with rfl | ⟨nodesApart, bondsApart⟩
  · exact .refl _
  obtain ⟨nodes, bonds, files⟩ := formed.content_absorb firstFormed
  obtain ⟨nodes', bonds', files'⟩ := formed.content_absorb secondFormed
  obtain ⟨nodes₂, bonds₂, files₂⟩ := (formed.absorb firstFormed).1.content_absorb secondFormed
  obtain ⟨nodes₂', bonds₂', files₂'⟩ := (formed.absorb secondFormed).1.content_absorb firstFormed
  have ids : (graph.absorb first).1.nodeIds = graph.nodeIds ++ (first.nodes.toList.filter
      fun node => !graph.nodeIds.contains node.id).map Node.id := by
    rw [nodeIds, nodes, List.map_append, nodeIds]
  have ids' : (graph.absorb second).1.nodeIds = graph.nodeIds ++ (second.nodes.toList.filter
      fun node => !graph.nodeIds.contains node.id).map Node.id := by
    rw [nodeIds, nodes', List.map_append, nodeIds]
  have bondIds' : (graph.absorb first).1.bondIds = graph.bondIds ++ (first.bonds.filter
      fun bond => !graph.bondIds.contains bond.id).map Bond.id := by
    rw [bondIds, bonds, List.map_append, bondIds]
  have bondIds'' : (graph.absorb second).1.bondIds = graph.bondIds ++ (second.bonds.filter
      fun bond => !graph.bondIds.contains bond.id).map Bond.id := by
    rw [bondIds, bonds', List.map_append, bondIds]
  rw [ids, filter_append_apart fun node inside there =>
    nodesApart node.id there (List.mem_map_of_mem inside), nodes] at nodes₂
  rw [ids', filter_append_apart fun node inside there =>
    nodesApart node.id (List.mem_map_of_mem inside) there, nodes'] at nodes₂'
  rw [bondIds', filter_append_apart fun bond inside there =>
    bondsApart bond.id there (List.mem_map_of_mem inside), bonds] at bonds₂
  rw [bondIds'', filter_append_apart fun bond inside there =>
    bondsApart bond.id (List.mem_map_of_mem inside) there, bonds'] at bonds₂'
  refine ⟨?nodes, fun id => ?edges, fun components => ?files⟩
  case nodes =>
    rw [nodes₂, nodes₂', List.append_assoc, List.append_assoc]
    exact List.perm_append_comm.append_left _
  case edges =>
    -- A node is in one of the two graphs only, and so are the edges into it.
    have none : ∀ {added : Graph}, added.WellFormed → id ∉ added.nodeIds →
        ((added.bonds.filter fun bond => !graph.bondIds.contains bond.id).filter
          fun bond => bond.target == id) = [] := by
      intro added addedFormed missing
      refine List.filter_eq_nil_iff.2 fun bond inside same => missing ?_
      have target := (addedFormed.ends_of_bond (List.mem_filter.1 inside).1).2.1
      rwa [beq_iff_eq.1 same] at target
    simp only [bonds₂, bonds₂', List.filter_append]
    by_cases inFirst : id ∈ first.nodeIds
    · rw [none secondFormed (nodesApart id inFirst), List.append_nil, List.append_nil]
    · rw [none firstFormed inFirst, List.append_nil, List.append_nil]
  case files =>
    rw [files₂, files₂', files, files', or_right_comm]

/-- Graphs that are alike stay so when the same graphs are united with both. -/
theorem Alike.unite {graph other : Graph} (alike : graph.Alike other) (formed : graph.WellFormed)
    (formed' : other.WellFormed) {graphs : List Graph} (all : ∀ added ∈ graphs, added.WellFormed) :
    (graph.unite graphs).Alike (other.unite graphs) := by
  induction graphs generalizing graph other with
  | nil => exact alike
  | cons added rest ih =>
    have addedFormed := all added List.mem_cons_self
    exact ih (alike.absorb formed formed' addedFormed) (formed.absorb addedFormed).1
      (formed'.absorb addedFormed).1 fun next there => all next (List.mem_cons_of_mem _ there)

/-- Graphs that are pairwise apart can be united in any order. -/
theorem WellFormed.alike_unite {graph : Graph} (formed : graph.WellFormed)
    {graphs others : List Graph} (order : graphs.Perm others)
    (all : ∀ added ∈ graphs, added.WellFormed)
    (apart : ∀ first ∈ graphs, ∀ second ∈ graphs, first.Apart second) :
    (graph.unite graphs).Alike (graph.unite others) := by
  induction order generalizing graph with
  | nil => exact .refl graph
  | cons added _ ih =>
    exact ih (formed.absorb (all added List.mem_cons_self)).1
      (fun other there => all other (List.mem_cons_of_mem _ there))
      fun first there second there' =>
        apart first (List.mem_cons_of_mem _ there) second (List.mem_cons_of_mem _ there')
  | swap first second rest =>
    have secondFormed := all second List.mem_cons_self
    have firstFormed := all first (List.mem_cons_of_mem _ List.mem_cons_self)
    have comm := formed.alike_absorb_comm secondFormed firstFormed
      (apart second List.mem_cons_self first (List.mem_cons_of_mem _ List.mem_cons_self))
    exact comm.unite ((formed.absorb secondFormed).1.absorb firstFormed).1
      ((formed.absorb firstFormed).1.absorb secondFormed).1
      fun other there => all other (List.mem_cons_of_mem _ (List.mem_cons_of_mem _ there))
  | trans one two ih ih' =>
    exact (ih formed all apart).trans (ih' formed (fun other there => all other (one.mem_iff.2 there))
      fun first there second there' =>
        apart first (one.mem_iff.2 there) second (one.mem_iff.2 there'))

end Graph

end CodeGraph

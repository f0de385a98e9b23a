import CodeGraph.Proofs.Graph.Absorb

/-!
# Unions as joins

The nodes of a union are the nodes of the graphs, one list after the other, without those whose id was
there before; so are its edges, once their ends are given by ids (`Graph.content_merge`). Joining lists in
this way is associative and idempotent (`joinBy_assoc`, `joinBy_self`). Since the ids of the nodes tell the
handles, graphs with the same nodes and the same edges between ids have the same edges between handles
(`Graph.WellFormed.arcs_eq`), and the laws of lists become laws of unions, handles included. In the other
order a union has other handles, but nothing else is different if what the graphs share is the same in both
(`Graph.merge_joins`).
-/

namespace CodeGraph

/-! ## Joining lists by key -/

section JoinBy

variable {α : Type} {key : α → String}

/-- A list, followed by the items of another one whose keys it does not have. -/
def joinBy (key : α → String) (known added : List α) : List α :=
  known ++ added.filter fun item => !(known.map key).contains (key item)

theorem nil_joinBy (added : List α) : joinBy key [] added = added := by
  simp [joinBy]

theorem joinBy_nil (known : List α) : joinBy key known [] = known := by
  simp [joinBy]

theorem joinBy_self (known : List α) : joinBy key known known = known := by
  have none : (known.filter fun item => !(known.map key).contains (key item)) = [] := by
    refine List.filter_eq_nil_iff.2 fun item inside => ?_
    simpa using ⟨item, inside, rfl⟩
  rw [joinBy, none, List.append_nil]

/-- A joined list has the keys of both. -/
theorem mem_keys_joinBy {known added : List α} {k : String} :
    k ∈ (joinBy key known added).map key ↔ k ∈ known.map key ∨ k ∈ added.map key := by
  by_cases old : k ∈ known.map key
  · simp only [joinBy, List.map_append, List.mem_append, old, true_or]
  · rw [joinBy, List.map_append, List.mem_append, or_iff_right old, or_iff_right old]
    constructor
    · exact fun new => List.map_subset key (List.filter_subset_self _) new
    · intro new
      obtain ⟨item, inside, rfl⟩ := List.mem_map.1 new
      exact List.mem_map_of_mem (List.mem_filter.2 ⟨inside, by simpa using old⟩)

theorem joinBy_assoc (first second third : List α) :
    joinBy key (joinBy key first second) third = joinBy key first (joinBy key second third) := by
  -- What the third list adds to the first two is what it adds to the second, without what the first has.
  have last : (third.filter fun item => !((joinBy key first second).map key).contains (key item)) =
      (third.filter fun item => !(second.map key).contains (key item)).filter
        fun item => !(first.map key).contains (key item) := by
    rw [List.filter_filter]
    refine List.filter_congr fun item _ => ?_
    rw [Bool.eq_iff_iff]
    simp only [Bool.and_eq_true, Bool.not_eq_true', List.contains_eq_mem, decide_eq_false_iff_not,
      mem_keys_joinBy, not_or]
  calc joinBy key (joinBy key first second) third
      = (first ++ second.filter fun item => !(first.map key).contains (key item)) ++
          (third.filter fun item => !(second.map key).contains (key item)).filter
            fun item => !(first.map key).contains (key item) := by
        rw [joinBy, last, joinBy]
    _ = joinBy key first (joinBy key second third) := by
        rw [List.append_assoc, ← List.filter_append, joinBy, joinBy]

theorem joinBy_foldl (known first : List α) (rest : List (List α)) :
    joinBy key known (rest.foldl (joinBy key) first) =
      rest.foldl (joinBy key) (joinBy key known first) := by
  induction rest generalizing first with
  | nil => rfl
  | cons next rest ih => rw [List.foldl_cons, ih, ← joinBy_assoc, List.foldl_cons]

/-- Lists that were joined already can be joined as one. -/
theorem foldl_joinBy_flatten (front middle back : List (List α)) :
    (front ++ middle.foldl (joinBy key) [] :: back).foldl (joinBy key) [] =
      (front ++ middle ++ back).foldl (joinBy key) [] := by
  simp only [List.foldl_append, List.foldl_cons, joinBy_foldl, joinBy_nil]

/-- Where items of the same key are the same, joined lists hold what one of the two holds. -/
theorem mem_joinBy {known added : List α}
    (concur : ∀ item ∈ known, ∀ other ∈ added, key item = key other → item = other) {item : α} :
    item ∈ joinBy key known added ↔ item ∈ known ∨ item ∈ added := by
  rw [joinBy, List.mem_append]
  constructor
  · exact Or.imp_right List.mem_of_mem_filter
  · rintro (old | new)
    · exact .inl old
    · by_cases there : key item ∈ known.map key
      · obtain ⟨other, inside, same⟩ := List.mem_map.1 there
        exact .inl (concur other inside item new same ▸ inside)
      · exact .inr (List.mem_filter.2 ⟨new, by simpa using there⟩)

end JoinBy

namespace Instant

/-! ## The later of two instants -/

theorem before_iff {a b : Instant} :
    a.before b = true ↔ a.seconds < b.seconds ∨ a.seconds = b.seconds ∧ a.nanos < b.nanos := by
  simp [before]

theorem latest_self (a : Instant) : a.latest a = a := by
  simp [latest]

theorem latest_comm (a b : Instant) : a.latest b = b.latest a := by
  unfold latest
  split <;> split
  · next less more =>
    rw [before_iff] at less more
    omega
  · rfl
  · rfl
  · next less more =>
    rw [before_iff] at less more
    cases a
    cases b
    rw [Instant.mk.injEq]
    simp only at less more
    omega

theorem latest_assoc (a b c : Instant) : (a.latest b).latest c = a.latest (b.latest c) := by
  unfold latest
  -- In two of the cases the three answers contradict each other.
  by_cases one : a.before b = true <;> by_cases two : b.before c = true <;>
    by_cases three : a.before c = true <;> simp [one, two, three] <;>
    · rw [before_iff] at one two three
      omega

theorem latest_foldl {α : Type} (time : α → Instant) (a b : Instant) (rest : List α) :
    a.latest (rest.foldl (fun latest item => latest.latest (time item)) b) =
      rest.foldl (fun latest item => latest.latest (time item)) (a.latest b) := by
  induction rest generalizing b with
  | nil => rfl
  | cons next rest ih => rw [List.foldl_cons, ih, ← latest_assoc, List.foldl_cons]

end Instant

namespace Graph

/-! ## Graphs that cannot be told apart -/

/-- Two graphs with the same nodes and edges under the same handles, the same indexes and the same
metadata. The files are the same paths, perhaps spelled in other ways. -/
structure Agrees (graph other : Graph) : Prop where
  nodes : graph.nodes = other.nodes
  arcs : graph.arcs = other.arcs
  nodeById : ∀ id, graph.nodeById? id = other.nodeById? id
  edgeById : ∀ id : String, graph.edgeIndex[id]? = other.edgeIndex[id]?
  language : graph.language = other.language
  created : graph.created = other.created
  files : graph.files.map Path.components = other.files.map Path.components

/-- The index of nodes of a well-formed graph can be read off its nodes. -/
theorem WellFormed.nodeById?_eq {graph other : Graph} (formed : graph.WellFormed)
    (formed' : other.WellFormed) (nodes : graph.nodes = other.nodes) (id : String) :
    graph.nodeById? id = other.nodeById? id := by
  refine Option.ext fun handle => ?_
  rw [nodeById?, nodeById?, formed.nodes_indexed, formed'.nodes_indexed, nodes]

theorem WellFormed.edgeIndex_eq {graph other : Graph} (formed : graph.WellFormed)
    (formed' : other.WellFormed) (arcs : graph.arcs = other.arcs) (id : String) :
    graph.edgeIndex[id]? = other.edgeIndex[id]? := by
  refine Option.ext fun handle => ?_
  rw [formed.edges_indexed, formed'.edges_indexed, arcs]

/-- An edge of a well-formed graph is told by its id, kind and properties and the ids of its ends: renamed
to another graph, it is the edge there with these. -/
theorem WellFormed.under_of_bond {graph other : Graph} (formed : graph.WellFormed)
    (formed' : other.WellFormed) {names : Array Nat}
    (renames : other.Renames names graph.nodes.toList) {place place' : Nat} {arc arc' : Arc}
    (found : graph.arcs[place]? = some arc) (found' : other.arcs[place']? = some arc')
    (same : graph.bondOf arc = other.bondOf arc') : arc.under names = arc' := by
  obtain ⟨source, target, -, left, right, -⟩ := formed.named place arc found
  obtain ⟨source', target', -, left', right', -⟩ := formed'.named place' arc' found'
  simp only [bondOf, Bond.mk.injEq, idOf_of_found left, idOf_of_found right, idOf_of_found left',
    idOf_of_found right'] at same
  obtain ⟨id, kind, sources, targets, properties⟩ := same
  -- The ends are renamed to handles of nodes with the same ids, and an id has one handle only.
  obtain ⟨from_, start, named, there, sourceId⟩ := renames.2 arc.source source (by simpa using left)
  obtain ⟨to_, goal, named', there', targetId⟩ := renames.2 arc.target target (by simpa using right)
  obtain rfl := formed'.handle_unique there left' (sourceId.trans sources)
  obtain rfl := formed'.handle_unique there' right' (targetId.trans targets)
  obtain ⟨sourceEnd, targetEnd⟩ := formed'.ends place' arc' found'
  obtain ⟨_, _, edge⟩ := arc
  obtain ⟨_, _, edge'⟩ := arc'
  cases edge
  cases edge'
  simp_all [Arc.under]

/-- Well-formed graphs with the same nodes, and the same edges between ids, have the same edges between
handles. -/
theorem WellFormed.arcs_eq {graph other : Graph} (formed : graph.WellFormed)
    (formed' : other.WellFormed) (nodes : graph.nodes = other.nodes)
    (bonds : graph.bonds = other.bonds) : graph.arcs = other.arcs := by
  have renames : ∀ {graph other : Graph}, graph.nodes = other.nodes →
      other.Renames (Array.range graph.nodes.size) graph.nodes.toList := by
    intro graph other nodes
    refine ⟨by simp, fun handle node there => ?_⟩
    rw [Array.getElem?_toList] at there
    have less := (Array.getElem?_eq_some_iff.1 there).1
    exact ⟨handle, node, by simp [less], nodes ▸ there, rfl⟩
  refine Array.ext_getElem? fun place => ?_
  have same := congrArg (·[place]?) bonds
  simp only [Graph.bonds, List.getElem?_map, Array.getElem?_toList] at same
  cases found : graph.arcs[place]? with
  | none =>
    rw [found] at same
    exact (Option.map_eq_none_iff.1 same.symm).symm
  | some arc =>
    rw [found] at same
    obtain ⟨arc', found', bond⟩ := Option.map_eq_some_iff.1 same.symm
    -- Renamed by the identity, both edges are the edge of that place.
    have self := formed.under_of_bond formed (renames rfl) found found rfl
    rw [found', ← formed.under_of_bond formed' (renames nodes) found found' bond.symm, self]

theorem WellFormed.agrees {graph other : Graph} (formed : graph.WellFormed)
    (formed' : other.WellFormed) (nodes : graph.nodes.toList = other.nodes.toList)
    (bonds : graph.bonds = other.bonds) (language : graph.language = other.language)
    (created : graph.created = other.created)
    (files : ∀ components, Path.Lists graph.files components ↔ Path.Lists other.files components) :
    graph.Agrees other := by
  have sameNodes := Array.toList_inj.1 nodes
  have sameArcs := formed.arcs_eq formed' sameNodes bonds
  exact ⟨sameNodes, sameArcs, formed.nodeById?_eq formed' sameNodes,
    formed.edgeIndex_eq formed' sameArcs, language, created,
    Path.components_eq_of_lists formed.files_sorted formed'.files_sorted files⟩

/-! ## Renaming handles -/

theorem nodup_of_ids {arcs : List Arc} (distinct : (arcs.map fun arc => arc.edge.id).Nodup) :
    arcs.Nodup :=
  List.Pairwise.of_map _ (fun _ _ different same =>
    different (congrArg (fun arc => arc.edge.id) same)) distinct

/-- A table renames the handles of a graph to those of another graph that holds the same: the handle of a
node becomes the one of the node of its id. -/
structure RenamedTo (graph other : Graph) (names : Array Nat) : Prop where
  size : names.size = graph.nodes.size
  nodes : ∀ (handle : Nat) (node : Node), graph.nodes[handle]? = some node →
    ∃ place, names[handle]? = some place ∧ other.nodeById? node.id = some place ∧
      other.nodes[place]? = some node
  /-- Every node of the other graph is the new place of one node. -/
  onto : ∀ place < other.nodes.size, ∃! handle : Nat, names[handle]? = some place
  arcs : (graph.arcs.toList.map fun arc => arc.under names).Perm other.arcs.toList

/-- The table that sends the nodes of a graph to the nodes of the same ids in another one. -/
def placesIn (graph other : Graph) : Array Nat :=
  graph.nodes.map fun node => (other.nodeById? node.id).getD 0

section Swapped

variable {graph other : Graph} (formed : graph.WellFormed) (formed' : other.WellFormed)
  (nodes : ∀ node, node ∈ graph.nodes.toList ↔ node ∈ other.nodes.toList)

include formed' nodes in
theorem exists_placesIn {handle : Nat} {node : Node} (found : graph.nodes[handle]? = some node) :
    ∃ place, (graph.placesIn other)[handle]? = some place ∧ other.nodeById? node.id = some place ∧
      other.nodes[place]? = some node := by
  obtain ⟨place, held⟩ := mem_nodes.1 ((nodes node).1 (mem_nodes.2 ⟨handle, found⟩))
  have known : other.nodeById? node.id = some place :=
    (formed'.nodes_indexed node.id place).2 ⟨node, held, rfl⟩
  exact ⟨place, by simp [placesIn, found, known], known, held⟩

include formed' nodes in
theorem renames_placesIn : other.Renames (graph.placesIn other) graph.nodes.toList := by
  refine ⟨by simp [placesIn], fun handle node there => ?_⟩
  obtain ⟨place, given, -, held⟩ := exists_placesIn formed' nodes (by simpa using there)
  exact ⟨place, node, given, held, rfl⟩

include formed formed' nodes in
theorem existsUnique_placesIn {place : Nat} (less : place < other.nodes.size) :
    ∃! handle : Nat, (graph.placesIn other)[handle]? = some place := by
  obtain ⟨node, held⟩ := node_of_lt less
  obtain ⟨handle, found⟩ := mem_nodes.1 ((nodes node).2 (mem_nodes.2 ⟨place, held⟩))
  obtain ⟨place', given, -, held'⟩ := exists_placesIn formed' nodes found
  obtain rfl := formed'.handle_unique held' held rfl
  refine ⟨handle, given, fun handle' given' => ?_⟩
  obtain ⟨node', found', -⟩ := by
    simpa only [placesIn, Array.getElem?_map, Option.map_eq_some_iff] using given'
  -- Handles with the same place have nodes with the same id.
  obtain ⟨place'', given'', -, held''⟩ := exists_placesIn formed' nodes found'
  obtain rfl := Option.some.inj (given'.symm.trans given'')
  obtain rfl := Option.some.inj (held.symm.trans held'')
  exact formed.handle_unique found' found rfl

include formed formed' nodes in
/-- Where two graphs hold the same edges between ids, renaming leads from the edges of one to those of the
other. -/
theorem mem_arcs_placesIn (bonds : ∀ bond, bond ∈ graph.bonds ↔ bond ∈ other.bonds) (arc' : Arc) :
    (arc' ∈ graph.arcs.toList.map fun arc => arc.under (graph.placesIn other)) ↔
      arc' ∈ other.arcs.toList := by
  have renames := renames_placesIn formed' nodes
  constructor
  · intro inside
    obtain ⟨arc, there, rfl⟩ := List.mem_map.1 inside
    obtain ⟨handle, found⟩ := Array.mem_iff_getElem?.1 (Array.mem_toList_iff.1 there)
    obtain ⟨handle', arc', found', same⟩ :=
      mem_bonds.1 ((bonds _).1 (mem_bonds.2 ⟨handle, arc, found, rfl⟩))
    rw [formed.under_of_bond formed' renames found found' same.symm]
    exact Array.mem_toList_iff.2 (Array.mem_of_getElem? found')
  · intro inside
    obtain ⟨handle', found'⟩ := Array.mem_iff_getElem?.1 (Array.mem_toList_iff.1 inside)
    obtain ⟨handle, arc, found, same⟩ :=
      mem_bonds.1 ((bonds _).2 (mem_bonds.2 ⟨handle', arc', found', rfl⟩))
    rw [← formed.under_of_bond formed' renames found found' same]
    exact List.mem_map_of_mem (Array.mem_toList_iff.2 (Array.mem_of_getElem? found))

include formed formed' nodes in
/-- Graphs that hold the same nodes and the same edges between ids differ in their handles only. -/
theorem WellFormed.renamedTo (bonds : ∀ bond, bond ∈ graph.bonds ↔ bond ∈ other.bonds) :
    graph.RenamedTo other (graph.placesIn other) := by
  have distinct : (graph.arcs.toList.map fun arc => arc.under (graph.placesIn other)).Nodup := by
    refine nodup_of_ids ?_
    rw [List.map_map]
    exact bondIds_eq graph ▸ formed.nodup_bondIds
  have distinct' : other.arcs.toList.Nodup := nodup_of_ids (bondIds_eq other ▸ formed'.nodup_bondIds)
  exact ⟨by simp [placesIn], fun handle node found => exists_placesIn formed' nodes found,
    fun place less => existsUnique_placesIn formed formed' nodes less,
    (List.perm_ext_iff_of_nodup distinct distinct').2 (mem_arcs_placesIn formed formed' nodes bonds)⟩

end Swapped

/-! ## The contents of a union -/

/-- Each of the graphs that are united into a graph is joined to what is there before it. -/
theorem WellFormed.content_unite {united : Graph} (whole : united.WellFormed) {graphs : List Graph}
    (formed : ∀ graph ∈ graphs, graph.WellFormed) :
    (united.unite graphs).nodes.toList =
        (graphs.map fun graph => graph.nodes.toList).foldl (joinBy Node.id) united.nodes.toList ∧
      (united.unite graphs).bonds = (graphs.map bonds).foldl (joinBy Bond.id) united.bonds ∧
      ∀ components, Path.Lists (united.unite graphs).files components ↔
        Path.Lists united.files components ∨ ∃ graph ∈ graphs, Path.Lists graph.files components := by
  induction graphs generalizing united with
  | nil => exact ⟨rfl, rfl, fun _ => (or_iff_left (by simp)).symm⟩
  | cons graph rest ih =>
    have graphFormed := formed graph List.mem_cons_self
    obtain ⟨nodes, bonds, files⟩ := whole.content_absorb graphFormed
    obtain ⟨nodes', bonds', files'⟩ := ih (whole.absorb graphFormed).1
      fun other there => formed other (List.mem_cons_of_mem _ there)
    refine ⟨nodes'.trans ?_, bonds'.trans ?_, fun components => (files' components).trans ?_⟩
    · rw [nodes]
      rfl
    · rw [bonds]
      rfl
    · rw [files, or_assoc, List.exists_mem_cons_iff]

/-- A union holds the nodes and edges of the graphs, each list joined to those before it, and the files of
all of them. -/
theorem content_merge (present : Instant) {graphs : List Graph}
    (formed : ∀ graph ∈ graphs, graph.WellFormed) :
    (merge present graphs).nodes.toList =
        (graphs.map fun graph => graph.nodes.toList).foldl (joinBy Node.id) [] ∧
      (merge present graphs).bonds = (graphs.map bonds).foldl (joinBy Bond.id) [] ∧
      ∀ components, Path.Lists (merge present graphs).files components ↔
        ∃ graph ∈ graphs, Path.Lists graph.files components := by
  cases graphs with
  | nil => exact ⟨rfl, rfl, by simp [merge, empty, stamped, Path.Lists]⟩
  | cons first rest =>
    obtain ⟨nodes, bonds, files⟩ := wellFormed_empty.content_unite formed
    refine ⟨nodes, bonds, fun components => (files components).trans (or_iff_right ?_)⟩
    rintro ⟨file, listed, -⟩
    cases listed

/-- What two graphs share is the same in both: a node of both has one content, and an edge of both has one
content and leads between nodes of the same ids. -/
structure Concurs (graph other : Graph) : Prop where
  nodes : ∀ node ∈ graph.nodes.toList, ∀ node' ∈ other.nodes.toList, node.id = node'.id → node = node'
  bonds : ∀ bond ∈ graph.bonds, ∀ bond' ∈ other.bonds, bond.id = bond'.id → bond = bond'

theorem Concurs.symm {graph other : Graph} (concurs : graph.Concurs other) : other.Concurs graph :=
  ⟨fun node inside node' inside' same => (concurs.nodes node' inside' node inside same.symm).symm,
    fun bond inside bond' inside' same => (concurs.bonds bond' inside' bond inside same.symm).symm⟩

section Two

variable {a b : Graph} (formed : a.WellFormed) (formed' : b.WellFormed) (present : Instant)
include formed formed'

theorem WellFormed.mem_files_merge_two (components : List Path.Component) :
    Path.Lists (merge present [a, b]).files components ↔
      Path.Lists a.files components ∨ Path.Lists b.files components := by
  rw [(content_merge present (by simp [formed, formed'])).2.2 components]
  simp

/-- Where two graphs concur, their union holds what one of the two holds. -/
theorem WellFormed.mem_merge_two (concurs : a.Concurs b) :
    (∀ node, node ∈ (merge present [a, b]).nodes.toList ↔
        node ∈ a.nodes.toList ∨ node ∈ b.nodes.toList) ∧
      ∀ bond, bond ∈ (merge present [a, b]).bonds ↔ bond ∈ a.bonds ∨ bond ∈ b.bonds := by
  have both : ∀ graph ∈ [a, b], graph.WellFormed := by simp [formed, formed']
  obtain ⟨nodes, bonds, -⟩ := content_merge present both
  rw [nodes, bonds]
  simp only [List.map_cons, List.map_nil, List.foldl_cons, List.foldl_nil, nil_joinBy]
  exact ⟨fun _ => mem_joinBy concurs.nodes, fun _ => mem_joinBy concurs.bonds⟩

/-- In the other order the union of two graphs that concur is the same but for handles. -/
theorem WellFormed.merge_swap (concurs : a.Concurs b) :
    (∃ names, (merge present [a, b]).RenamedTo (merge present [b, a]) names) ∧
      (merge present [a, b]).files.map Path.components =
        (merge present [b, a]).files.map Path.components ∧
      (merge present [a, b]).created = (merge present [b, a]).created := by
  have both : ∀ graph ∈ [a, b], graph.WellFormed := by simp [formed, formed']
  have both' : ∀ graph ∈ [b, a], graph.WellFormed := by simp [formed, formed']
  have whole := wellFormed_merge present both
  have whole' := wellFormed_merge present both'
  obtain ⟨nodes, bonds⟩ := formed.mem_merge_two formed' present concurs
  obtain ⟨nodes', bonds'⟩ := formed'.mem_merge_two formed present concurs.symm
  refine ⟨⟨_, whole.renamedTo whole' (fun node => ?_) fun bond => ?_⟩,
    Path.components_eq_of_lists whole.files_sorted whole'.files_sorted fun components => ?_,
    Instant.latest_comm a.created b.created⟩
  · rw [nodes, nodes', or_comm]
  · rw [bonds, bonds', or_comm]
  · rw [formed.mem_files_merge_two formed', formed'.mem_files_merge_two formed, or_comm]

end Two

/-- Uniting a graph with nothing, or with itself, changes nothing. -/
theorem WellFormed.merge_self {a : Graph} (formed : a.WellFormed) (present : Instant) :
    (merge present [a, a]).Agrees (merge present [a]) ∧ (merge present [a]).Agrees a := by
  have alone : ∀ graph ∈ [a], graph.WellFormed := by simp [formed]
  have pair : ∀ graph ∈ [a, a], graph.WellFormed := by simp [formed]
  have once := wellFormed_merge present alone
  have twice := wellFormed_merge present pair
  obtain ⟨nodes, bonds, files⟩ := content_merge present alone
  obtain ⟨nodes', bonds', files'⟩ := content_merge present pair
  simp only [List.map_cons, List.map_nil, List.foldl_cons, List.foldl_nil, nil_joinBy, joinBy_self,
    List.exists_mem_cons_iff, List.not_mem_nil, false_and, exists_false, or_false, or_self] at *
  exact ⟨twice.agrees once (nodes'.trans nodes.symm) (bonds'.trans bonds.symm) rfl
      (Instant.latest_self a.created) fun components => (files' components).trans (files components).symm,
    once.agrees formed nodes bonds rfl rfl files⟩

/-- A union of unions is the union of all. -/
theorem WellFormed.merge_flatten (present : Instant) (front middle back : List Graph)
    (some : middle ≠ []) (formed : ∀ graph ∈ front ++ middle ++ back, graph.WellFormed) :
    (merge present (front ++ merge present middle :: back)).Agrees
      (merge present (front ++ middle ++ back)) := by
  have inner : ∀ graph ∈ middle, graph.WellFormed := fun graph inside =>
    formed graph (by simp [inside])
  have outer : ∀ graph ∈ front ++ merge present middle :: back, graph.WellFormed := by
    intro graph inside
    simp only [List.mem_append, List.mem_cons] at inside
    rcases inside with before | rfl | behind
    · exact formed graph (by simp [before])
    · exact wellFormed_merge present inner
    · exact formed graph (by simp [behind])
  obtain ⟨nodes, bonds, files⟩ := content_merge present inner
  obtain ⟨nodes', bonds', files'⟩ := content_merge present outer
  obtain ⟨nodes'', bonds'', files''⟩ := content_merge present formed
  obtain ⟨first, rest, rfl⟩ := List.exists_cons_of_ne_nil some
  refine (wellFormed_merge present outer).agrees (wellFormed_merge present formed) ?nodes ?bonds
    ?language ?created fun components => ?files
  case nodes =>
    rw [nodes', nodes'', List.map_append, List.map_cons, nodes, foldl_joinBy_flatten,
      List.map_append, List.map_append]
  case bonds =>
    rw [bonds', bonds'', List.map_append, List.map_cons, bonds, foldl_joinBy_flatten,
      List.map_append, List.map_append]
  case language => cases front <;> rfl
  case created =>
    cases front with
    | nil => simp [merge, List.foldl_append]
    | cons start front => simp [merge, List.foldl_append, Instant.latest_foldl]
  case files =>
    rw [files', files'']
    simp only [List.mem_append, List.mem_cons, or_and_right, exists_or, exists_eq_left, files,
      or_assoc]

/-- Uniting is a join: doing it twice changes nothing, unions of unions are unions, and the order matters
for handles and the language only, if the graphs concur. -/
theorem merge_joins {a b c : Graph} (reached : a.Reached) (reached' : b.Reached)
    (reached'' : c.Reached) (present : Instant) :
    (merge present [a, a]).Agrees (merge present [a]) ∧ (merge present [a]).Agrees a ∧
      (merge present [merge present [a, b], c]).Agrees (merge present [a, b, c]) ∧
      (merge present [a, merge present [b, c]]).Agrees (merge present [a, b, c]) ∧
      (a.Concurs b →
        (∃ names, (merge present [a, b]).RenamedTo (merge present [b, a]) names) ∧
          (merge present [a, b]).files.map Path.components =
            (merge present [b, a]).files.map Path.components ∧
          (merge present [a, b]).created = (merge present [b, a]).created) := by
  have formed := reached.wellFormed
  have formed' := reached'.wellFormed
  have formed'' := reached''.wellFormed
  have all : ∀ graph ∈ [a, b, c], graph.WellFormed := by simp [formed, formed', formed'']
  obtain ⟨twice, once⟩ := formed.merge_self present
  exact ⟨twice, once,
    WellFormed.merge_flatten present [] [a, b] [c] (by simp) all,
    WellFormed.merge_flatten present [a] [b, c] [] (by simp) all,
    formed.merge_swap formed' present⟩

theorem bonds_selfCaller : selfCaller.bonds = [⟨"call:f->f", .call, "f", "f", {}⟩] := by
  simp [selfCaller, Operation.apply, withEdge, addEdge, addArc, Graph.addNode, empty, stamped,
    functionAt, edgeId, EdgeKind.name, bonds, bondOf, idOf]

theorem bonds_outerCaller : outerCaller.bonds =
    [⟨"call:f->f", .call, "f", "f", {}⟩, ⟨"call:g->f", .call, "g", "f", {}⟩] := by
  simp [outerCaller, Operation.apply, withEdge, addEdge, addArc, Graph.addNode, empty, stamped,
    functionAt, edgeId, EdgeKind.name, bonds, bondOf, idOf]

theorem concurs_outerCaller : selfCaller.Concurs outerCaller := by
  refine ⟨?_, ?_⟩
  · rw [nodes_selfCaller, nodes_outerCaller]
    decide
  · rw [bonds_selfCaller, bonds_outerCaller]
    decide

/-- The first two graphs share a node and an edge, under different handles. -/
theorem merge_joins_outerCaller : selfCaller.Reached ∧ outerCaller.Reached ∧ recursion.Reached ∧
    selfCaller.Concurs outerCaller ∧
    ∃ names, (merge .epoch [selfCaller, outerCaller]).RenamedTo
      (merge .epoch [outerCaller, selfCaller]) names :=
  ⟨reached_selfCaller, reached_outerCaller, reached_recursion, concurs_outerCaller,
    ((merge_joins reached_selfCaller reached_outerCaller reached_recursion .epoch).2.2.2.2
      concurs_outerCaller).1⟩

end Graph

end CodeGraph

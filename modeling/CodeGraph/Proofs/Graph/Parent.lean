import CodeGraph.Proofs.Graph.Union

/-!
# Parents

The parents of all nodes are read off the edges in one pass. The parent of one node is the source of the
last containment edge into it (`Graph.parent?_eq`), and its id can be told from the edges without their
handles (`Graph.WellFormed.idOf_parent?`).
-/

namespace CodeGraph

namespace Graph

/-- The parent of a node is the source of the last containment edge into it. -/
theorem getElem?_foldl_parents (arcs : List Arc) (parents : Array (Option Nat)) (handle : Nat) :
    (arcs.foldl (fun parents arc =>
        if arc.edge.kind = .child then parents.modify arc.target fun _ => some arc.edge.source
        else parents) parents)[handle]?.join =
      match (arcs.filter fun arc => arc.edge.kind == .child && arc.target == handle).getLast? with
      | some arc => if handle < parents.size then some arc.edge.source else none
      | none => parents[handle]?.join := by
  induction arcs generalizing parents with
  | nil => rfl
  | cons arc rest ih =>
    rw [List.foldl_cons, ih]
    by_cases into : arc.edge.kind = .child ∧ arc.target = handle
    · obtain ⟨kind, rfl⟩ := into
      rw [if_pos kind, Array.size_modify, List.filter_cons_of_pos (by simp [kind]), List.getLast?_cons]
      cases (rest.filter fun other => other.edge.kind == .child && other.target == arc.target).getLast?
          with
      | some last => rfl
      | none =>
        simp only [Array.getElem?_modify, if_true, Option.getD_none]
        by_cases inside : arc.target < parents.size
        · simp [inside]
        · simp [inside]
    · rw [List.filter_cons_of_neg (by simpa using into)]
      by_cases kind : arc.edge.kind = .child
      · have other : arc.target ≠ handle := fun same => into ⟨kind, same⟩
        rw [if_pos kind, Array.size_modify, Array.getElem?_modify, if_neg other]
      · rw [if_neg kind]

theorem size_parents (graph : Graph) : graph.parents.size = graph.nodes.size := by
  have each : ∀ (arcs : List Arc) (parents : Array (Option Nat)),
      (arcs.foldl (fun parents arc =>
        if arc.edge.kind = .child then parents.modify arc.target fun _ => some arc.edge.source
        else parents) parents).size = parents.size := by
    intro arcs
    induction arcs with
    | nil => exact fun _ => rfl
    | cons arc rest ih =>
      intro parents
      rw [List.foldl_cons, ih]
      split
      · exact Array.size_modify
      · rfl
  rw [parents, ← Array.foldl_toList, each, Array.size_replicate]

theorem parent?_eq (graph : Graph) {handle : Nat} (there : handle < graph.nodes.size) :
    graph.parent? handle =
      ((graph.arcs.toList.filter fun arc => arc.edge.kind == .child && arc.target == handle).getLast?).map
        fun arc => arc.edge.source := by
  rw [parent?, parents, ← Array.foldl_toList, getElem?_foldl_parents, Array.size_replicate,
    Array.getElem?_replicate, if_pos there]
  cases (graph.arcs.toList.filter fun arc =>
    arc.edge.kind == .child && arc.target == handle).getLast? with
  | some arc => simp [there]
  | none => rfl

/-- The id of the parent of a node can be read off the edges into the node. -/
theorem WellFormed.idOf_parent? {graph : Graph} (formed : graph.WellFormed) {handle : Nat}
    {node : Node} (found : graph.nodes[handle]? = some node) :
    (graph.parent? handle).map graph.idOf =
      (((graph.bonds.filter fun bond => bond.target == node.id).filter
        fun bond => bond.kind == .child).getLast?).map Bond.source := by
  have there := (Array.getElem?_eq_some_iff.1 found).1
  have held : ∀ arc ∈ graph.arcs.toList, ∃ place : Nat, graph.arcs[place]? = some arc :=
    fun arc inside => Array.mem_iff_getElem?.1 (Array.mem_toList_iff.1 inside)
  have same : (graph.arcs.toList.filter fun arc =>
        arc.edge.kind == .child && arc.target == handle) =
      graph.arcs.toList.filter fun arc =>
        (graph.bondOf arc).kind == .child && (graph.bondOf arc).target == node.id := by
    refine List.filter_congr fun arc inside => ?_
    obtain ⟨place, stood⟩ := held arc inside
    obtain ⟨source, target, -, left, right, -⟩ := formed.named place arc stood
    have targetId : (graph.bondOf arc).target = target.id := idOf_of_found right
    have into : arc.target = handle ↔ target.id = node.id :=
      ⟨fun same => by
        rw [same, found] at right
        rw [Option.some.inj right], fun same => formed.handle_unique right found same⟩
    rw [targetId, Bool.eq_iff_iff]
    simp only [Bool.and_eq_true, beq_iff_eq, into]
    rfl
  rw [graph.parent?_eq there, same, List.filter_filter, bonds, List.filter_map, List.getLast?_map,
    Option.map_map, Option.map_map]
  cases last : (graph.arcs.toList.filter ((fun bond => bond.kind == .child &&
      bond.target == node.id) ∘ graph.bondOf)).getLast? with
  | none =>
    have none : (graph.arcs.toList.filter fun arc =>
        (graph.bondOf arc).kind == .child && (graph.bondOf arc).target == node.id).getLast? = none :=
      last
    rw [none]
    rfl
  | some arc =>
    have found : (graph.arcs.toList.filter fun arc => (graph.bondOf arc).kind == .child &&
        (graph.bondOf arc).target == node.id).getLast? = some arc := last
    obtain ⟨place, stood⟩ := held arc
      (List.mem_of_mem_filter (List.mem_of_getLast? last))
    rw [found]
    simp only [Option.map_some, Function.comp_apply, (formed.ends place arc stood).1]
    rfl

/-- A containment edge leads from the parent of a node to the node. -/
theorem WellFormed.hasEdge_parent? {graph : Graph} (formed : graph.WellFormed) {handle parent : Nat}
    (above : graph.parent? handle = some parent) :
    ∃ tag, graph.HasEdge .child parent handle tag := by
  have there : handle < graph.nodes.size := by
    by_contra outside
    have missing : graph.parents[handle]? = none :=
      Array.getElem?_eq_none (by rw [graph.size_parents]; omega)
    rw [parent?, missing] at above
    cases above
  rw [graph.parent?_eq there] at above
  obtain ⟨arc, last, rfl⟩ := Option.map_eq_some_iff.1 above
  have listed := List.mem_of_getLast? last
  rw [List.mem_filter, Bool.and_eq_true, beq_iff_eq, beq_iff_eq] at listed
  obtain ⟨stood, kind, rfl⟩ := listed
  obtain ⟨place, held⟩ := Array.mem_iff_getElem?.1 (Array.mem_toList_iff.1 stood)
  obtain ⟨tag, has⟩ := formed.hasEdge_of_mem (mem_edges.2 ⟨place, arc, held, rfl⟩)
  rw [kind, (formed.ends place arc held).2] at has
  exact ⟨tag, has⟩

theorem WellFormed.parent?_lt {graph : Graph} (formed : graph.WellFormed) {handle parent : Nat}
    (above : graph.parent? handle = some parent) : parent < graph.nodes.size := by
  obtain ⟨tag, edge, -, -, -, -, from_, to_, left, -⟩ := formed.hasEdge_parent? above
  exact (Array.getElem?_eq_some_iff.1 left).1

/-- If all containment edges into a node come from one node, this is its parent. -/
theorem WellFormed.parent?_eq_some {graph : Graph} (formed : graph.WellFormed) {handle parent : Nat}
    {tag : Option String} (has : graph.HasEdge .child parent handle tag)
    (only : ∀ other tag, graph.HasEdge .child other handle tag → other = parent) :
    graph.parent? handle = some parent := by
  obtain ⟨edge, inside, kind, -, goal, -, to_, -, right, -⟩ := has
  obtain ⟨place, arc, held, rfl⟩ := mem_edges.1 inside
  have listed : arc ∈ graph.arcs.toList.filter fun arc =>
      arc.edge.kind == .child && arc.target == handle := by
    rw [List.mem_filter, ← (formed.ends place arc held).2, kind, goal]
    exact ⟨Array.mem_toList_iff.2 (Array.mem_of_getElem? held), by simp⟩
  rw [graph.parent?_eq (Array.getElem?_eq_some_iff.1 right).1]
  cases last : (graph.arcs.toList.filter fun arc =>
      arc.edge.kind == .child && arc.target == handle).getLast? with
  | none =>
    rw [List.getLast?_eq_none_iff.1 last] at listed
    cases listed
  | some arc =>
    have there := List.mem_of_getLast? last
    rw [List.mem_filter, Bool.and_eq_true, beq_iff_eq, beq_iff_eq] at there
    obtain ⟨stood, kind', rfl⟩ := there
    obtain ⟨place', held'⟩ := Array.mem_iff_getElem?.1 (Array.mem_toList_iff.1 stood)
    obtain ⟨tag, has⟩ := formed.hasEdge_of_mem (mem_edges.2 ⟨place', arc, held', rfl⟩)
    rw [kind', (formed.ends place' arc held').2] at has
    exact congrArg some (only _ tag has)

end Graph

end CodeGraph

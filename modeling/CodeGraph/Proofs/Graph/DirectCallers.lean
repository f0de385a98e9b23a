import CodeGraph.Proofs.Graph.Absorb
import CodeGraph.Proofs.Graph.Callers

/-!
# Direct callers, found in two ways

The callers of the functions of a name can be asked for at once, or as those that are at most one call away.
The second search begins at the functions themselves and finds nobody whom it has seen, so it leaves out
the functions of the name, and nobody else (`Graph.WellFormed.mem_transitiveCallers_one`). The two answers
differ just where a function of the name calls a function of the name, itself or another one
(`Graph.Reached.direct_callers`).
-/

namespace CodeGraph

/-- A node is a function of a name. -/
def Node.IsFunction (node : Node) (name : String) : Prop := node.kind = .func ∧ node.name = some name

namespace Graph

/-- Some function of a name calls a function of that name, itself or another one. -/
def CallsItself (graph : Graph) (name : String) : Prop :=
  ∃ caller ∈ graph.functionsNamed name, ∃ handle ∈ graph.functionsNamed name, ∃ tag,
    graph.HasEdge .call caller handle tag

variable {graph : Graph} {name : String}

theorem mem_functionsNamed {handle : Nat} {node : Node} (held : graph.nodes[handle]? = some node) :
    handle ∈ graph.functionsNamed name ↔ node.IsFunction name := by
  have there := (Array.getElem?_eq_some_iff.1 held).1
  simp only [functionsNamed, nodesOfKind, List.mem_filter, List.mem_range, there, held, true_and,
    Option.map_some, Option.bind_some, beq_iff_eq, Option.some.injEq, Node.IsFunction]

/-- One call leads to a function of a name from each caller of such a function. -/
theorem callsNamed_one {caller : Nat} : graph.CallsNamed name caller 1 ↔
    ∃ handle ∈ graph.functionsNamed name, ∃ tag, graph.HasEdge .call caller handle tag := by
  constructor
  · rintro ⟨handle, named, path⟩
    cases path with
    | call has onward =>
      cases onward
      exact ⟨handle, named, _, has⟩
  · rintro ⟨handle, named, tag, has⟩
    exact ⟨handle, named, .call has (.here handle)⟩

/-- The nodes one call away are the callers that are no functions of the name. -/
theorem callDistance_one {caller : Nat} : graph.CallDistance name caller 1 ↔
    graph.CallsNamed name caller 1 ∧ caller ∉ graph.functionsNamed name := by
  constructor
  · intro distance
    exact ⟨distance.1, fun named => nomatch distance.unique (CallDistance.zero_iff.2 named)⟩
  · rintro ⟨calls, apart⟩
    refine ⟨calls, fun shorter calls' => Nat.one_le_iff_ne_zero.2 ?_⟩
    rintro rfl
    obtain ⟨seed, named, path⟩ := calls'
    cases path
    exact apart named

namespace WellFormed

variable (formed : graph.WellFormed)
include formed

theorem mem_findCallers_iff {caller : Nat} {node : Node} (held : graph.nodes[caller]? = some node) :
    node ∈ graph.findCallers name ↔ graph.CallsNamed name caller 1 := by
  simp only [findCallers, List.mem_filterMap, List.mem_eraseDups, List.mem_flatMap,
    formed.mem_callersOf, callsNamed_one]
  constructor
  · rintro ⟨other, calls, found⟩
    exact formed.handle_unique found held rfl ▸ calls
  · exact fun calls => ⟨caller, calls, held⟩

theorem mem_transitiveCallers_iff {bound : Option Nat} {caller : Nat} {node : Node}
    (held : graph.nodes[caller]? = some node) : node ∈ graph.transitiveCallers name bound ↔
      ∃ length, graph.CallDistance name caller length ∧ 0 < length ∧
        length ≤ bound.getD graph.arcs.size := by
  have among : caller ∈ graph.callersAround (bound.getD graph.arcs.size)
      (graph.functionsNamed name) (graph.functionsNamed name) ↔ _ :=
    (Level.start graph name).mem_callersAround formed _ caller
  rw [Nat.zero_add] at among
  rw [← among, transitiveCallers, List.mem_filterMap]
  constructor
  · rintro ⟨other, inside, found⟩
    exact formed.handle_unique found held rfl ▸ inside
  · exact fun inside => ⟨caller, inside, held⟩

/-- The search that begins at the functions of a name finds their callers, apart from these functions. -/
theorem mem_transitiveCallers_one {node : Node} : node ∈ graph.transitiveCallers name (some 1) ↔
    node ∈ graph.findCallers name ∧ ¬ node.IsFunction name := by
  by_cases there : ∃ caller : Nat, graph.nodes[caller]? = some node
  · obtain ⟨caller, held⟩ := there
    rw [formed.mem_transitiveCallers_iff held, formed.mem_findCallers_iff held,
      ← mem_functionsNamed held, ← callDistance_one, Option.getD_some]
    constructor
    · rintro ⟨length, distance, positive, few⟩
      obtain rfl : length = 1 := Nat.le_antisymm few positive
      exact distance
    · exact fun distance => ⟨1, distance, Nat.one_pos, Nat.le_refl 1⟩
  · have found : ∀ {handles : List Nat}, node ∉ handles.filterMap graph.node? := by
      intro handles inside
      obtain ⟨caller, -, held⟩ := List.mem_filterMap.1 inside
      exact there ⟨caller, held⟩
    exact iff_of_false found fun both => found both.1

/-- However far the search goes, it finds no function of the name. -/
theorem not_isFunction_of_mem {bound : Option Nat} {node : Node}
    (inside : node ∈ graph.transitiveCallers name bound) : ¬ node.IsFunction name := by
  obtain ⟨caller, -, held⟩ := List.mem_filterMap.1 inside
  obtain ⟨length, distance, positive, -⟩ := (formed.mem_transitiveCallers_iff held).1 inside
  intro named
  have none := distance.unique (CallDistance.zero_iff.2 ((mem_functionsNamed held).2 named))
  exact Nat.ne_of_gt positive none

/-- Callers that are no functions of the name are found without a bound as well. -/
theorem mem_transitiveCallers_none {node : Node} (calls : node ∈ graph.findCallers name) :
    node ∈ graph.transitiveCallers name none ↔ ¬ node.IsFunction name := by
  refine ⟨formed.not_isFunction_of_mem, fun apart => ?_⟩
  have wider : graph.transitiveCallers name (some 1) <+: graph.transitiveCallers name none :=
    formed.transitiveCallers_isPrefix name (by simp)
  exact wider.subset (formed.mem_transitiveCallers_one.2 ⟨calls, apart⟩)

/-- A function of the name is among its callers just if the functions of the name call each other. -/
theorem callsItself_iff : graph.CallsItself name ↔
    ∃ node ∈ graph.findCallers name, node.IsFunction name := by
  constructor
  · rintro ⟨caller, named, handle, named', tag, has⟩
    obtain ⟨edge, -, -, -, -, node, -, held, -⟩ := id has
    exact ⟨node, (formed.mem_findCallers_iff held).2 (callsNamed_one.2 ⟨handle, named', tag, has⟩),
      (mem_functionsNamed held).1 named⟩
  · rintro ⟨node, calls, named⟩
    obtain ⟨caller, -, held⟩ := List.mem_filterMap.1 calls
    obtain ⟨handle, named', tag, has⟩ := callsNamed_one.1 ((formed.mem_findCallers_iff held).1 calls)
    exact ⟨caller, (mem_functionsNamed held).2 named, handle, named', tag, has⟩

end WellFormed

/-- The callers that are found at once are the callers that are found within one call, and are found
without a bound, apart from the functions of the name itself. So the two searches agree, and the one
without a bound covers the other one, just if no function of the name calls a function of the name. -/
theorem Reached.direct_callers (reached : graph.Reached) (name : String) :
    (∀ node, node ∈ graph.transitiveCallers name (some 1) ↔
        node ∈ graph.findCallers name ∧ ¬ node.IsFunction name) ∧
      (∀ node ∈ graph.findCallers name,
        (node ∈ graph.transitiveCallers name none ↔ ¬ node.IsFunction name)) ∧
      ((∀ node, node ∈ graph.transitiveCallers name (some 1) ↔ node ∈ graph.findCallers name) ↔
        ¬ graph.CallsItself name) ∧
      (graph.findCallers name ⊆ graph.transitiveCallers name none ↔ ¬ graph.CallsItself name) := by
  have formed := reached.wellFormed
  have apart : ¬ graph.CallsItself name ↔ ∀ node ∈ graph.findCallers name, ¬ node.IsFunction name := by
    rw [formed.callsItself_iff]
    exact ⟨fun none node calls named => none ⟨node, calls, named⟩,
      fun none ⟨node, calls, named⟩ => none node calls named⟩
  refine ⟨fun node => formed.mem_transitiveCallers_one,
    fun node calls => formed.mem_transitiveCallers_none calls, ?agree, ?cover⟩
  case agree =>
    rw [apart]
    constructor
    · exact fun agree node calls => (formed.mem_transitiveCallers_one.1 ((agree node).2 calls)).2
    · exact fun none node => formed.mem_transitiveCallers_one.trans
        (and_iff_left_of_imp (none node))
  case cover =>
    rw [apart]
    constructor
    · exact fun cover node calls => (formed.mem_transitiveCallers_none calls).1 (cover calls)
    · exact fun none node calls => (formed.mem_transitiveCallers_none calls).2 (none node calls)

/-- The outer one of two callers is found either way. -/
theorem direct_callers_outerCaller : outerCaller.Reached ∧
    functionAt "g" 3 ∈ outerCaller.findCallers "f" ∧
    functionAt "g" 3 ∈ outerCaller.transitiveCallers "f" (some 1) ∧
    functionAt "g" 3 ∈ outerCaller.transitiveCallers "f" none := by
  have formed := reached_outerCaller.wellFormed
  have arcs : outerCaller.arcs =
      #[⟨1, 1, ⟨"call:f->f", .call, 1, 1, {}⟩⟩, ⟨0, 1, ⟨"call:g->f", .call, 0, 1, {}⟩⟩] := by
    simp [outerCaller, Operation.apply, withEdge, addEdge, addArc, Graph.addNode, empty, stamped,
      functionAt, edgeId, EdgeKind.name]
  have held : outerCaller.nodes[0]? = some (functionAt "g" 3) := by
    rw [nodes_outerCaller]
    rfl
  have held' : outerCaller.nodes[1]? = some (functionAt "f" 1) := by
    rw [nodes_outerCaller]
    rfl
  have calls : functionAt "g" 3 ∈ outerCaller.findCallers "f" := by
    obtain ⟨tag, has⟩ := formed.hasEdge_of_mem (mem_edges.2 ⟨1, _, by rw [arcs]; rfl, rfl⟩)
    exact (formed.mem_findCallers_iff held).2
      (callsNamed_one.2 ⟨1, (mem_functionsNamed held').2 ⟨rfl, rfl⟩, tag, has⟩)
  have apart : ¬ (functionAt "g" 3).IsFunction "f" := by
    rintro ⟨-, named⟩
    exact absurd named (by decide)
  obtain ⟨one, none, -⟩ := reached_outerCaller.direct_callers "f"
  exact ⟨reached_outerCaller, calls, (one _).2 ⟨calls, apart⟩, (none _ calls).2 apart⟩

/-- A function that calls itself is found at once, and never by the other search. -/
theorem selfCaller_left_out : selfCaller.Reached ∧
    functionAt "f" 1 ∈ selfCaller.findCallers "f" ∧
    functionAt "f" 1 ∉ selfCaller.transitiveCallers "f" (some 1) ∧
    functionAt "f" 1 ∉ selfCaller.transitiveCallers "f" none := by
  have formed := reached_selfCaller.wellFormed
  have arcs : selfCaller.arcs = #[⟨0, 0, ⟨"call:f->f", .call, 0, 0, {}⟩⟩] := by
    simp [selfCaller, Operation.apply, withEdge, addEdge, addArc, Graph.addNode, empty, stamped,
      functionAt, edgeId, EdgeKind.name]
  have held : selfCaller.nodes[0]? = some (functionAt "f" 1) := by
    rw [nodes_selfCaller]
    rfl
  have named : (functionAt "f" 1).IsFunction "f" := ⟨rfl, rfl⟩
  obtain ⟨tag, has⟩ := formed.hasEdge_of_mem (mem_edges.2 ⟨0, _, by rw [arcs]; rfl, rfl⟩)
  refine ⟨reached_selfCaller, ?_, fun inside => formed.not_isFunction_of_mem inside named,
    fun inside => formed.not_isFunction_of_mem inside named⟩
  exact (formed.mem_findCallers_iff held).2
    (callsNamed_one.2 ⟨0, (mem_functionsNamed held).2 named, tag, has⟩)

end Graph

end CodeGraph

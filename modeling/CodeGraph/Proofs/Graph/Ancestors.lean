import Mathlib.Data.Finset.Card
import Mathlib.Logic.Function.Iterate
import CodeGraph.Proofs.Graph.Absorb
import CodeGraph.Proofs.Graph.Parent

/-!
# Ancestors

From a node the containment edges lead to its container, from there to the container of that, and so on:
these are the ancestors of the node (`Graph.Ancestor`). Where containment edges lead around in a circle,
there is no end to them. A climb looks at no more of them than the graph has nodes. That is enough, since
behind as many ancestors as there are nodes one of them has come again, and from there on they are the
same as before: the nearest function around a node is the first function among its ancestors
(`Graph.Reached.enclosingFunction?_exact`). It is no more than enough (`Graph.enclosingFunction?_circle`).
-/

namespace CodeGraph

namespace Graph

/-- `graph.LastContains container node`: of the containment edges into a node, the one that was added
last comes from `container`. -/
def LastContains (graph : Graph) (container node : Nat) : Prop :=
  ∃ front arc back, graph.arcs.toList = front ++ arc :: back ∧
    arc.edge.kind = .child ∧ arc.source = container ∧ arc.target = node ∧
    ∀ other ∈ back, other.edge.kind = .child → other.target ≠ node

/-- `graph.Ancestor node steps high`: so many steps from a node on, each of them from a node to its
container, lead to `high`. -/
inductive Ancestor (graph : Graph) (node : Nat) : Nat → Nat → Prop
  | self : Ancestor graph node 0 node
  | up {steps low high : Nat} : Ancestor graph node steps low → graph.LastContains high low →
      Ancestor graph node (steps + 1) high

/-- One step up, from where there is something to go up from. -/
def above (graph : Graph) (below : Option Nat) : Option Nat := below.bind graph.parent?

/-- The first function that going up again and again leads to, beginning with `start` itself. -/
def FirstFunction (graph : Graph) (start : Option Nat) (steps found : Nat) : Prop :=
  graph.above^[steps] start = some found ∧ graph.hasKind found .func = true ∧
    ∀ fewer < steps, ∀ high, graph.above^[fewer] start = some high →
      graph.hasKind high .func = false

variable {graph : Graph}

/-! ## Going up -/

/-- The parent of a node is what contains it by the last edge. -/
theorem WellFormed.parent?_eq_some_iff (formed : graph.WellFormed) {container node : Nat} :
    graph.parent? node = some container ↔ graph.LastContains container node := by
  have last : ∀ arc, (graph.arcs.toList.filter fun arc =>
        arc.edge.kind == .child && arc.target == node).getLast? = some arc ↔
      ∃ front back, graph.arcs.toList = front ++ arc :: back ∧
        (arc.edge.kind = .child ∧ arc.target = node) ∧
        ∀ other ∈ back, other.edge.kind = .child → other.target ≠ node := by
    intro arc
    rw [List.getLast?_eq_head?_reverse, ← List.filter_reverse, List.head?_filter,
      List.find?_eq_some_iff_append]
    constructor
    · rintro ⟨fits, back, front, same, apart⟩
      refine ⟨front.reverse, back.reverse, ?_, by simpa using fits, fun other inside kind => ?_⟩
      · rw [← List.reverse_reverse graph.arcs.toList, same]
        simp
      · simpa [kind] using apart other (List.mem_reverse.1 inside)
    · rintro ⟨front, back, same, fits, apart⟩
      refine ⟨by simpa using fits, back.reverse, front.reverse, by simp [same], fun other inside => ?_⟩
      simpa [imp_iff_not_or] using apart other (List.mem_reverse.1 inside)
  constructor
  · intro above
    have there : node < graph.nodes.size := by
      obtain ⟨tag, edge, -, -, -, -, from_, to_, -, right, -⟩ := formed.hasEdge_parent? above
      exact (Array.getElem?_eq_some_iff.1 right).1
    rw [graph.parent?_eq there] at above
    obtain ⟨arc, found, rfl⟩ := Option.map_eq_some_iff.1 above
    obtain ⟨front, back, same, ⟨kind, into⟩, apart⟩ := (last arc).1 found
    obtain ⟨place, held⟩ := List.getElem?_of_mem (show arc ∈ graph.arcs.toList by simp [same])
    exact ⟨front, arc, back, same, kind, (formed.ends place arc (by simpa using held)).1.symm, into,
      apart⟩
  · rintro ⟨front, arc, back, same, kind, rfl, rfl, apart⟩
    obtain ⟨place, held⟩ := List.getElem?_of_mem (show arc ∈ graph.arcs.toList by simp [same])
    rw [Array.getElem?_toList] at held
    obtain ⟨-, to_, -, -, right, -⟩ := formed.named place arc held
    rw [graph.parent?_eq (Array.getElem?_eq_some_iff.1 right).1,
      (last arc).2 ⟨front, back, same, ⟨kind, rfl⟩, apart⟩, Option.map_some,
      (formed.ends place arc held).1]

/-- The ancestors of a node are what going up from it leads to. -/
theorem WellFormed.ancestor_iff (formed : graph.WellFormed) {node steps high : Nat} :
    graph.Ancestor node steps high ↔ graph.above^[steps] (some node) = some high := by
  induction steps generalizing high with
  | zero =>
    constructor
    · rintro ⟨⟩
      rfl
    · intro same
      obtain rfl := Option.some.inj same
      exact .self
  | succ steps ih =>
    rw [Function.iterate_succ_apply', above, Option.bind_eq_some_iff]
    constructor
    · rintro (_ | ⟨below, contains⟩)
      exact ⟨_, ih.1 below, formed.parent?_eq_some_iff.2 contains⟩
    · rintro ⟨low, below, contains⟩
      exact .up (ih.2 below) (formed.parent?_eq_some_iff.1 contains)

/-- Where there is nothing to go up from, there is nothing above. -/
theorem above_iterate_none (steps : Nat) : graph.above^[steps] none = none :=
  Function.iterate_fixed rfl steps

/-- Going up leads to nodes of the graph. -/
theorem WellFormed.above_lt (formed : graph.WellFormed) {node steps high : Nat}
    (climbed : graph.above^[steps] (graph.parent? node) = some high) : high < graph.nodes.size := by
  cases steps with
  | zero => exact formed.parent?_lt climbed
  | succ steps =>
    rw [Function.iterate_succ_apply', above, Option.bind_eq_some_iff] at climbed
    obtain ⟨low, -, contains⟩ := climbed
    exact formed.parent?_lt contains

/-! ## The climb -/

/-- What a climb of so many steps finds is the first function, if fewer steps lead to it. -/
theorem climb_eq_some_iff {bound found : Nat} {start : Option Nat} :
    graph.climb graph.parents bound start = some found ↔
      ∃ steps < bound, graph.FirstFunction start steps found := by
  induction bound generalizing start with
  | zero => simp [climb]
  | succ bound ih =>
    cases start with
    | none => simp [climb, FirstFunction, above_iterate_none]
    | some handle =>
      have onward : graph.above (some handle) = graph.parents[handle]?.join := rfl
      unfold climb
      split
      · next func =>
        constructor
        · intro same
          obtain rfl := Option.some.inj same
          exact ⟨0, Nat.succ_pos bound, rfl, func, fun fewer less => absurd less (Nat.not_lt_zero _)⟩
        · rintro ⟨steps, -, climbed, -, before⟩
          cases steps with
          | zero => exact climbed
          | succ steps => exact absurd func (by simp [before 0 (Nat.succ_pos steps) handle rfl])
      · next other =>
        rw [ih, ← onward]
        constructor
        · rintro ⟨steps, less, climbed, func, before⟩
          refine ⟨steps + 1, Nat.succ_lt_succ less, climbed, func, fun fewer less' high reached => ?_⟩
          cases fewer with
          | zero =>
            obtain rfl := Option.some.inj reached
            simpa using other
          | succ fewer => exact before fewer (Nat.lt_of_succ_lt_succ less') high reached
        · rintro ⟨steps, less, climbed, func, before⟩
          cases steps with
          | zero =>
            obtain rfl := Option.some.inj climbed
            exact absurd func other
          | succ steps =>
            exact ⟨steps, Nat.lt_of_succ_lt_succ less, climbed, func,
              fun fewer less' high reached => before (fewer + 1) (Nat.succ_lt_succ less') high reached⟩

/-- Fewer steps than there are nodes lead to the first function. -/
theorem WellFormed.firstFunction_lt (formed : graph.WellFormed) {node steps found : Nat}
    (first : graph.FirstFunction (graph.parent? node) steps found) : steps < graph.nodes.size := by
  obtain ⟨climbed, func, before⟩ := first
  by_contra far
  -- All the ancestors up to the function are nodes, so one of the first of them comes twice.
  have each : ∀ fewer ≤ steps, ∃ high, graph.above^[fewer] (graph.parent? node) = some high := by
    intro fewer le
    refine Option.ne_none_iff_exists'.1 fun none => ?_
    rw [← Nat.sub_add_cancel le, Function.iterate_add_apply, none, above_iterate_none] at climbed
    cases climbed
  have nodes : ∀ fewer ∈ Finset.range (graph.nodes.size + 1),
      (graph.above^[fewer] (graph.parent? node)).getD 0 ∈ Finset.range graph.nodes.size := by
    intro fewer inside
    rw [Finset.mem_range] at inside ⊢
    obtain ⟨high, reached⟩ := each fewer (by omega)
    rw [reached]
    exact formed.above_lt reached
  obtain ⟨i, low, j, high, apart, same⟩ :=
    Finset.exists_ne_map_eq_of_card_lt_of_maps_to (by simp) nodes
  -- From its second coming on the ancestors repeat, so the function was met before.
  have early : ∀ i j : Nat, i < j → j ≤ steps →
      (graph.above^[i] (graph.parent? node)).getD 0 = (graph.above^[j] (graph.parent? node)).getD 0 →
      False := by
    intro i j less le same
    obtain ⟨one, reached⟩ := each i (by omega)
    obtain ⟨other, reached'⟩ := each j le
    rw [reached, reached'] at same
    obtain rfl : one = other := same
    have again : graph.above^[steps - j + i] (graph.parent? node) = some found := by
      rw [Function.iterate_add_apply, reached, ← reached', ← Function.iterate_add_apply,
        Nat.sub_add_cancel le, climbed]
    exact absurd func (by simp [before (steps - j + i) (by omega) found again])
  rw [Finset.mem_range] at low high
  rcases Nat.lt_or_gt_of_ne apart with less | less
  · exact early i j less (by omega) same
  · exact early j i less (by omega) same.symm

/-- A climb of at least as many steps as there are nodes finds the first function, however far up it
is. -/
theorem WellFormed.climb_enough (formed : graph.WellFormed) {bound node found : Nat}
    (enough : graph.nodes.size ≤ bound) :
    graph.climb graph.parents bound (graph.parent? node) = some found ↔
      ∃ steps, graph.FirstFunction (graph.parent? node) steps found := by
  rw [climb_eq_some_iff]
  constructor
  · rintro ⟨steps, -, first⟩
    exact ⟨steps, first⟩
  · rintro ⟨steps, first⟩
    exact ⟨steps, Nat.lt_of_lt_of_le (formed.firstFunction_lt first) enough, first⟩

/-- If going up leads to a function, it leads to a first one. -/
theorem exists_firstFunction {start : Option Nat} {steps high : Nat}
    (climbed : graph.above^[steps] start = some high) (func : graph.hasKind high .func = true) :
    ∃ fewer found, graph.FirstFunction start fewer found := by
  induction steps using Nat.strongRecOn generalizing high with
  | ind steps ih =>
    by_cases before : ∃ fewer < steps, ∃ low, graph.above^[fewer] start = some low ∧
        graph.hasKind low .func = true
    · obtain ⟨fewer, less, low, reached, func'⟩ := before
      exact ih fewer less reached func'
    · refine ⟨steps, high, climbed, func, fun fewer less low reached => ?_⟩
      by_contra yes
      exact before ⟨fewer, less, low, reached, by simpa using yes⟩

/-- The nearest function around a node is the first function among its ancestors, and there is none
just if none of its ancestors is a function, even where there is no end to them. More steps than there
are nodes find no more. -/
theorem Reached.enclosingFunction?_exact (reached : graph.Reached) (node : Nat) :
    (∀ found, graph.enclosingFunction? node = some found ↔
      ∃ steps, graph.Ancestor node (steps + 1) found ∧ graph.hasKind found .func = true ∧
        ∀ fewer < steps, ∀ high, graph.Ancestor node (fewer + 1) high →
          graph.hasKind high .func = false) ∧
      (graph.enclosingFunction? node = none ↔
        ∀ steps high, graph.Ancestor node (steps + 1) high → graph.hasKind high .func = false) ∧
      ∀ bound, graph.nodes.size ≤ bound →
        graph.climb graph.parents bound (graph.parent? node) = graph.enclosingFunction? node := by
  have formed := reached.wellFormed
  have enough : ∀ bound, graph.nodes.size ≤ bound → ∀ found,
      graph.climb graph.parents bound (graph.parent? node) = some found ↔
        ∃ steps, graph.FirstFunction (graph.parent? node) steps found :=
    fun bound le found => formed.climb_enough le
  have around : ∀ found, graph.enclosingFunction? node = some found ↔
      ∃ steps, graph.FirstFunction (graph.parent? node) steps found :=
    enough graph.nodes.size (Nat.le_refl _)
  refine ⟨fun found => ?first, ?none, fun bound le => ?more⟩
  case first =>
    rw [around]
    simp only [formed.ancestor_iff, Function.iterate_succ_apply]
    rfl
  case none =>
    simp only [formed.ancestor_iff, Function.iterate_succ_apply]
    rw [Option.eq_none_iff_forall_ne_some]
    constructor
    · intro none steps high climbed
      by_contra yes
      obtain ⟨fewer, found, first⟩ := exists_firstFunction climbed (by simpa using yes)
      exact none found ((around found).2 ⟨fewer, first⟩)
    · intro none found same
      obtain ⟨steps, climbed, func, -⟩ := (around found).1 same
      exact absurd func (by simp [none steps found climbed])
  case more =>
    refine Option.ext fun found => ?_
    rw [enough bound le, around]

/-- Three nodes that contain one another in a circle, the first of them a function. An edge that came
before put the function into the third node. -/
def circle : Graph :=
  let graph := Operation.apply (empty.stamped .epoch) (.addNode (functionAt "f" 1))
  let graph := Operation.apply graph (.addNode ⟨"a", .cls, none, ⟨⟨"a.ts"⟩, 2, 1⟩, {}⟩)
  let graph := Operation.apply graph (.addNode ⟨"b", .cls, none, ⟨⟨"a.ts"⟩, 3, 1⟩, {}⟩)
  let graph := Operation.apply graph (.addEdge 2 0 .child none {})
  let graph := Operation.apply graph (.addEdge 1 0 .child none {})
  let graph := Operation.apply graph (.addEdge 2 1 .child none {})
  Operation.apply graph (.addEdge 0 2 .child none {})

theorem reached_circle : circle.Reached := by
  unfold circle
  refine .step _ (.step _ (.step _ (.step _ (.step _ (.step _ (.step _ (.start .epoch) ?_) ?_) ?_) ?_)
    ?_) ?_) ?_ <;>
  · intro other same
    cases same

theorem kinds_circle : circle.nodes.map Node.kind = #[.func, .cls, .cls] := by
  simp [circle, Operation.apply, nodes_withEdge, Graph.addNode, empty, stamped, functionAt]

theorem size_circle : circle.nodes.size = 3 := by
  simpa using congrArg Array.size kinds_circle

theorem parents_circle : circle.parents = #[some 1, some 2, some 0] := by
  have arcs : circle.arcs =
      #[⟨2, 0, ⟨"ast_child:b->f", .child, 2, 0, {}⟩⟩, ⟨1, 0, ⟨"ast_child:a->f", .child, 1, 0, {}⟩⟩,
        ⟨2, 1, ⟨"ast_child:b->a", .child, 2, 1, {}⟩⟩, ⟨0, 2, ⟨"ast_child:f->b", .child, 0, 2, {}⟩⟩] := by
    simp [circle, Operation.apply, withEdge, addEdge, addArc, Graph.addNode, empty, stamped,
      functionAt, edgeId, EdgeKind.name]
  rw [parents, arcs, size_circle]
  rfl

/-- In a circle the function is around itself, as far up as there are nodes, and a climb of one step
less would not find it. -/
theorem enclosingFunction?_circle : circle.Reached ∧ circle.enclosingFunction? 0 = some 0 ∧
    circle.climb circle.parents (circle.nodes.size - 1) (circle.parent? 0) = none := by
  have formed := reached_circle.wellFormed
  have kinds : ∀ handle, circle.hasKind handle .func =
      (#[NodeKind.func, .cls, .cls][handle]? == some .func) := by
    intro handle
    rw [hasKind, ← Array.getElem?_map, kinds_circle]
  have up : circle.parent? 0 = some 1 ∧ circle.parent? 1 = some 2 ∧ circle.parent? 2 = some 0 := by
    simp [parent?, parents_circle]
  obtain ⟨first, second, third⟩ := up
  refine ⟨reached_circle, ?_, ?_⟩
  · refine ((reached_circle.enclosingFunction?_exact 0).1 0).2 ⟨2, ?_, by simp [kinds], ?_⟩
    · simp [formed.ancestor_iff, above, first, second, third]
    · intro fewer less high reached
      rw [formed.ancestor_iff] at reached
      obtain rfl | rfl : fewer = 0 ∨ fewer = 1 := by omega
      · obtain rfl : 1 = high := by simpa [above, first] using reached
        simp [kinds]
      · obtain rfl : 2 = high := by simpa [above, first, second] using reached
        simp [kinds]
  · simp [size_circle, climb, kinds, first, parents_circle]

end Graph

end CodeGraph

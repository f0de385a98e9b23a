import Mathlib.Data.List.Nodup
import CodeGraph.Graph.Search
import CodeGraph.Proofs.Graph.EdgeId

/-!
# Callers by name

The callers of a function are the nodes from which a call edge leads to it (`Graph.mem_callersOf`), and
those that are found by a name are the callers of the functions of that name, each once
(`Graph.WellFormed.mem_findCallers`, `Graph.WellFormed.nodup_findCallers`).
-/

namespace CodeGraph

/-- A list without repetitions has none. -/
theorem nodup_eraseDups {α : Type} [BEq α] [LawfulBEq α] (list : List α) : list.eraseDups.Nodup := by
  induction size : list.length using Nat.strongRecOn generalizing list with
  | ind size ih =>
    subst size
    cases list with
    | nil => exact List.nodup_nil
    | cons head rest =>
      rw [List.eraseDups_cons, List.nodup_cons]
      refine ⟨fun inside => ?_, ih _ ?_ _ rfl⟩
      · simp at inside
      · exact Nat.lt_succ_of_le (List.length_filter_le _ _)

namespace Graph

variable {graph : Graph}

/-- The edges of the arcs that are chosen. -/
theorem mem_foldl_arcs (chosen : Arc → Prop) [DecidablePred chosen] (arcs : Array Arc) {edge : Edge} :
    edge ∈ arcs.foldl (fun found arc => if chosen arc then arc.edge :: found else found) [] ↔
      ∃ (place : Nat) (arc : Arc), arcs[place]? = some arc ∧ chosen arc ∧ arc.edge = edge := by
  have each : ∀ (arcs : List Arc) (found : List Edge),
      edge ∈ arcs.foldl (fun found arc => if chosen arc then arc.edge :: found else found) found ↔
        edge ∈ found ∨ ∃ arc ∈ arcs, chosen arc ∧ arc.edge = edge := by
    intro arcs
    induction arcs with
    | nil => simp
    | cons arc rest ih =>
      intro found
      rw [List.foldl_cons, ih, List.exists_mem_cons_iff, ← or_assoc]
      refine or_congr ?_ Iff.rfl
      split
      · next here => simp [here, or_comm, eq_comm]
      · next elsewhere => simp [elsewhere]
  rw [← Array.foldl_toList, each]
  simp only [List.not_mem_nil, false_or, Array.mem_toList_iff, Array.mem_iff_getElem?]
  constructor
  · rintro ⟨arc, ⟨place, held⟩, rest⟩
    exact ⟨place, arc, held, rest⟩
  · rintro ⟨place, arc, held, rest⟩
    exact ⟨arc, ⟨place, held⟩, rest⟩

theorem mem_edgesTo {handle : Nat} {edge : Edge} :
    edge ∈ graph.edgesTo handle ↔ ∃ (place : Nat) (arc : Arc), graph.arcs[place]? = some arc ∧
      arc.target = handle ∧ arc.edge = edge :=
  mem_foldl_arcs (fun arc => arc.target = handle) graph.arcs

theorem mem_edgesFrom {handle : Nat} {edge : Edge} :
    edge ∈ graph.edgesFrom handle ↔ ∃ (place : Nat) (arc : Arc), graph.arcs[place]? = some arc ∧
      arc.source = handle ∧ arc.edge = edge :=
  mem_foldl_arcs (fun arc => arc.source = handle) graph.arcs

namespace WellFormed

variable (formed : graph.WellFormed)
include formed

/-- The callers of a function are the nodes from which a call edge leads to it. -/
theorem mem_callersOf {caller handle : Nat} :
    caller ∈ graph.callersOf handle ↔ ∃ tag, graph.HasEdge .call caller handle tag := by
  simp only [callersOf, List.mem_map, List.mem_filter, mem_edgesTo, beq_iff_eq]
  constructor
  · rintro ⟨edge, ⟨⟨place, arc, held, rfl, rfl⟩, kind⟩, rfl⟩
    obtain ⟨tag, has⟩ := formed.hasEdge_of_mem (mem_edges.2 ⟨place, arc, held, rfl⟩)
    rw [kind, (formed.ends place arc held).2] at has
    exact ⟨tag, has⟩
  · rintro ⟨tag, edge, inside, kind, source, target, -⟩
    obtain ⟨place, arc, held, rfl⟩ := mem_edges.1 inside
    exact ⟨arc.edge, ⟨⟨place, arc, held, (formed.ends place arc held).2.symm.trans target, rfl⟩, kind⟩,
      source⟩

/-- The callers that are found by a name are those of the functions of that name. -/
theorem mem_findCallers {name : String} {node : Node} :
    node ∈ graph.findCallers name ↔ ∃ caller : Nat, graph.nodes[caller]? = some node ∧
      ∃ handle function tag, graph.nodes[handle]? = some function ∧ function.kind = .func ∧
        function.name = some name ∧ graph.HasEdge .call caller handle tag := by
  simp only [findCallers, List.mem_filterMap, List.mem_eraseDups, List.mem_flatMap,
    formed.mem_callersOf, functionsNamed, nodesOfKind, List.mem_filter, List.mem_range, beq_iff_eq,
    Option.bind_eq_some_iff, Option.map_eq_some_iff]
  constructor
  · rintro ⟨caller, ⟨handle, ⟨⟨-, function, held, kind⟩, other, held', name⟩, tag, has⟩, found⟩
    obtain rfl := Option.some.inj (held.symm.trans held')
    exact ⟨caller, found, handle, function, tag, held, kind, name, has⟩
  · rintro ⟨caller, found, handle, function, tag, held, kind, name, has⟩
    exact ⟨caller, ⟨handle, ⟨⟨(Array.getElem?_eq_some_iff.1 held).1, function, held, kind⟩,
      function, held, name⟩, tag, has⟩, found⟩

/-- No caller is found twice. -/
theorem nodup_findCallers (name : String) : (graph.findCallers name).Nodup := by
  refine List.Nodup.filterMap (fun first second node left right => ?_) (nodup_eraseDups _)
  exact formed.handle_unique left right rfl

end WellFormed

end Graph

end CodeGraph

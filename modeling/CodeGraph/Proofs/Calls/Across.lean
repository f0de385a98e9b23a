import CodeGraph.Proofs.Calls.Tables
import CodeGraph.Proofs.Facts.FileNodes
import CodeGraph.Proofs.Graph.Union

/-!
# What linking adds

Linking resolves exactly the calls that aim at something (`Graph.Linked`), in the order of their ids
(`Graph.WellFormed.sorted_linkedCalls`). Where edges can be told apart, every connection of a linked call
becomes an edge of its own unless the graph has that edge already
(`Graph.WellFormed.hasEdge_linkAcrossFiles`); it is marked as resolved, and other nodes stay as they are.
-/

namespace CodeGraph

namespace Graph

/-! ## The calls that linking resolves -/

/-- What linking makes of an unresolved call. -/
def linkedCall? (graph : Graph) (handle : Nat) : Option LinkedCall :=
  match graph.nodes[handle]? with
  | none => none
  | some node =>
    match (graph.linkTables graph.parents).targets node with
    | [] => none
    | found =>
      some
        { node := handle
          edges := found.flatMap fun target =>
            (graph.callSite graph.parents handle node).edges graph.nameOf
              ((graph.linkTables graph.parents).target target) }

/-- The unresolved calls with their ids, in the order of the ids. -/
def pendingCalls (graph : Graph) : List (String × Nat) :=
  (graph.linkTables graph.parents).pending.mergeSort fun a b =>
    a.1 < b.1 || (a.1 == b.1 && a.2 ≤ b.2)

theorem linkedCalls_eq (graph : Graph) :
    graph.linkedCalls = graph.pendingCalls.filterMap fun entry => graph.linkedCall? entry.2 := rfl

theorem mem_pendingCalls {graph : Graph} {entry : String × Nat} :
    entry ∈ graph.pendingCalls ↔ ∃ node, graph.Pending entry.2 node ∧ node.id = entry.1 := by
  rw [pendingCalls, (List.mergeSort_perm _ _).mem_iff]
  exact graph.mem_pending entry.1 entry.2

variable {graph : Graph}

/-- A call that linking resolves aims at something, and has the connections to what it aims at. -/
theorem linkedCall?_eq_some {handle : Nat} {linked : LinkedCall}
    (found : graph.linkedCall? handle = some linked) : linked.node = handle ∧
      ∃ node, graph.nodes[handle]? = some node ∧ (∃ target, graph.Aims node target) ∧
        ∀ connection, connection ∈ linked.edges ↔
          ∃ target, graph.Aims node target ∧ graph.Links handle node target connection := by
  unfold linkedCall? at found
  split at found
  · cases found
  · next node held =>
    split at found
    · cases found
    · next nonempty =>
      obtain rfl := Option.some.inj found
      refine ⟨rfl, node, held, ?_, fun connection => ?_⟩
      · obtain ⟨target, there⟩ := List.exists_mem_of_ne_nil _ nonempty
        exact ⟨target, (graph.mem_targets node target).1 there⟩
      · simp only [List.mem_flatMap, mem_targets, mem_edges_callSite]

theorem linkedCall?_of_aims {handle target : Nat} {node : Node}
    (held : graph.nodes[handle]? = some node) (aims : graph.Aims node target) :
    ∃ linked, graph.linkedCall? handle = some linked := by
  have there := (graph.mem_targets node target).2 aims
  unfold linkedCall?
  rw [held]
  simp only
  split
  · next none =>
    rw [none] at there
    cases there
  · exact ⟨_, rfl⟩

/-- Linking resolves the calls that aim at something. -/
theorem mem_linkedCalls_node (handle : Nat) :
    handle ∈ graph.linkedCalls.map LinkedCall.node ↔ ∃ node, graph.Linked handle node := by
  simp only [linkedCalls_eq, List.mem_map, List.mem_filterMap, mem_pendingCalls]
  constructor
  · rintro ⟨linked, ⟨⟨id, place⟩, ⟨node, pending, -⟩, found⟩, rfl⟩
    obtain ⟨rfl, other, held, aims, -⟩ := linkedCall?_eq_some found
    obtain rfl := Option.some.inj (pending.1.symm.trans held)
    exact ⟨node, pending, aims⟩
  · rintro ⟨node, pending, target, aims⟩
    obtain ⟨linked, found⟩ := linkedCall?_of_aims pending.1 aims
    exact ⟨linked, ⟨(node.id, handle), ⟨node, pending, rfl⟩, found⟩, (linkedCall?_eq_some found).1⟩

/-- A resolved call has the connections to what it aims at, and no others. -/
theorem edges_of_mem_linkedCalls {linked : LinkedCall} (inside : linked ∈ graph.linkedCalls) :
    ∃ node, graph.Linked linked.node node ∧ ∀ connection, connection ∈ linked.edges ↔
      ∃ target, graph.Aims node target ∧ graph.Links linked.node node target connection := by
  rw [linkedCalls_eq, List.mem_filterMap] at inside
  obtain ⟨⟨id, place⟩, listed, found⟩ := inside
  obtain ⟨node, pending, -⟩ := mem_pendingCalls.1 listed
  obtain ⟨rfl, other, held, aims, edges⟩ := linkedCall?_eq_some found
  obtain rfl := Option.some.inj (pending.1.symm.trans held)
  exact ⟨node, ⟨pending, aims⟩, edges⟩

/-- The connections that linking asks for are those between linked calls and what they aim at. -/
theorem mem_connections_linkedCalls (connection : Connection) :
    connection ∈ graph.linkedCalls.flatMap LinkedCall.edges ↔
      ∃ handle call target, graph.Pending handle call ∧ graph.Aims call target ∧
        graph.Links handle call target connection := by
  rw [List.mem_flatMap]
  constructor
  · rintro ⟨linked, inside, there⟩
    obtain ⟨node, ⟨pending, -⟩, edges⟩ := edges_of_mem_linkedCalls inside
    obtain ⟨target, aims, links⟩ := (edges connection).1 there
    exact ⟨linked.node, node, target, pending, aims, links⟩
  · rintro ⟨handle, call, target, pending, aims, links⟩
    obtain ⟨linked, inside, rfl⟩ :=
      List.mem_map.1 ((mem_linkedCalls_node handle).2 ⟨call, pending, target, aims⟩)
    obtain ⟨node, ⟨pending', -⟩, edges⟩ := edges_of_mem_linkedCalls inside
    obtain rfl := Option.some.inj (pending.1.symm.trans pending'.1)
    exact ⟨linked, inside, (edges connection).2 ⟨target, aims, links⟩⟩

/-- Linking does nothing if no unresolved call aims at anything. -/
theorem linkAcrossFiles_eq_self : graph.linkAcrossFiles = (graph, 0) ↔
    ¬ ∃ handle node, graph.Linked handle node := by
  have none : graph.linkedCalls = [] ↔ ¬ ∃ handle node, graph.Linked handle node := by
    rw [List.eq_nil_iff_forall_not_mem]
    constructor
    · rintro none ⟨handle, linked⟩
      obtain ⟨call, inside, -⟩ := List.mem_map.1 ((mem_linkedCalls_node handle).2 linked)
      exact none call inside
    · exact fun none call inside =>
        none ⟨call.node, (mem_linkedCalls_node call.node).1 (List.mem_map_of_mem inside)⟩
  rw [← none]
  constructor
  · exact fun same => List.length_eq_zero_iff.1 (congrArg Prod.snd same)
  · intro same
    unfold linkAcrossFiles
    rw [same]
    rfl

/-- Pending calls come in the order of their ids. -/
theorem WellFormed.sorted_pendingCalls (formed : graph.WellFormed) :
    graph.pendingCalls.Pairwise fun a b => a.1 < b.1 := by
  have unique : graph.pendingCalls.Pairwise fun a b => a.1 ≠ b.1 := by
    refine ((List.mergeSort_perm _ _).pairwise_iff fun apart => apart.symm).2 ?_
    rw [pending_linkTables, List.pairwise_reverse, List.pairwise_map]
    have distinct : graph.nodes.zipIdx.toList.Pairwise fun a b => a.1.id ≠ b.1.id := by
      have ids := formed.nodup_nodeIds
      rw [nodeIds, ← List.zipIdx_map_fst 0 graph.nodes.toList, List.map_map] at ids
      simpa using List.pairwise_map.1 ids
    exact (distinct.filter _).imp fun apart same => apart same.symm
  have ordered : graph.pendingCalls.Pairwise fun a b =>
      (decide (a.1 < b.1) || (a.1 == b.1 && decide (a.2 ≤ b.2))) = true := by
    refine List.pairwise_mergeSort (fun a b c first second => ?_) (fun a b => ?_) _
    · simp only [Bool.or_eq_true, Bool.and_eq_true, decide_eq_true_eq, beq_iff_eq] at *
      rcases first with first | ⟨same, first⟩ <;> rcases second with second | ⟨same', second⟩
      · exact .inl (lt_trans first second)
      · exact .inl (same' ▸ first)
      · exact .inl (same ▸ second)
      · exact .inr ⟨same.trans same', Nat.le_trans first second⟩
    · simp only [Bool.or_eq_true, Bool.and_eq_true, decide_eq_true_eq, beq_iff_eq]
      rcases lt_trichotomy a.1 b.1 with less | same | more
      · exact .inl (.inl less)
      · exact (Nat.le_total a.2 b.2).imp (fun less => .inr ⟨same, less⟩)
          fun less => .inr ⟨same.symm, less⟩
      · exact .inr (.inl more)
  refine (ordered.and unique).imp fun {a b} both => ?_
  simp only [Bool.or_eq_true, Bool.and_eq_true, decide_eq_true_eq, beq_iff_eq] at both
  exact both.1.resolve_right fun same => both.2 same.1

/-- Linked calls come in the order of their ids. -/
theorem WellFormed.sorted_linkedCalls (formed : graph.WellFormed) :
    graph.linkedCalls.Pairwise fun a b => graph.idOf a.node < graph.idOf b.node := by
  rw [linkedCalls_eq, List.pairwise_filterMap]
  refine formed.sorted_pendingCalls.imp_of_mem fun {a b} left right less one found two found' => ?_
  obtain ⟨first, pending, id⟩ := mem_pendingCalls.1 left
  obtain ⟨second, pending', id'⟩ := mem_pendingCalls.1 right
  rw [(linkedCall?_eq_some found).1, (linkedCall?_eq_some found').1, idOf_of_found pending.1,
    idOf_of_found pending'.1, id, id']
  exact less

/-- Each unresolved call is resolved once, whatever the ids of the nodes. -/
theorem nodup_linkedCalls (graph : Graph) : (graph.linkedCalls.map LinkedCall.node).Nodup := by
  have handles : (graph.pendingCalls.map Prod.snd).Nodup := by
    rw [pendingCalls, ((List.mergeSort_perm _ _).map Prod.snd).nodup_iff, pending_linkTables,
      List.map_reverse, (List.reverse_perm _).nodup_iff, List.map_map]
    have all : (graph.nodes.zipIdx.toList.map Prod.snd).Nodup := by
      simp [List.zipIdx_map_snd, List.nodup_range']
    exact (List.filter_sublist.map Prod.snd).nodup all
  rw [linkedCalls_eq, List.map_filterMap]
  refine List.pairwise_filterMap.2 ((List.pairwise_map.1 handles).imp ?_)
  intro one two apart handle found handle' found' same
  obtain ⟨call, first, rfl⟩ := Option.map_eq_some_iff.1 found
  obtain ⟨call', second, rfl⟩ := Option.map_eq_some_iff.1 found'
  rw [(linkedCall?_eq_some first).1, (linkedCall?_eq_some second).1] at same
  exact apart same

/-! ## What becomes of the graph -/

/-- What a call aims at is a function. -/
theorem kind_of_aims {call : Node} {target : Nat} (aims : graph.Aims call target) :
    graph.KindIn target [.func] := by
  have named : ∀ {name : String}, graph.FunctionNamed target name → graph.KindIn target [.func] :=
    fun ⟨node, found, kind, _⟩ => ⟨node, found, List.mem_singleton.2 kind⟩
  obtain ⟨name, -, aimed⟩ := aims
  split at aimed
  · exact named aimed.1
  · split at aimed
    · exact named aimed.1
    · exact named aimed.1

/-- What a climb finds is a function. -/
theorem hasKind_of_climb {parents : Array (Option Nat)} {steps : Nat} {start : Option Nat}
    {found : Nat} (climbed : graph.climb parents steps start = some found) :
    graph.hasKind found .func = true := by
  induction steps generalizing start with
  | zero => cases climbed
  | succ steps ih =>
    cases start with
    | none => cases climbed
    | some handle =>
      unfold climb at climbed
      split at climbed
      · next func => exact Option.some.inj climbed ▸ func
      · exact ih climbed

theorem kind_of_hasKind {handle : Nat} {kind : NodeKind} (has : graph.hasKind handle kind = true) :
    graph.KindIn handle [kind] := by
  obtain ⟨node, found, same⟩ := Option.map_eq_some_iff.1 (beq_iff_eq.1 has)
  exact ⟨node, found, List.mem_singleton.2 same⟩

/-- The functions around calls, the returning sites and the parameters are nodes of the graph. -/
theorem joins_of_links {handle : Nat} {call : Node} {target : Nat} {connection : Connection}
    (held : graph.nodes[handle]? = some call) (aims : graph.Aims call target)
    (links : graph.Links handle call target connection) : graph.Joins connection := by
  have issued : ∀ {handle : Nat} {node : Node}, graph.nodes[handle]? = some node →
      handle < graph.nodes.size := fun found => (Array.getElem?_eq_some_iff.1 found).1
  have aimed := (kind_of_aims aims).lt
  cases links with
  | call around => exact ⟨(kind_of_hasKind (hasKind_of_climb around)).lt, aimed⟩
  | result => exact ⟨aimed, issued held⟩
  | returned _ returns =>
    obtain ⟨node, found, -⟩ := returns
    exact ⟨issued found, issued held⟩
  | argument paramOf =>
    obtain ⟨node, number, found, -⟩ := paramOf
    exact ⟨issued held, issued found⟩

theorem joins_of_mem_linkedCalls {linked : LinkedCall} (inside : linked ∈ graph.linkedCalls) :
    ∀ connection ∈ linked.edges, graph.Joins connection := by
  intro connection asked
  obtain ⟨node, ⟨pending, -⟩, edges⟩ := edges_of_mem_linkedCalls inside
  obtain ⟨target, aims, links⟩ := (edges connection).1 asked
  exact joins_of_links pending.1 aims links

theorem nodes_foldl_addLinked {linked : List LinkedCall}
    (distinct : (linked.map LinkedCall.node).Nodup) (graph : Graph) (handle : Nat) :
    (linked.foldl addLinked graph).nodes[handle]? =
      if handle ∈ linked.map LinkedCall.node then
        graph.nodes[handle]?.map fun node => node.set "resolved" (.flag true)
      else graph.nodes[handle]? := by
  induction linked generalizing graph with
  | nil => simp
  | cons call rest ih =>
    obtain ⟨apart, distinct⟩ := List.nodup_cons.1 distinct
    have step : (addLinked graph call).nodes[handle]? =
        if call.node = handle then
          graph.nodes[handle]?.map fun node => node.set "resolved" (.flag true)
        else graph.nodes[handle]? := by
      rw [addLinked, WellFormed.getElem?_setProperty, nodes_connectAll]
    rw [List.foldl_cons, ih distinct, step, List.map_cons]
    by_cases here : call.node = handle
    · subst here
      rw [if_neg apart, if_pos rfl, if_pos List.mem_cons_self]
    · simp only [if_neg here, List.mem_cons, Ne.symm here, false_or]

/-- Linking marks the calls that it resolves. -/
theorem node_of_linked {handle : Nat} {node : Node} (linked : graph.Linked handle node) :
    graph.linkAcrossFiles.1.nodes[handle]? = some (node.set "resolved" (.flag true)) := by
  have changed := nodes_foldl_addLinked graph.nodup_linkedCalls graph handle
  rw [if_pos ((mem_linkedCalls_node handle).2 ⟨node, linked⟩), linked.1.1] at changed
  exact changed

/-- Linking changes no other nodes. -/
theorem node_of_not_linked {handle : Nat} (unlinked : ¬ ∃ node, graph.Linked handle node) :
    graph.linkAcrossFiles.1.nodes[handle]? = graph.nodes[handle]? := by
  have kept := nodes_foldl_addLinked graph.nodup_linkedCalls graph handle
  rwa [if_neg (mt (mem_linkedCalls_node handle).1 unlinked)] at kept

theorem node_of_linkAcrossFiles {handle : Nat} {node : Node}
    (found : graph.linkAcrossFiles.1.nodes[handle]? = some node) :
    ∃ old, graph.nodes[handle]? = some old ∧
      (graph.Linked handle old ∧ node = old.set "resolved" (.flag true) ∨
        (¬ ∃ other, graph.Linked handle other) ∧ node = old) := by
  by_cases linked : ∃ old, graph.Linked handle old
  · obtain ⟨old, linked⟩ := linked
    rw [node_of_linked linked] at found
    exact ⟨old, linked.1.1, .inl ⟨linked, (Option.some.inj found).symm⟩⟩
  · rw [node_of_not_linked linked] at found
    exact ⟨node, found, .inr ⟨linked, rfl⟩⟩

/-- Adding linked calls adds their connections, and no other edges. -/
theorem WellFormed.hasEdge_foldl_addLinked (formed : graph.WellFormed) (tells : graph.TellsEdges)
    {linked : List LinkedCall}
    (joins : ∀ call ∈ linked, ∀ connection ∈ call.edges, graph.Joins connection) (kind : EdgeKind)
    (source target : Nat) (tag : Option String) :
    (linked.foldl addLinked graph).HasEdge kind source target tag ↔
      graph.HasEdge kind source target tag ∨
        Asked (linked.flatMap LinkedCall.edges) kind source target tag := by
  induction linked generalizing graph with
  | nil => simp [Asked]
  | cons call rest ih =>
    have formed' : (addLinked graph call).WellFormed := (formed.connectAll _).setProperty _ _ _
    have tells' : (addLinked graph call).TellsEdges := (tells.connectAll _).setProperty _ _ _
    have joins' : ∀ other ∈ rest, ∀ connection ∈ other.edges,
        (addLinked graph call).Joins connection := fun other there connection asked =>
      (joins other (List.mem_cons_of_mem _ there) connection asked).of_size (graph.size_addLinked call)
    rw [List.foldl_cons, ih formed' tells' joins', List.flatMap_cons, asked_append, ← or_assoc]
    refine or_congr ?_ Iff.rfl
    rw [addLinked, hasEdge_setProperty,
      formed.hasEdge_connectAll tells (joins call List.mem_cons_self)]
    rfl

/-- Linking adds the connections between the calls that it resolves and what they aim at, and no other
edges. -/
theorem WellFormed.hasEdge_linkAcrossFiles (formed : graph.WellFormed) (tells : graph.TellsEdges)
    (kind : EdgeKind) (source target : Nat) (tag : Option String) :
    graph.linkAcrossFiles.1.HasEdge kind source target tag ↔
      graph.HasEdge kind source target tag ∨
        ∃ handle call goal connection, graph.Pending handle call ∧ graph.Aims call goal ∧
          graph.Links handle call goal connection ∧ connection.kind = kind ∧
          connection.source = source ∧ connection.target = target ∧ connection.tag = tag := by
  have added := formed.hasEdge_foldl_addLinked tells
    (fun _ inside => joins_of_mem_linkedCalls inside) kind source target tag
  refine added.trans (or_congr Iff.rfl ?_)
  constructor
  · rintro ⟨connection, inside, fits⟩
    obtain ⟨handle, call, goal, pending, aims, links⟩ :=
      (mem_connections_linkedCalls connection).1 inside
    exact ⟨handle, call, goal, connection, pending, aims, links, fits⟩
  · rintro ⟨handle, call, goal, connection, pending, aims, links, fits⟩
    exact ⟨connection, (mem_connections_linkedCalls connection).2
      ⟨handle, call, goal, pending, aims, links⟩, fits⟩

theorem metadata_connectAll (graph : Graph) (connections : List Connection) :
    (graph.connectAll connections).files = graph.files ∧
      (graph.connectAll connections).language = graph.language ∧
      (graph.connectAll connections).created = graph.created := by
  induction connections generalizing graph with
  | nil => exact ⟨rfl, rfl, rfl⟩
  | cons connection rest ih =>
    have step : (graph.connect connection).files = graph.files ∧
        (graph.connect connection).language = graph.language ∧
        (graph.connect connection).created = graph.created := by
      unfold connect Graph.withEdge addEdge
      cases graph.nodes[connection.source]? with
      | none => exact ⟨rfl, rfl, rfl⟩
      | some from_ =>
        cases graph.nodes[connection.target]? with
        | none => exact ⟨rfl, rfl, rfl⟩
        | some to_ =>
          simp only [addArc]
          split <;> exact ⟨rfl, rfl, rfl⟩
    obtain ⟨files, language, created⟩ := ih (graph.connect connection)
    exact ⟨files.trans step.1, language.trans step.2.1, created.trans step.2.2⟩

/-- Linking leaves the files, the language and the time of a graph as they are. -/
theorem metadata_linkAcrossFiles (graph : Graph) :
    graph.linkAcrossFiles.1.files = graph.files ∧
      graph.linkAcrossFiles.1.language = graph.language ∧
      graph.linkAcrossFiles.1.created = graph.created := by
  have each : ∀ (linked : List LinkedCall) (graph : Graph),
      (linked.foldl addLinked graph).files = graph.files ∧
        (linked.foldl addLinked graph).language = graph.language ∧
        (linked.foldl addLinked graph).created = graph.created := by
    intro linked
    induction linked with
    | nil => exact fun _ => ⟨rfl, rfl, rfl⟩
    | cons call rest ih =>
      intro graph
      obtain ⟨files, language, created⟩ := ih (addLinked graph call)
      obtain ⟨files', language', created'⟩ := metadata_connectAll graph call.edges
      exact ⟨files.trans files', language.trans language', created.trans created'⟩
  exact each graph.linkedCalls graph

end Graph

end CodeGraph

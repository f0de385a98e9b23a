import CodeGraph.Proofs.Calls.Across
import CodeGraph.Proofs.Graph.Parent

/-!
# Linking again

Linking adds no containment edge, and marks nothing but calls. So whatever linking reads off a graph can
be read off the linked graph just as well (`Graph.readsAlike_linkAcrossFiles`): the parents, the functions
around nodes, functions by their names, parameters and returning sites. Only the unresolved calls become
fewer, by those that aim at something (`Graph.pending_linkAcrossFiles`). Linking a second time finds none
of these, whatever the graph (`Graph.linkAcrossFiles_again`).
-/

namespace CodeGraph

/-- Two nodes that differ in nothing that linking reads, other than whether they are resolved. -/
structure Node.ReadsAlike (node other : Node) : Prop where
  kind : other.kind = node.kind
  name : other.name = node.name
  property : ∀ key, key ≠ "resolved" → other.properties.get? key = node.properties.get? key

namespace Node.ReadsAlike

variable {node other : Node} {key : String}

theorem refl (node : Node) : node.ReadsAlike node := ⟨rfl, rfl, fun _ _ => rfl⟩

theorem symm (alike : node.ReadsAlike other) : other.ReadsAlike node :=
  ⟨alike.kind.symm, alike.name.symm, fun key apart => (alike.property key apart).symm⟩

/-- Marking a node as resolved leaves it alike. -/
theorem marked (node : Node) (value : PropertyValue) : node.ReadsAlike (node.set "resolved" value) :=
  ⟨rfl, rfl, fun _ apart => Properties.get?_insert_of_ne _ _ apart⟩

variable (alike : node.ReadsAlike other)
include alike

theorem isSet (apart : key ≠ "resolved") :
    other.properties.isSet key = node.properties.isSet key := by
  rw [Properties.isSet, alike.property key apart, Properties.isSet]

theorem text? (apart : key ≠ "resolved") :
    other.properties.text? key = node.properties.text? key := by
  rw [Properties.text?, alike.property key apart, Properties.text?]

end Node.ReadsAlike

namespace Graph

/-! ## Graphs that linking reads alike -/

/-- Two graphs with the same parents, the nodes of which differ in nothing that linking reads, other than
whether they are resolved. -/
structure ReadsAlike (graph other : Graph) : Prop where
  parents : other.parents = graph.parents
  nodes : ∀ (handle : Nat) (node : Node), graph.nodes[handle]? = some node →
    ∃ later, other.nodes[handle]? = some later ∧ node.ReadsAlike later

namespace ReadsAlike

variable {graph other : Graph} {handle target : Nat} {name : String} (alike : graph.ReadsAlike other)
include alike

theorem size : other.nodes.size = graph.nodes.size := by
  rw [← size_parents, ← size_parents, alike.parents]

theorem symm : other.ReadsAlike graph := by
  refine ⟨alike.parents.symm, fun handle later held => ?_⟩
  have there : handle < graph.nodes.size := alike.size ▸ (Array.getElem?_eq_some_iff.1 held).1
  obtain ⟨found, held', nodes⟩ := alike.nodes handle _ (Array.getElem?_eq_getElem there)
  obtain rfl := Option.some.inj (held.symm.trans held')
  exact ⟨_, Array.getElem?_eq_getElem there, nodes.symm⟩

theorem parent? (handle : Nat) : other.parent? handle = graph.parent? handle := by
  rw [Graph.parent?, alike.parents, Graph.parent?]

theorem classAbove {owner : Node} (above : graph.ClassAbove handle owner) :
    ∃ later, other.ClassAbove handle later ∧ later.name = owner.name := by
  obtain ⟨parent, inside, held, kind⟩ := above
  obtain ⟨later, held', nodes⟩ := alike.nodes _ _ held
  exact ⟨later, ⟨parent, (alike.parent? handle).trans inside, held', nodes.kind.trans kind⟩, nodes.name⟩

theorem functionNamed (named : graph.FunctionNamed handle name) : other.FunctionNamed handle name := by
  obtain ⟨node, held, kind, same⟩ := named
  obtain ⟨later, held', nodes⟩ := alike.nodes _ _ held
  exact ⟨later, held', nodes.kind.trans kind, nodes.name.trans same⟩

theorem freeFunction (free : graph.FreeFunction handle name) : other.FreeFunction handle name := by
  obtain ⟨named, apart, node, held, unset⟩ := free
  obtain ⟨later, held', nodes⟩ := alike.nodes _ _ held
  refine ⟨alike.functionNamed named, ?_, later, held', ?_⟩
  · rintro ⟨owner, above⟩
    obtain ⟨old, above', -⟩ := alike.symm.classAbove above
    exact apart ⟨old, above'⟩
  · rw [nodes.isSet (by decide), unset]

theorem method (method : graph.Method handle name) : other.Method handle name := by
  obtain ⟨named, owner, above⟩ := method
  obtain ⟨later, above', -⟩ := alike.classAbove above
  exact ⟨alike.functionNamed named, later, above'⟩

theorem constructor (constructor : graph.Constructor handle name) : other.Constructor handle name := by
  obtain ⟨named, owner, above, same⟩ := constructor
  obtain ⟨later, above', kept⟩ := alike.classAbove above
  exact ⟨alike.functionNamed named, later, above', kept.trans same⟩

theorem aims {call later : Node} (nodes : call.ReadsAlike later) (aims : graph.Aims call target) :
    other.Aims later target := by
  obtain ⟨name, callee, aimed⟩ := aims
  refine ⟨name, (nodes.text? (by decide)).trans callee, ?_⟩
  rw [nodes.isSet (by decide), nodes.isSet (by decide)]
  split
  · next constructor =>
    rw [if_pos constructor] at aimed
    exact alike.constructor aimed
  · next plain =>
    rw [if_neg plain] at aimed
    split
    · next method =>
      rw [if_pos method] at aimed
      exact alike.method aimed
    · next free =>
      rw [if_neg free] at aimed
      exact alike.freeFunction aimed

end ReadsAlike

/-! ## The linked graph -/

variable {graph : Graph}

/-- An edge of another kind changes no parents. -/
theorem parents_withEdge {kind : EdgeKind} (other : kind ≠ .child) (source target : Nat)
    (tag : Option String) (properties : Properties) :
    (graph.withEdge source target kind tag properties).parents = graph.parents := by
  unfold withEdge addEdge
  cases graph.nodes[source]? with
  | none => rfl
  | some from_ =>
    cases graph.nodes[target]? with
    | none => rfl
    | some to_ =>
      simp only [addArc]
      split
      · rfl
      · rw [parents, Array.foldl_push, if_neg other, parents]

theorem parents_connectAll {connections : List Connection}
    (others : ∀ connection ∈ connections, connection.kind ≠ .child) :
    (graph.connectAll connections).parents = graph.parents := by
  induction connections generalizing graph with
  | nil => rfl
  | cons connection rest ih =>
    exact (ih fun later there => others later (List.mem_cons_of_mem _ there)).trans
      (parents_withEdge (others connection List.mem_cons_self) _ _ _ _)

theorem parents_setProperty (graph : Graph) (handle : Nat) (key : String) (value : PropertyValue) :
    (graph.setProperty handle key value).parents = graph.parents := by
  rw [parents, parents, Graph.setProperty, Array.size_modify]

theorem parents_foldl_addLinked {linked : List LinkedCall}
    (others : ∀ call ∈ linked, ∀ connection ∈ call.edges, connection.kind ≠ .child) :
    (linked.foldl addLinked graph).parents = graph.parents := by
  induction linked generalizing graph with
  | nil => rfl
  | cons call rest ih =>
    rw [List.foldl_cons, ih fun later there => others later (List.mem_cons_of_mem _ there), addLinked,
      parents_setProperty, parents_connectAll (others call List.mem_cons_self)]

/-- Linking asks for no containment edges. -/
theorem kind_of_mem_linkedCalls {call : LinkedCall} (inside : call ∈ graph.linkedCalls) :
    ∀ connection ∈ call.edges, connection.kind ≠ .child := by
  intro connection asked
  obtain ⟨node, -, edges⟩ := edges_of_mem_linkedCalls inside
  obtain ⟨target, -, links⟩ := (edges connection).1 asked
  cases links <;> exact nofun

/-- Linking reads the same off the graph that it makes as off the graph that it is given. -/
theorem readsAlike_linkAcrossFiles (graph : Graph) : graph.ReadsAlike graph.linkAcrossFiles.1 := by
  refine ⟨parents_foldl_addLinked fun _ inside => kind_of_mem_linkedCalls inside,
    fun handle node held => ?_⟩
  by_cases linked : ∃ old, graph.Linked handle old
  · obtain ⟨old, linked⟩ := linked
    obtain rfl := Option.some.inj (held.symm.trans linked.1.1)
    exact ⟨_, node_of_linked linked, .marked node _⟩
  · exact ⟨node, (node_of_not_linked linked).trans held, .refl node⟩

/-- The calls that linking leaves unresolved are those that aim at nothing. -/
theorem pending_linkAcrossFiles {handle : Nat} {node : Node} :
    graph.linkAcrossFiles.1.Pending handle node ↔
      graph.Pending handle node ∧ ¬ ∃ target, graph.Aims node target := by
  constructor
  · rintro ⟨found, kind, unresolved⟩
    obtain ⟨old, held, ⟨-, rfl⟩ | ⟨unlinked, rfl⟩⟩ := node_of_linkAcrossFiles found
    · simp [Node.set, Properties.flag?, PropertyValue.flag?] at unresolved
    · exact ⟨⟨held, kind, unresolved⟩, fun aims => unlinked ⟨node, ⟨held, kind, unresolved⟩, aims⟩⟩
  · rintro ⟨⟨held, waits⟩, none⟩
    refine ⟨(node_of_not_linked ?_).trans held, waits⟩
    rintro ⟨other, pending, aims⟩
    obtain rfl := Option.some.inj (held.symm.trans pending.1)
    exact none aims

/-- Linking resolves all calls that aim at something, and counts them; it leaves those unresolved that aim
at nothing. So linking a graph that has just been linked resolves no call and changes nothing. -/
theorem linkAcrossFiles_again (graph : Graph) :
    (∃ handles : List Nat, handles.Nodup ∧
        (∀ handle, handle ∈ handles ↔ ∃ node, graph.Linked handle node) ∧
        graph.linkAcrossFiles.2 = handles.length) ∧
      (∀ handle node, graph.linkAcrossFiles.1.Pending handle node ↔
        graph.Pending handle node ∧ ¬ ∃ target, graph.Aims node target) ∧
      graph.linkAcrossFiles.1.linkAcrossFiles = (graph.linkAcrossFiles.1, 0) := by
  refine ⟨⟨graph.linkedCalls.map LinkedCall.node, graph.nodup_linkedCalls, mem_linkedCalls_node,
    (List.length_map _).symm⟩, fun handle node => pending_linkAcrossFiles,
    linkAcrossFiles_eq_self.2 ?_⟩
  rintro ⟨handle, node, pending, target, aims⟩
  obtain ⟨-, none⟩ := pending_linkAcrossFiles.1 pending
  exact none ⟨target, graph.readsAlike_linkAcrossFiles.symm.aims (.refl node) aims⟩

end Graph

end CodeGraph

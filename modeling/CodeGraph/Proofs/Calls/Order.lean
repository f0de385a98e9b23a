import CodeGraph.Proofs.Calls.Across
import CodeGraph.Proofs.Graph.Parent

/-!
# Linking without handles

Linking names nodes by handles, but what it does depends on ids only. Of several calls that ask for one
edge the first in the order of ids decides what the edge records (`Graph.Adds`,
`Graph.WellFormed.mem_bonds_linkAcrossFiles`). Two graphs that are alike give a node to each other's nodes
(`Graph.Twin`), and everything that linking reads off them is the same for twins; so linking makes them
hold the same nodes and edges (`Graph.Alike.linkAcrossFiles`).
-/

namespace CodeGraph

/-- Among items with keys an item is appended if its key is new and no earlier item has it. -/
theorem mem_foldl_appendNew {α : Type} {key : α → String} (items known : List α) (item : α) :
    item ∈ items.foldl (appendNew key) known ↔ item ∈ known ∨
      key item ∉ known.map key ∧ items.find? (fun other => key other == key item) = some item := by
  induction items generalizing known with
  | nil => simp
  | cons head rest ih =>
    rw [List.foldl_cons, ih]
    by_cases old : key head ∈ known.map key
    · rw [appendNew, if_pos old]
      refine or_congr Iff.rfl (and_congr_right fun new => ?_)
      have different : (key head == key item) = false :=
        beq_false_of_ne fun same => new (same ▸ old)
      rw [List.find?_cons, different]
    · rw [appendNew, if_neg old, List.map_append, List.mem_append, List.mem_append, or_assoc,
        List.find?_cons]
      refine or_congr Iff.rfl ?_
      by_cases same : key head = key item
      · rw [same] at old
        simp only [List.map_singleton, List.mem_singleton, same, beq_self_eq_true, Option.some.injEq,
          not_or, not_true_eq_false, and_false, false_and, or_false, old, not_false_eq_true, true_and]
        exact eq_comm
      · have different : (key head == key item) = false := beq_false_of_ne same
        have other : item ≠ head := fun equal => same (equal ▸ rfl)
        simp [different, other, Ne.symm same]

/-- In a list of blocks that come in the order of their keys, and in each of which ids are unique, an item
is found by its id if no earlier block has one with that id. -/
theorem find?_flatMap_iff {α β : Type} (before : α → α → Prop) {blocks : List α}
    (block : α → List β) (key : β → String) (asymm : ∀ a b, before a b → ¬ before b a)
    (sorted : blocks.Pairwise before)
    (unique : ∀ a ∈ blocks, ∀ b ∈ block a, ∀ b' ∈ block a, key b = key b' → b = b') (item : β) :
    (blocks.flatMap block).find? (fun other => key other == key item) = some item ↔
      ∃ a ∈ blocks, item ∈ block a ∧
        ∀ earlier ∈ blocks, before earlier a → ∀ other ∈ block earlier, key other ≠ key item := by
  induction blocks with
  | nil => simp
  | cons first rest ih =>
    obtain ⟨front, sorted⟩ := List.pairwise_cons.1 sorted
    have further := ih sorted
      fun a there => unique a (List.mem_cons_of_mem _ there)
    rw [List.flatMap_cons, List.find?_append]
    by_cases here : ∃ other ∈ block first, key other = key item
    · obtain ⟨other, there, same⟩ := here
      have found : (block first).find? (fun other => key other == key item) = some other := by
        cases held : (block first).find? fun other => key other == key item with
        | none =>
          have none := List.find?_eq_none.1 held other there
          simp [same] at none
        | some found =>
          have key := List.find?_some held
          rw [unique first List.mem_cons_self found (List.mem_of_find?_eq_some held) other there
            ((beq_iff_eq.1 key).trans same.symm)]
      rw [found, Option.some_or, Option.some.injEq]
      constructor
      · rintro rfl
        refine ⟨first, List.mem_cons_self, there, fun earlier listed less => ?_⟩
        rcases List.mem_cons.1 listed with rfl | later
        · exact absurd less (asymm _ _ less)
        · exact absurd less (asymm _ _ (front earlier later))
      · rintro ⟨a, listed, inside, earliest⟩
        rcases List.mem_cons.1 listed with rfl | later
        · exact unique a List.mem_cons_self other there item inside same
        · exact absurd same (earliest first List.mem_cons_self (front a later) other there)
    · have none : (block first).find? (fun other => key other == key item) = none :=
        List.find?_eq_none.2 fun other there same => here ⟨other, there, beq_iff_eq.1 same⟩
      rw [none, Option.none_or, further]
      constructor
      · rintro ⟨a, listed, inside, earliest⟩
        refine ⟨a, List.mem_cons_of_mem _ listed, inside, List.forall_mem_cons.2 ⟨?_, earliest⟩⟩
        exact fun _ other there same => here ⟨other, there, same⟩
      · rintro ⟨a, listed, inside, earliest⟩
        rcases List.mem_cons.1 listed with rfl | later
        · exact absurd ⟨item, inside, rfl⟩ here
        · exact ⟨a, later, inside, fun earlier there => earliest earlier (List.mem_cons_of_mem _ there)⟩

namespace Graph

/-! ## The edges that linking adds -/

/-- The edge that a connection asks for, without handles. -/
def bondFor (graph : Graph) (connection : Connection) : Bond where
  id := edgeId connection.kind (graph.idOf connection.source) (graph.idOf connection.target)
    connection.tag
  kind := connection.kind
  source := graph.idOf connection.source
  target := graph.idOf connection.target
  properties := connection.properties

theorem idOf_eq_of_nodes {graph other : Graph} (same : other.nodes = graph.nodes) :
    other.idOf = graph.idOf := by
  funext handle
  rw [idOf, idOf, same]

theorem idOf_setProperty (graph : Graph) (changed : Nat) (key : String) (value : PropertyValue) :
    (graph.setProperty changed key value).idOf = graph.idOf := by
  funext handle
  rw [idOf, idOf, WellFormed.getElem?_setProperty]
  split
  · rw [Option.map_map]
    rfl
  · rfl

/-- Properties of nodes do not matter for edges. -/
theorem bonds_setProperty (graph : Graph) (changed : Nat) (key : String) (value : PropertyValue) :
    (graph.setProperty changed key value).bonds = graph.bonds := by
  refine List.map_congr_left fun arc _ => ?_
  simp only [bondOf, idOf_setProperty]

namespace WellFormed

variable {graph : Graph} (formed : graph.WellFormed)
include formed

/-- Connecting two nodes adds the edge that is asked for, unless its id is known. -/
theorem bonds_connect {connection : Connection} (joins : graph.Joins connection) :
    (graph.connect connection).bonds =
      appendNew Bond.id graph.bonds (graph.bondFor connection) := by
  obtain ⟨from_, left⟩ := node_of_lt joins.1
  obtain ⟨to_, right⟩ := node_of_lt joins.2
  have id : edgeId connection.kind from_.id to_.id connection.tag =
      (graph.bondFor connection).id := by
    rw [bondFor, idOf_of_found left, idOf_of_found right]
  unfold connect Graph.withEdge addEdge
  rw [left, right]
  simp only
  unfold Graph.addArc appendNew
  simp only [id]
  cases known : graph.edgeIndex[(graph.bondFor connection).id]? with
  | some place =>
    rw [if_pos]
    by_contra new
    have none := formed.edgeIndex_eq_none.2 new
    rw [known] at none
    cases none
  | none =>
    have new : (graph.bondFor connection).id ∉ graph.bonds.map Bond.id :=
      formed.edgeIndex_eq_none.1 known
    rw [if_neg new, bonds, Array.toList_push, List.map_append]
    exact congrArg₂ (· ++ ·) (List.map_congr_left fun _ _ => rfl) rfl

theorem bonds_connectAll {connections : List Connection}
    (joins : ∀ connection ∈ connections, graph.Joins connection) :
    (graph.connectAll connections).bonds =
      (connections.map graph.bondFor).foldl (appendNew Bond.id) graph.bonds := by
  induction connections generalizing graph with
  | nil => rfl
  | cons connection rest ih =>
    have nodes : (graph.connect connection).nodes = graph.nodes := nodes_withEdge _ _ _ _ _ _
    have later : ∀ other ∈ rest, (graph.connect connection).Joins other := fun other there =>
      (joins other (List.mem_cons_of_mem _ there)).of_size (congrArg Array.size nodes)
    have whole : (graph.connect connection).WellFormed := formed.withEdge _ _ _ _ _
    have same : (graph.connect connection).bondFor = graph.bondFor := by
      funext other
      simp only [bondFor, idOf_eq_of_nodes nodes]
    have onward : graph.connectAll (connection :: rest) =
        (graph.connect connection).connectAll rest := rfl
    rw [onward, ih whole later, same, formed.bonds_connect (joins connection List.mem_cons_self)]
    rfl

theorem bonds_foldl_addLinked {linked : List LinkedCall}
    (joins : ∀ call ∈ linked, ∀ connection ∈ call.edges, graph.Joins connection) :
    (linked.foldl addLinked graph).bonds =
      ((linked.flatMap fun call => call.edges.map graph.bondFor)).foldl (appendNew Bond.id)
        graph.bonds := by
  induction linked generalizing graph with
  | nil => rfl
  | cons call rest ih =>
    have later : ∀ other ∈ rest, ∀ connection ∈ other.edges,
        (addLinked graph call).Joins connection := fun other there connection asked =>
      (joins other (List.mem_cons_of_mem _ there) connection asked).of_size (graph.size_addLinked call)
    have whole : (addLinked graph call).WellFormed := (formed.connectAll _).setProperty _ _ _
    have same : (addLinked graph call).bondFor = graph.bondFor := by
      funext connection
      simp only [bondFor, addLinked, idOf_setProperty,
        idOf_eq_of_nodes (nodes_connectAll graph call.edges)]
    rw [List.foldl_cons, ih whole later, same, addLinked, bonds_setProperty,
      formed.bonds_connectAll (joins call List.mem_cons_self), List.flatMap_cons, List.foldl_append]

end WellFormed

/-- A call asks for an edge when it is linked. -/
def Asks (graph : Graph) (handle : Nat) (call : Node) (bond : Bond) : Prop :=
  graph.Pending handle call ∧ ∃ target connection, graph.Aims call target ∧
    graph.Links handle call target connection ∧ graph.bondFor connection = bond

/-- Linking adds an edge: it has a new id, some call asks for it, and no call with an earlier id asks for
an edge of that id. -/
def Adds (graph : Graph) (bond : Bond) : Prop :=
  bond.id ∉ graph.bondIds ∧ ∃ handle call, graph.Asks handle call bond ∧
    ∀ handle' call' other, graph.Asks handle' call' other → call'.id < call.id →
      other.id ≠ bond.id

/-- The target of a link that a call aims at is a node, like the ends of all its connections. -/
theorem Asks.joins {graph : Graph} {handle : Nat} {call : Node} {bond : Bond}
    (asks : graph.Asks handle call bond) : ∃ target connection, graph.Aims call target ∧
      graph.Links handle call target connection ∧ graph.bondFor connection = bond ∧
      graph.Joins connection := by
  obtain ⟨pending, target, connection, aims, links, same⟩ := asks
  exact ⟨target, connection, aims, links, same, joins_of_links pending.1 aims links⟩

/-- A call is no site at which a function returns. -/
theorem not_returnSite {graph : Graph} {handle target : Nat} {call : Node}
    (held : graph.nodes[handle]? = some call) (isCall : call.kind = .call) :
    ¬ graph.ReturnSite target handle := by
  rintro ⟨node, found, kind⟩
  obtain rfl := Option.some.inj (held.symm.trans found)
  rw [isCall] at kind
  rcases kind with ⟨wrong, -⟩ | ⟨wrong, -⟩ <;> cases wrong

/-- The kind and the ends of a link tell by which rule a call asks for it, and from which site or to which
parameter it leads, and so what it records. -/
theorem properties_of_links {graph : Graph} {handle target target' : Nat} {call : Node}
    (held : graph.nodes[handle]? = some call) (isCall : call.kind = .call)
    {connection connection' : Connection} (links : graph.Links handle call target connection)
    (links' : graph.Links handle call target' connection')
    (kinds : connection.kind = connection'.kind) (sources : connection.source = connection'.source)
    (targets : connection.target = connection'.target) :
    connection.properties = connection'.properties := by
  cases links with
  | call =>
    cases links' with
    | call => rfl
    | result => cases kinds
    | returned => cases kinds
    | argument => cases kinds
  | result =>
    cases links' with
    | call => cases kinds
    | result => rfl
    | returned => cases kinds
    | argument => cases kinds
  | returned _ returns =>
    cases links' with
    | call => cases kinds
    | result => cases kinds
    | returned => rfl
    | argument =>
      simp only at sources
      exact absurd (sources ▸ returns) (not_returnSite held isCall)
  | argument =>
    cases links' with
    | call => cases kinds
    | result => cases kinds
    | returned _ returns =>
      simp only at sources
      exact absurd (sources ▸ returns) (not_returnSite held isCall)
    | argument =>
      simp only at targets
      rw [targets]

section Asked

variable {graph : Graph}

/-- What a linked call adds is what its node asks for. -/
theorem asks_of_mem_linkedCalls {linked : LinkedCall} (inside : linked ∈ graph.linkedCalls) {bond : Bond}
    (there : bond ∈ linked.edges.map graph.bondFor) : ∃ call, graph.Asks linked.node call bond := by
  obtain ⟨call, ⟨pending, -⟩, edges⟩ := edges_of_mem_linkedCalls inside
  obtain ⟨connection, asked, same⟩ := List.mem_map.1 there
  obtain ⟨target, aims, links⟩ := (edges connection).1 asked
  exact ⟨call, pending, target, connection, aims, links, same⟩

/-- A call that asks for an edge is linked. -/
theorem mem_linkedCalls_of_asks {handle : Nat} {call : Node} {bond : Bond}
    (asks : graph.Asks handle call bond) : ∃ linked ∈ graph.linkedCalls, linked.node = handle ∧
      bond ∈ linked.edges.map graph.bondFor := by
  obtain ⟨pending, target, connection, aims, links, same⟩ := asks
  obtain ⟨linked, inside, rfl⟩ :=
    List.mem_map.1 ((mem_linkedCalls_node handle).2 ⟨call, pending, target, aims⟩)
  obtain ⟨call', ⟨pending', -⟩, edges⟩ := edges_of_mem_linkedCalls inside
  obtain rfl := Option.some.inj (pending.1.symm.trans pending'.1)
  exact ⟨linked, inside, rfl,
    List.mem_map.2 ⟨connection, (edges connection).2 ⟨target, aims, links⟩, same⟩⟩

end Asked

namespace WellFormed

variable {graph : Graph} (formed : graph.WellFormed) (plain : graph.PlainIds)
include formed plain

/-- The edges that one call asks for are told apart by their ids. -/
theorem asks_unique {handle : Nat} {call : Node} {bond other : Bond}
    (asks : graph.Asks handle call bond) (asks' : graph.Asks handle call other)
    (same : bond.id = other.id) : bond = other := by
  have held := asks.1.1
  have callKind := asks.1.2.1
  obtain ⟨target, connection, -, links, rfl, joins⟩ := asks.joins
  obtain ⟨target', connection', -, links', rfl, joins'⟩ := asks'.joins
  obtain ⟨a, heldA⟩ := node_of_lt joins.1
  obtain ⟨b, heldB⟩ := node_of_lt joins.2
  obtain ⟨a', heldA'⟩ := node_of_lt joins'.1
  obtain ⟨b', heldB'⟩ := node_of_lt joins'.2
  simp only [bondFor, idOf_of_found heldA, idOf_of_found heldB, idOf_of_found heldA',
    idOf_of_found heldB'] at same ⊢
  have told := formed.tellsEdges_of_plain plain
  obtain ⟨kinds, sources, targets, tags⟩ := told _ _ _ _ _ _ _ _ _ _ _ _ heldA heldB heldA' heldB' same
  have properties := properties_of_links held callKind links links' kinds sources targets
  have sameA : a = a' := Option.some.inj (heldA.symm.trans (sources ▸ heldA'))
  have sameB : b = b' := Option.some.inj (heldB.symm.trans (targets ▸ heldB'))
  rw [sameA, sameB, kinds, tags, properties]

/-- Linking adds each edge that a call asks for and that is new; the first call in the order of ids
decides what the edge records. -/
theorem mem_bonds_linkAcrossFiles (bond : Bond) :
    bond ∈ graph.linkAcrossFiles.1.bonds ↔ bond ∈ graph.bonds ∨ graph.Adds bond := by
  have unique : ∀ linked ∈ graph.linkedCalls, ∀ bond ∈ linked.edges.map graph.bondFor,
      ∀ other ∈ linked.edges.map graph.bondFor, bond.id = other.id → bond = other := by
    intro linked inside bond there other there' same
    obtain ⟨call, asks⟩ := asks_of_mem_linkedCalls inside there
    obtain ⟨call', asks'⟩ := asks_of_mem_linkedCalls inside there'
    obtain rfl := Option.some.inj (asks.1.1.symm.trans asks'.1.1)
    exact formed.asks_unique plain asks asks' same
  have found := find?_flatMap_iff (fun a b : LinkedCall => graph.idOf a.node < graph.idOf b.node)
    (fun linked => linked.edges.map graph.bondFor) Bond.id (fun _ _ => lt_asymm)
    formed.sorted_linkedCalls unique bond
  have added := formed.bonds_foldl_addLinked fun _ inside => joins_of_mem_linkedCalls inside
  have linkedIs : graph.linkAcrossFiles.1 = graph.linkedCalls.foldl addLinked graph := by
    rw [Graph.linkAcrossFiles]
  rw [linkedIs, added, mem_foldl_appendNew, found]
  refine or_congr Iff.rfl (and_congr Iff.rfl ?_)
  constructor
  · rintro ⟨linked, inside, there, first⟩
    obtain ⟨call, asks⟩ := asks_of_mem_linkedCalls inside there
    refine ⟨linked.node, call, asks, fun handle' call' other asks' less => ?_⟩
    obtain ⟨earlier, inside', rfl, there'⟩ := mem_linkedCalls_of_asks asks'
    refine first earlier inside' ?_ other there'
    rwa [idOf_of_found asks'.1.1, idOf_of_found asks.1.1]
  · rintro ⟨handle, call, asks, first⟩
    obtain ⟨linked, inside, rfl, there⟩ := mem_linkedCalls_of_asks asks
    refine ⟨linked, inside, there, fun earlier inside' less other there' => ?_⟩
    obtain ⟨call', asks'⟩ := asks_of_mem_linkedCalls inside' there'
    refine first earlier.node call' other asks' ?_
    rwa [idOf_of_found asks'.1.1, idOf_of_found asks.1.1] at less

end WellFormed

/-! ## Twins -/

/-- The same node, in two graphs. -/
def Twin (graph other : Graph) (handle handle' : Nat) : Prop :=
  ∃ node, graph.nodes[handle]? = some node ∧ other.nodes[handle']? = some node

theorem Twin.symm {graph other : Graph} {handle handle' : Nat}
    (twin : graph.Twin other handle handle') : other.Twin graph handle' handle :=
  let ⟨node, found, found'⟩ := twin
  ⟨node, found', found⟩

theorem Twin.idOf {graph other : Graph} {handle handle' : Nat}
    (twin : graph.Twin other handle handle') : graph.idOf handle = other.idOf handle' := by
  obtain ⟨node, found, found'⟩ := twin
  rw [idOf_of_found found, idOf_of_found found']

theorem Twin.unique {graph other : Graph} (formed : other.WellFormed) {handle first second : Nat}
    (twin : graph.Twin other handle first) (twin' : graph.Twin other handle second) :
    first = second := by
  obtain ⟨node, found, held⟩ := twin
  obtain ⟨node', found', held'⟩ := twin'
  obtain rfl := Option.some.inj (found.symm.trans found')
  exact formed.handle_unique held held' rfl

/-- What leads to a node leads to its twin. -/
theorem Twin.eq_some_of_rel {graph other : Graph} (formed : other.WellFormed)
    {handle handle' : Nat} {found found' : Option Nat}
    (twin : graph.Twin other handle handle') (twins : Option.Rel (graph.Twin other) found found')
    (same : found = some handle) : found' = some handle' := by
  subst same
  cases twins with
  | some twin' => rw [twin'.unique formed twin]

theorem Twin.nameOf {graph other : Graph} {handle handle' : Nat}
    (twin : graph.Twin other handle handle') : graph.nameOf handle = other.nameOf handle' := by
  obtain ⟨node, found, found'⟩ := twin
  rw [Graph.nameOf, Graph.nameOf, found, found']

theorem Twin.found {graph other : Graph} {handle handle' : Nat} {node : Node}
    (twin : graph.Twin other handle handle') (found : graph.nodes[handle]? = some node) :
    other.nodes[handle']? = some node := by
  obtain ⟨held, there, there'⟩ := twin
  rwa [← Option.some.inj (there.symm.trans found)]

theorem Twin.hasKind {graph other : Graph} {handle handle' : Nat}
    (twin : graph.Twin other handle handle') (kind : NodeKind) :
    graph.hasKind handle kind = other.hasKind handle' kind := by
  obtain ⟨node, found, found'⟩ := twin
  rw [Graph.hasKind, Graph.hasKind, found, found']

namespace Alike

variable {graph other : Graph} (alike : graph.Alike other)
include alike

/-- Every node has a twin. -/
theorem twin_of_found {handle : Nat} {node : Node} (found : graph.nodes[handle]? = some node) :
    ∃ handle', graph.Twin other handle handle' := by
  obtain ⟨handle', found'⟩ :=
    mem_nodes.1 (alike.nodes.mem_iff.1 (mem_nodes.2 ⟨handle, found⟩))
  exact ⟨handle', node, found, found'⟩

theorem size_eq : graph.nodes.size = other.nodes.size := by
  simpa using alike.nodes.length_eq

variable (formed : graph.WellFormed) (formed' : other.WellFormed)
include formed formed'

omit formed in
/-- The node of an id in one graph is the twin of the node of that id in the other. -/
theorem twin_of_id {handle handle' : Nat} (there : handle < graph.nodes.size)
    (there' : handle' < other.nodes.size) (same : graph.idOf handle = other.idOf handle') :
    graph.Twin other handle handle' := by
  obtain ⟨node, found⟩ := node_of_lt there
  obtain ⟨node', found'⟩ := node_of_lt there'
  obtain ⟨twin, held, stood, stood'⟩ := alike.twin_of_found found
  obtain rfl := Option.some.inj (found.symm.trans stood)
  rw [idOf_of_found found, idOf_of_found found'] at same
  obtain rfl := formed'.handle_unique stood' found' same
  exact ⟨node, found, stood'⟩

/-- Twins have twins for parents. -/
theorem parent?_twin {handle handle' : Nat} (twin : graph.Twin other handle handle') :
    Option.Rel (graph.Twin other) (graph.parent? handle) (other.parent? handle') := by
  obtain ⟨node, found, found'⟩ := twin
  have ids : (graph.parent? handle).map graph.idOf = (other.parent? handle').map other.idOf := by
    rw [formed.idOf_parent? found, formed'.idOf_parent? found', alike.into]
  cases above : graph.parent? handle with
  | none =>
    rw [above, Option.map_none] at ids
    rw [Option.map_eq_none_iff.1 ids.symm]
    exact .none
  | some parent =>
    rw [above, Option.map_some] at ids
    obtain ⟨parent', above', same⟩ := Option.map_eq_some_iff.1 ids.symm
    rw [above']
    exact .some (alike.twin_of_id formed' (formed.parent?_lt above) (formed'.parent?_lt above')
      same.symm)

/-- Twins lie in twins of functions. -/
theorem enclosingFunction?_twin {handle handle' : Nat} (twin : graph.Twin other handle handle') :
    Option.Rel (graph.Twin other) (graph.enclosingFunction? handle)
      (other.enclosingFunction? handle') := by
  have climb : ∀ (steps : Nat) (start start' : Option Nat),
      Option.Rel (graph.Twin other) start start' →
      Option.Rel (graph.Twin other) (graph.climb graph.parents steps start)
        (other.climb other.parents steps start') := by
    intro steps
    induction steps with
    | zero => exact fun _ _ _ => .none
    | succ steps ih =>
      intro start start' twins
      cases twins with
      | none => exact .none
      | @some handle handle' twin =>
        unfold Graph.climb
        rw [twin.hasKind]
        split
        · exact .some twin
        · exact ih _ _ (alike.parent?_twin formed formed' twin)
  unfold enclosingFunction? functionAround
  rw [alike.size_eq]
  exact climb _ _ _ (alike.parent?_twin formed formed' twin)

/-! ### What linking reads off twins -/

theorem classAbove_twin {handle handle' : Nat} (twin : graph.Twin other handle handle')
    {owner : Node} (above : graph.ClassAbove handle owner) : other.ClassAbove handle' owner := by
  obtain ⟨parent, is, held, cls⟩ := above
  obtain ⟨parent', twin'⟩ := alike.twin_of_found held
  exact ⟨parent', twin'.eq_some_of_rel formed' (alike.parent?_twin formed formed' twin) is,
    twin'.found held, cls⟩

theorem aims_twin {call : Node} {target target' : Nat} (twin : graph.Twin other target target')
    (aims : graph.Aims call target) : other.Aims call target' := by
  have named : ∀ {name : String}, graph.FunctionNamed target name →
      other.FunctionNamed target' name := fun ⟨node, held, rest⟩ => ⟨node, twin.found held, rest⟩
  obtain ⟨name, short, aimed⟩ := aims
  refine ⟨name, short, ?_⟩
  split
  · next constructs =>
    rw [if_pos constructs] at aimed
    obtain ⟨function, owner, above, ownerName⟩ := aimed
    exact ⟨named function, owner, alike.classAbove_twin formed formed' twin above, ownerName⟩
  · next constructs =>
    rw [if_neg constructs] at aimed
    split
    · next method =>
      rw [if_pos method] at aimed
      obtain ⟨function, owner, above⟩ := aimed
      exact ⟨named function, owner, alike.classAbove_twin formed formed' twin above⟩
    · next method =>
      rw [if_neg method] at aimed
      obtain ⟨function, apart, node, held, unset⟩ := aimed
      refine ⟨named function, fun ⟨owner, above⟩ => apart ⟨owner, ?_⟩, node, twin.found held, unset⟩
      exact alike.symm.classAbove_twin formed' formed twin.symm above

theorem paramOf_twin {function function' position param param' : Nat}
    (twin : graph.Twin other function function') (twin' : graph.Twin other param param')
    (paramOf : graph.ParamOf function position param) :
    other.ParamOf function' position param' := by
  obtain ⟨node, number, held, kind, above, index, same⟩ := paramOf
  exact ⟨node, number, twin'.found held, kind, twin.eq_some_of_rel formed'
    (alike.parent?_twin formed formed' twin') above, index, same⟩

theorem returnSite_twin {function function' site site' : Nat}
    (twin : graph.Twin other function function') (twin' : graph.Twin other site site')
    (returns : graph.ReturnSite function site) : other.ReturnSite function' site' := by
  obtain ⟨node, held, statement | expression⟩ := returns
  · obtain ⟨kind, word, around⟩ := statement
    exact ⟨node, twin'.found held, .inl ⟨kind, word, twin.eq_some_of_rel formed'
      (alike.enclosingFunction?_twin formed formed' twin') around⟩⟩
  · obtain ⟨kind, above, function⟩ := expression
    refine ⟨node, twin'.found held, .inr ⟨kind, twin.eq_some_of_rel formed'
      (alike.parent?_twin formed formed' twin') above, ?_⟩⟩
    rwa [← twin.hasKind]

/-- Twins of calls ask for the same edges. -/
theorem asks_twin {handle handle' : Nat} {call : Node} {bond : Bond}
    (twin : graph.Twin other handle handle') (asks : graph.Asks handle call bond) :
    other.Asks handle' call bond := by
  have pending' : other.Pending handle' call := ⟨twin.found asks.1.1, asks.1.2⟩
  obtain ⟨target, connection, aims, links, rfl, joins⟩ := asks.joins
  obtain ⟨sourceNode, found⟩ := node_of_lt joins.1
  obtain ⟨goalNode, found'⟩ := node_of_lt joins.2
  obtain ⟨from_, sourceTwin⟩ := alike.twin_of_found found
  obtain ⟨to_, goalTwin⟩ := alike.twin_of_found found'
  have bondTwin : ∀ {connection' : Connection}, connection'.kind = connection.kind →
      connection'.source = from_ → connection'.target = to_ → connection'.tag = connection.tag →
      connection'.properties = connection.properties →
      other.bondFor connection' = graph.bondFor connection := by
    intro connection' kind source target tag properties
    simp only [bondFor, kind, source, target, tag, properties, sourceTwin.idOf, goalTwin.idOf]
  have aimsTwin : ∀ {target' : Nat}, graph.Twin other target target' → other.Aims call target' :=
    fun twin => alike.aims_twin formed formed' twin aims
  cases links with
  | call around =>
    exact ⟨pending', to_, _, aimsTwin goalTwin, .call (sourceTwin.eq_some_of_rel formed'
      (alike.enclosingFunction?_twin formed formed' twin) around),
      bondTwin rfl rfl rfl rfl rfl⟩
  | result consumed =>
    obtain rfl := goalTwin.unique formed' twin
    exact ⟨pending', from_, _, aimsTwin sourceTwin, .result consumed, bondTwin rfl rfl rfl rfl rfl⟩
  | returned consumed returns =>
    obtain rfl := goalTwin.unique formed' twin
    obtain ⟨node, held, -⟩ := kind_of_aims aims
    obtain ⟨target', targetTwin⟩ := alike.twin_of_found held
    exact ⟨pending', target', _, aimsTwin targetTwin, .returned consumed
      (alike.returnSite_twin formed formed' targetTwin sourceTwin returns),
      bondTwin rfl rfl rfl rfl rfl⟩
  | argument paramOf count less =>
    obtain rfl := sourceTwin.unique formed' twin
    obtain ⟨node, held, -⟩ := kind_of_aims aims
    obtain ⟨target', targetTwin⟩ := alike.twin_of_found held
    exact ⟨pending', target', _, aimsTwin targetTwin, .argument
      (alike.paramOf_twin formed formed' targetTwin goalTwin paramOf) count less,
      bondTwin rfl rfl rfl (by rw [goalTwin.nameOf]) (by rw [goalTwin.nameOf])⟩

/-- Linking adds the same edges to graphs that are alike. -/
theorem adds {bond : Bond} (adds : graph.Adds bond) : other.Adds bond := by
  obtain ⟨new, handle, call, asks, first⟩ := adds
  obtain ⟨handle', twin⟩ := alike.twin_of_found asks.1.1
  refine ⟨fun old => new ((alike.mem_bondIds bond.id).2 old), handle', call,
    alike.asks_twin formed formed' twin asks, fun place call' earlier asks' less => ?_⟩
  obtain ⟨place', twin'⟩ := alike.symm.twin_of_found asks'.1.1
  exact first place' call' earlier (alike.symm.asks_twin formed' formed twin' asks') less

/-- Linking resolves twins of calls. -/
theorem linked_twin {handle handle' : Nat} {node : Node} (twin : graph.Twin other handle handle')
    (linked : graph.Linked handle node) : other.Linked handle' node := by
  obtain ⟨pending, target, aims⟩ := linked
  obtain ⟨held, there, -⟩ := kind_of_aims aims
  obtain ⟨target', targetTwin⟩ := alike.twin_of_found there
  exact ⟨⟨twin.found pending.1, pending.2⟩, target', alike.aims_twin formed formed' targetTwin aims⟩

/-- Linking makes of graphs that are alike graphs with the same nodes. -/
theorem node_linkAcrossFiles {node : Node}
    (inside : node ∈ graph.linkAcrossFiles.1.nodes.toList) :
    node ∈ other.linkAcrossFiles.1.nodes.toList := by
  obtain ⟨handle, found⟩ := mem_nodes.1 inside
  obtain ⟨old, held, same⟩ := node_of_linkAcrossFiles found
  obtain ⟨handle', twin⟩ := alike.twin_of_found held
  refine mem_nodes.2 ⟨handle', ?_⟩
  rcases same with ⟨linked, rfl⟩ | ⟨unlinked, rfl⟩
  · exact node_of_linked (alike.linked_twin formed formed' twin linked)
  · rw [node_of_not_linked, twin.found held]
    rintro ⟨other', linked⟩
    exact unlinked ⟨other', alike.symm.linked_twin formed' formed twin.symm linked⟩

/-- Linking makes of graphs that are alike graphs that hold the same nodes and edges. -/
theorem linkAcrossFiles (plain : graph.PlainIds) (plain' : other.PlainIds) :
    (∀ node, node ∈ graph.linkAcrossFiles.1.nodes.toList ↔
        node ∈ other.linkAcrossFiles.1.nodes.toList) ∧
      ∀ bond, bond ∈ graph.linkAcrossFiles.1.bonds ↔ bond ∈ other.linkAcrossFiles.1.bonds := by
  refine ⟨fun node => ⟨alike.node_linkAcrossFiles formed formed',
    alike.symm.node_linkAcrossFiles formed' formed⟩, fun bond => ?_⟩
  rw [formed.mem_bonds_linkAcrossFiles plain, formed'.mem_bonds_linkAcrossFiles plain',
    alike.mem_bonds]
  exact or_congr Iff.rfl ⟨alike.adds formed formed', alike.symm.adds formed' formed⟩

end Alike

end Graph

end CodeGraph

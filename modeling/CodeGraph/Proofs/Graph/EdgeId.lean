import CodeGraph.Proofs.Graph.WellFormed

/-!
# Telling edges apart

An edge is added only if no edge has its id, so a connection is lost when two edges that differ have
one id. Where this cannot happen (`Graph.TellsEdges`), adding connections gives an edge for each of
them, and no others (`Graph.WellFormed.hasEdge_connectAll`). It cannot happen if the ids of nodes contain
neither of the texts that separate the parts of an edge id (`Graph.WellFormed.tellsEdges_of_plain`).
-/

namespace CodeGraph

/-! ## Texts with separators -/

/-- What stands in front of the first occurrence of a character is determined by the whole text. -/
theorem split_at_char {c : Char} {front front' back back' : List Char} (clear : c ∉ front)
    (clear' : c ∉ front') (same : front ++ c :: back = front' ++ c :: back') :
    front = front' ∧ back = back' := by
  induction front generalizing front' with
  | nil =>
    cases front' with
    | nil => exact ⟨rfl, (List.cons.inj same).2⟩
    | cons d front' =>
      obtain ⟨rfl, -⟩ := List.cons.inj same
      exact absurd List.mem_cons_self clear'
  | cons a front ih =>
    cases front' with
    | nil =>
      obtain ⟨rfl, -⟩ := List.cons.inj same
      exact absurd List.mem_cons_self clear
    | cons d front' =>
      obtain ⟨rfl, rest⟩ := List.cons.inj same
      obtain ⟨rfl, rfl⟩ := ih (fun inside => clear (List.mem_cons_of_mem _ inside))
        (fun inside => clear' (List.mem_cons_of_mem _ inside)) rest
      exact ⟨rfl, rfl⟩

/-- The characters between the ids of the two ends of an edge. -/
def arrow : List Char := ['-', '>']

/-- A text that goes on with an arrow behind another one with an arrow contains an arrow itself. -/
theorem arrow_infix {more back back' : List Char} (some : more ≠ [])
    (same : arrow ++ back = more ++ (arrow ++ back')) : arrow <:+: more := by
  match more, some with
  | [c], _ =>
    obtain ⟨rfl, rest⟩ := List.cons.inj same
    have wrong := (List.cons.inj rest).1
    revert wrong
    decide
  | c :: d :: more, _ =>
    obtain ⟨rfl, rest⟩ := List.cons.inj same
    obtain ⟨rfl, -⟩ := List.cons.inj rest
    exact ⟨[], more, rfl⟩

/-- What stands in front of the first arrow is determined by the whole text. -/
theorem split_at_arrow {front front' back back' : List Char} (clear : ¬ arrow <:+: front)
    (clear' : ¬ arrow <:+: front') (same : front ++ (arrow ++ back) = front' ++ (arrow ++ back')) :
    front = front' ∧ back = back' := by
  rcases List.append_eq_append_iff.1 same with ⟨more, rfl, rest⟩ | ⟨more, rfl, rest⟩
  · by_cases none : more = []
    · subst none
      exact ⟨(List.append_nil _).symm, List.append_cancel_left rest⟩
    · obtain ⟨before, after, inside⟩ := arrow_infix none rest
      exact absurd ⟨front ++ before, after, by simp [← inside]⟩ clear'
  · by_cases none : more = []
    · subst none
      exact ⟨List.append_nil _, (List.append_cancel_left rest).symm⟩
    · obtain ⟨before, after, inside⟩ := arrow_infix none rest
      exact absurd ⟨front' ++ before, after, by simp [← inside]⟩ clear

namespace Graph

/-! ## Ids of edges -/

/-- The end of an edge id: the tag, behind its mark. -/
def tagText : Option String → List Char
  | some text => '#' :: text.toList
  | none => []

theorem toList_edgeId (kind : EdgeKind) (source target : String) (tag : Option String) :
    (edgeId kind source target tag).toList =
      kind.name.toList ++ ':' :: (source.toList ++ (arrow ++ (target.toList ++ tagText tag))) := by
  cases tag <;> simp [edgeId, tagText, arrow]

theorem tagText_inj {tag tag' : Option String} (same : tagText tag = tagText tag') :
    tag = tag' := by
  cases tag <;> cases tag' <;> simp [tagText] at same ⊢
  exact String.toList_inj.1 same

theorem name_inj {kind kind' : EdgeKind} (same : kind.name = kind'.name) : kind = kind' := by
  have read := kind.ofName?_name
  rw [same, kind'.ofName?_name] at read
  exact (Option.some.inj read).symm

/-- An id of a node that contains neither of the separators in the id of an edge. -/
def Plain (id : String) : Prop := ¬ arrow <:+: id.toList ∧ '#' ∉ id.toList

instance (id : String) : Decidable (Plain id) :=
  inferInstanceAs (Decidable (¬ arrow <:+: id.toList ∧ '#' ∉ id.toList))

/-- Behind a common beginning of the ids of its ends, an edge id tells its parts. -/
theorem edgeId_inj {kind kind' : EdgeKind} {front a b a' b' : String} {tag tag' : Option String}
    (plainA : Plain a) (plainB : Plain b) (plainA' : Plain a') (plainB' : Plain b')
    (same : edgeId kind (front ++ a) (front ++ b) tag =
      edgeId kind' (front ++ a') (front ++ b') tag') :
    kind = kind' ∧ a = a' ∧ b = b' ∧ tag = tag' := by
  have texts := congrArg String.toList same
  simp only [toList_edgeId, String.toList_append, List.append_assoc] at texts
  have colon : ∀ kind : EdgeKind, ':' ∉ kind.name.toList := by
    intro kind
    cases kind <;> decide
  obtain ⟨names, texts⟩ := split_at_char (colon kind) (colon kind') texts
  obtain ⟨sources, texts⟩ := split_at_arrow plainA.1 plainA'.1 (List.append_cancel_left texts)
  replace texts := List.append_cancel_left texts
  have targets : b.toList = b'.toList ∧ tagText tag = tagText tag' := by
    cases tag with
    | none =>
      cases tag' with
      | none => exact ⟨by simpa [tagText] using texts, rfl⟩
      | some text' =>
        have marked : '#' ∈ b.toList ++ tagText none := by rw [texts]; simp [tagText]
        exact absurd (by simpa [tagText] using marked) plainB.2
    | some text =>
      cases tag' with
      | none =>
        have marked : '#' ∈ b'.toList ++ tagText none := by rw [← texts]; simp [tagText]
        exact absurd (by simpa [tagText] using marked) plainB'.2
      | some text' =>
        obtain ⟨left, right⟩ := split_at_char plainB.2 plainB'.2 texts
        exact ⟨left, by rw [tagText, tagText, right]⟩
  exact ⟨name_inj (String.toList_inj.1 names), String.toList_inj.1 sources,
    String.toList_inj.1 targets.1, tagText_inj targets.2⟩

/-- Edges with the same id have the same kind, ends and tag. -/
def TellsEdges (graph : Graph) : Prop :=
  ∀ (kind kind' : EdgeKind) (source target source' target' : Nat) (a b a' b' : Node)
    (tag tag' : Option String), graph.nodes[source]? = some a → graph.nodes[target]? = some b →
    graph.nodes[source']? = some a' → graph.nodes[target']? = some b' →
    edgeId kind a.id b.id tag = edgeId kind' a'.id b'.id tag' →
    kind = kind' ∧ source = source' ∧ target = target' ∧ tag = tag'

/-- The ids of the nodes of a graph are plain. -/
def PlainIds (graph : Graph) : Prop :=
  ∀ (handle : Nat) (node : Node), graph.nodes[handle]? = some node → Plain node.id

theorem plainIds_of_nodes {graph : Graph} {nodes : Array Node} (same : graph.nodes = nodes)
    (all : ∀ node ∈ nodes.toList, Plain node.id) : graph.PlainIds := by
  intro handle node found
  rw [same] at found
  exact all node (Array.mem_toList_iff.2 (Array.mem_of_getElem? found))

/-- The ids of the nodes of a graph are plain behind a common beginning. -/
def PlainBehind (graph : Graph) (front : String) : Prop :=
  ∀ (handle : Nat) (node : Node), graph.nodes[handle]? = some node →
    ∃ rest, node.id = front ++ rest ∧ Plain rest

namespace WellFormed

variable {graph : Graph} (formed : graph.WellFormed)
include formed

/-- Nodes of the same id are one node. -/
theorem handle_unique {handle handle' : Nat} {node node' : Node}
    (found : graph.nodes[handle]? = some node) (found' : graph.nodes[handle']? = some node')
    (same : node.id = node'.id) : handle = handle' := by
  have first := (formed.nodes_indexed node.id handle).2 ⟨node, found, rfl⟩
  have second := (formed.nodes_indexed node.id handle').2 ⟨node', found', same.symm⟩
  exact Option.some.inj (first.symm.trans second)

theorem tellsEdges_of_plainBehind {front : String} (plain : graph.PlainBehind front) :
    graph.TellsEdges := by
  intro kind kind' source target source' target' a b a' b' tag tag' left right left' right' same
  obtain ⟨restA, idA, plainA⟩ := plain _ _ left
  obtain ⟨restB, idB, plainB⟩ := plain _ _ right
  obtain ⟨restA', idA', plainA'⟩ := plain _ _ left'
  obtain ⟨restB', idB', plainB'⟩ := plain _ _ right'
  rw [idA, idB, idA', idB'] at same
  obtain ⟨kinds, rfl, rfl, tags⟩ := edgeId_inj plainA plainB plainA' plainB' same
  exact ⟨kinds, formed.handle_unique left left' (idA.trans idA'.symm),
    formed.handle_unique right right' (idB.trans idB'.symm), tags⟩

theorem tellsEdges_of_plain (plain : graph.PlainIds) : graph.TellsEdges := by
  have behind : graph.PlainBehind "" := fun handle node found =>
    ⟨node.id, String.empty_append.symm, plain handle node found⟩
  exact formed.tellsEdges_of_plainBehind behind

end WellFormed

/-! ## Adding connections -/

/-- The graph has an edge of a kind between two nodes, under a tag. -/
def HasEdge (graph : Graph) (kind : EdgeKind) (source target : Nat) (tag : Option String) : Prop :=
  ∃ edge ∈ graph.edges, edge.kind = kind ∧ edge.source = source ∧ edge.target = target ∧
    ∃ from_ to_, graph.nodes[source]? = some from_ ∧ graph.nodes[target]? = some to_ ∧
      edge.id = edgeId kind from_.id to_.id tag

section Connect

variable {graph : Graph} {kind : EdgeKind} {source target : Nat} {tag : Option String}

theorem mem_edges {graph : Graph} {edge : Edge} :
    edge ∈ graph.edges ↔ ∃ (handle : Nat) (arc : Arc), graph.arcs[handle]? = some arc ∧
      arc.edge = edge := by
  simp only [edges, List.mem_map, Array.mem_toList_iff, Array.mem_iff_getElem?]
  constructor
  · rintro ⟨arc, ⟨handle, held⟩, same⟩
    exact ⟨handle, arc, held, same⟩
  · rintro ⟨handle, arc, held, same⟩
    exact ⟨arc, ⟨handle, held⟩, same⟩

/-- An edge stays while a graph grows. -/
theorem HasEdge.kept {after : Graph} (has : graph.HasEdge kind source target tag)
    (kept : graph.Kept after) : after.HasEdge kind source target tag := by
  obtain ⟨edge, inside, kinds, sources, targets, from_, to_, left, right, id⟩ := has
  obtain ⟨handle, arc, held, rfl⟩ := mem_edges.1 inside
  obtain ⟨from', left', same, -⟩ := kept.nodes source from_ left
  obtain ⟨to', right', same', -⟩ := kept.nodes target to_ right
  exact ⟨arc.edge, mem_edges.2 ⟨handle, arc, kept.arcs handle arc held, rfl⟩, kinds, sources, targets,
    from', to', left', right', by rw [same, same', id]⟩

/-- An edge after one was added is an old one or the one that was added. -/
theorem arc_of_withEdge {properties : Properties} {handle : Nat} {arc : Arc}
    (found : (graph.withEdge source target kind tag properties).arcs[handle]? = some arc) :
    graph.arcs[handle]? = some arc ∨ arc.edge.kind = kind ∧ arc.edge.source = source ∧
      arc.edge.target = target ∧ arc.edge.properties = properties := by
  unfold withEdge addEdge at found
  cases left : graph.nodes[source]? with
  | none =>
    rw [left] at found
    exact .inl found
  | some from_ =>
    cases right : graph.nodes[target]? with
    | none =>
      rw [left, right] at found
      exact .inl found
    | some to_ =>
      rw [left, right] at found
      simp only [addArc] at found
      split at found
      · exact .inl found
      · rw [Array.getElem?_push] at found
        split at found
        · obtain rfl := Option.some.inj found
          exact .inr ⟨rfl, rfl, rfl, rfl⟩
        · exact .inl found

/-- An edge after connections were added is an old one or what a connection asks for. -/
theorem edge_of_connectAll {connections : List Connection} {edge : Edge}
    (inside : edge ∈ (graph.connectAll connections).edges) : edge ∈ graph.edges ∨
      ∃ connection ∈ connections, edge.kind = connection.kind ∧ edge.source = connection.source ∧
        edge.target = connection.target ∧ edge.properties = connection.properties := by
  induction connections generalizing graph with
  | nil => exact .inl inside
  | cons connection rest ih =>
    rcases @ih (graph.connect connection) inside with first | ⟨other, there, same⟩
    · obtain ⟨handle, arc, held, rfl⟩ := mem_edges.1 first
      rcases arc_of_withEdge held with old | same
      · exact .inl (mem_edges.2 ⟨handle, arc, old, rfl⟩)
      · exact .inr ⟨connection, List.mem_cons_self, same⟩
    · exact .inr ⟨other, List.mem_cons_of_mem _ there, same⟩

/-- In a well-formed graph every edge is under some tag. -/
theorem WellFormed.hasEdge_of_mem (formed : graph.WellFormed) {edge : Edge}
    (inside : edge ∈ graph.edges) :
    ∃ tag, graph.HasEdge edge.kind edge.source edge.target tag := by
  obtain ⟨handle, arc, held, rfl⟩ := mem_edges.1 inside
  obtain ⟨from_, to_, tag, left, right, id⟩ := formed.named handle arc held
  obtain ⟨start, goal⟩ := formed.ends handle arc held
  exact ⟨tag, arc.edge, inside, rfl, rfl, rfl, from_, to_, start ▸ left, goal ▸ right, id⟩

/-- Adding an edge gives that edge and no others. -/
theorem WellFormed.hasEdge_addArc (formed : graph.WellFormed) (tells : graph.TellsEdges)
    {edge : Edge} {from_ to_ : Node} (left : graph.nodes[edge.source]? = some from_)
    (right : graph.nodes[edge.target]? = some to_)
    (named : edge.id = edgeId edge.kind from_.id to_.id tag) (kind' : EdgeKind)
    (source' target' : Nat) (tag' : Option String) :
    (graph.addArc edge).1.HasEdge kind' source' target' tag' ↔
      graph.HasEdge kind' source' target' tag' ∨
        edge.kind = kind' ∧ edge.source = source' ∧ edge.target = target' ∧ tag = tag' := by
  unfold Graph.addArc
  cases found : graph.edgeIndex[edge.id]? with
  | some handle =>
    -- An edge of this id is there already, so it has this very kind, ends and tag.
    obtain ⟨arc, held, id⟩ := (formed.edges_indexed _ handle).1 found
    obtain ⟨start, goal, other, left', right', id'⟩ := formed.named handle arc held
    obtain ⟨sameStart, sameGoal⟩ := formed.ends handle arc held
    obtain ⟨kinds, sources, targets, rfl⟩ := tells _ _ _ _ _ _ _ _ _ _ _ _ left right left' right'
      ((named.symm.trans id.symm).trans id')
    refine ⟨.inl, fun has => has.elim (fun old => old) ?_⟩
    rintro ⟨rfl, rfl, rfl, rfl⟩
    exact ⟨arc.edge, mem_edges.2 ⟨handle, arc, held, rfl⟩, kinds.symm, sameStart.trans sources.symm,
      sameGoal.trans targets.symm, from_, to_, left, right, id.trans named⟩
  | none =>
    have added : ∀ other, other ∈ (graph.arcs.push ⟨edge.source, edge.target, edge⟩).toList.map
        Arc.edge ↔ other ∈ graph.edges ∨ other = edge := by
      intro other
      simp [edges]
    constructor
    · rintro ⟨other, inside, kinds, sources, targets, start, goal, left', right', id⟩
      rcases (added other).1 inside with old | rfl
      · exact .inl ⟨other, old, kinds, sources, targets, start, goal, left', right', id⟩
      · obtain ⟨-, -, -, tags⟩ := tells _ _ _ _ _ _ _ _ _ _ _ _ left right left' right'
          (named.symm.trans id)
        exact .inr ⟨kinds, sources, targets, tags⟩
    · rintro (⟨other, old, rest⟩ | ⟨rfl, rfl, rfl, rfl⟩)
      · exact ⟨other, (added other).2 (.inl old), rest⟩
      · exact ⟨edge, (added edge).2 (.inr rfl), rfl, rfl, rfl, from_, to_, left, right, named⟩

end Connect

/-- Both ends of a connection are nodes of the graph. -/
def Joins (graph : Graph) (connection : Connection) : Prop :=
  connection.source < graph.nodes.size ∧ connection.target < graph.nodes.size

/-- What joins nodes of a graph joins nodes of every graph with as many nodes. -/
theorem Joins.of_size {graph after : Graph} {connection : Connection}
    (joins : graph.Joins connection) (same : after.nodes.size = graph.nodes.size) :
    after.Joins connection := by
  unfold Joins
  rw [same]
  exact joins

/-- Adding connections between nodes of the graph gives an edge for each of them, and no others. -/
theorem WellFormed.hasEdge_connectAll {graph : Graph} (formed : graph.WellFormed)
    (tells : graph.TellsEdges) {connections : List Connection}
    (joins : ∀ connection ∈ connections, graph.Joins connection) (kind : EdgeKind)
    (source target : Nat) (tag : Option String) :
    (graph.connectAll connections).HasEdge kind source target tag ↔
      graph.HasEdge kind source target tag ∨ ∃ connection ∈ connections,
        connection.kind = kind ∧ connection.source = source ∧ connection.target = target ∧
          connection.tag = tag := by
  induction connections generalizing graph with
  | nil => simp [Graph.connectAll]
  | cons connection rest ih =>
    obtain ⟨left, right⟩ := joins connection List.mem_cons_self
    have same : (graph.connect connection).nodes = graph.nodes := nodes_withEdge _ _ _ _ _ _
    have whole : (graph.connect connection).WellFormed := formed.withEdge _ _ _ _ _
    have telling : (graph.connect connection).TellsEdges := by
      unfold TellsEdges
      rw [same]
      exact tells
    have step : (graph.connect connection).HasEdge kind source target tag ↔
        graph.HasEdge kind source target tag ∨ connection.kind = kind ∧
          connection.source = source ∧ connection.target = target ∧ connection.tag = tag := by
      have first : graph.nodes[connection.source]? = some graph.nodes[connection.source] :=
        Array.getElem?_eq_getElem left
      have second : graph.nodes[connection.target]? = some graph.nodes[connection.target] :=
        Array.getElem?_eq_getElem right
      unfold connect Graph.withEdge addEdge
      rw [first, second]
      exact formed.hasEdge_addArc tells first second rfl kind source target tag
    have onward : graph.connectAll (connection :: rest) =
        (graph.connect connection).connectAll rest := rfl
    rw [onward, ih whole telling, step, or_assoc, List.exists_mem_cons_iff]
    exact fun other there =>
      (joins other (List.mem_cons_of_mem _ there)).of_size (congrArg Array.size same)

end Graph

end CodeGraph

import CodeGraph.Proofs.Calls.Reach
import CodeGraph.Proofs.Graph.Search

/-!
# Calls within a file

What the graph of a file shows of the calls in it is exactly what the names in the tree say
(`Graph.ShowsCalls`, `Graph.showsCalls_ofFile`): the calls that are resolved, the edges between calls and the
functions that they may reach, and the callers of a name. The functions are told by the tree alone
(`SourceFile.Reaches`): a plain call reaches the function that is declared first in the nearest scope that
declares its name, or else every function of that name that is no method; a call of a member reaches the
methods of classes, and `new` the constructors.
-/

namespace CodeGraph

namespace Facts

variable {file : SourceFile} {facts : Facts} {call : CallFact}

/-! ## Edges of calls -/

/-- The connections of a call are those with the functions that it may reach. -/
theorem mem_callEdges {nameOf : Nat → String} {connection : Connection} :
    connection ∈ (Facts.of file).callEdges nameOf call ↔ ∃ target fact,
      Candidate file call target ∧ (Facts.of file).function? target = some fact ∧
        (siteOf call).Yields nameOf
          { node := target, params := fact.params.toList, returns := fact.returns.toList }
          connection := by
  simp only [callEdges, List.mem_flatMap, List.mem_filterMap, mem_candidates, target?,
    Option.map_eq_some_iff, CallSite.mem_edges]
  constructor
  · rintro ⟨made, ⟨target, candidate, fact, known, rfl⟩, inside⟩
    obtain ⟨other, known', same⟩ := candidate.function?
    obtain rfl := Option.some.inj (known.symm.trans known')
    exact ⟨target, fact, candidate, known, same ▸ inside⟩
  · rintro ⟨target, fact, candidate, known, inside⟩
    obtain ⟨other, known', same⟩ := candidate.function?
    obtain rfl := Option.some.inj (known.symm.trans known')
    exact ⟨_, ⟨target, candidate, fact, known, rfl⟩, same.symm ▸ inside⟩

/-- The stages other than that of calls ask for no edge that belongs to a call: none of the two kinds of
edges that calls alone have, and none that brings an argument to a parameter. They ask for no containment
either, as the walk has seen to that. -/
structure Foreign (facts : Facts) (connection : Connection) : Prop where
  child : connection.kind ≠ .child
  call : connection.kind ≠ .call
  result : connection.kind ≠ .result
  via : connection.properties.text? "via" ≠ some "argument"
  flow : connection.kind = .flow → facts.graph.KindIn connection.source [.call] →
    ¬ facts.graph.KindIn connection.target [.param]

theorem foreign_control {connection : Connection}
    (inside : connection ∈ facts.stages.control.flatMap Control.Link.connections) :
    Foreign facts connection := by
  obtain ⟨link, -, here⟩ := List.mem_flatMap.1 inside
  have plain : connection.properties.text? "via" ≠ some "argument" := by
    simp only [Control.Link.connections, List.mem_cons, List.not_mem_nil, or_false] at here
    cases label : link.label with
    | none =>
      have missing : Properties.empty.text? "via" ≠ some "argument" := by decide
      rw [label] at here
      rcases here with rfl | rfl <;> exact missing
    | some text =>
      have elsewhere : (Properties.empty.insert "label" (.text text.text)).text? "via" ≠
          some "argument" := by
        rw [Properties.text?_insert_of_ne _ _ (by decide)]
        decide
      rw [label] at here
      rcases here with rfl | rfl <;> exact elsewhere
  have turns : connection.kind = .successor ∨ connection.kind = .predecessor := by
    simp only [Control.Link.connections, List.mem_cons, List.not_mem_nil, or_false] at here
    rcases here with rfl | rfl
    · exact .inl rfl
    · exact .inr rfl
  have kinds : connection.kind ≠ .child ∧ connection.kind ≠ .call ∧ connection.kind ≠ .result ∧
      connection.kind ≠ .flow := by
    rcases turns with kind | kind <;> rw [kind] <;> decide
  obtain ⟨child, call, result, flow⟩ := kinds
  exact ⟨child, call, result, plain, fun flows => absurd flows flow⟩

theorem kind_of_defined? {access : Access} {binding : Nat}
    (writes : access.defined? = some binding) : access.kind = .write := by
  unfold Access.defined? at writes
  split at writes
  · assumption
  · cases writes

theorem kind_of_used? {access : Access} {binding : Nat}
    (reads : access.used? = some binding) : access.kind = .read := by
  unfold Access.used? at reads
  split at reads
  · assumption
  · cases reads

/-- A definition is made at a site where there are writes, or by a parameter. -/
theorem Sound.kind_of_made (sound : Sound file facts) {definition : Definition}
    (made : DataFlow.Made facts.regions.toList definition) :
    facts.graph.KindIn definition.site [.stmt, .expr, .cls, .param] := by
  obtain ⟨region, inside, made⟩ := made
  obtain ⟨number, found⟩ := List.getElem?_of_mem inside
  have held := sound.regions number region (by simpa using found)
  rcases made with ⟨param, same⟩ | ⟨access, there, writes, same⟩
  · exact same ▸ (held.params _ param).mono (by decide)
  · have site := (held.accesses access there).site
    rw [kind_of_defined? writes] at site
    exact same ▸ site.mono (by decide)

theorem Sound.foreign_access (sound : Sound file facts) {connection : Connection}
    (inside : connection ∈ facts.stages.access) : Foreign facts connection := by
  obtain ⟨number, region, place, earlier, access, found, ⟨later, split⟩, asks⟩ :=
    (DataFlow.mem_edges sound.each_region.1).1 inside
  cases asks with
  | defines _ => exact ⟨nofun, nofun, nofun, nofun, nofun⟩
  | uses _ => exact ⟨nofun, nofun, nofun, nofun, nofun⟩
  | @flow binding site _ live _ =>
    refine ⟨nofun, nofun, nofun, ?via, fun _ isCall => absurd isCall ?source⟩
    case via =>
      rw [Properties.text?_insert_of_ne _ _ (by decide)]
      exact nofun
    case source =>
      -- What is defined is defined by a parameter or by a write, and calls write nothing.
      have made := DataFlow.made_of_liveAfter (List.mem_of_getElem? found) split live
      exact (sound.kind_of_made made).apart (by decide)

theorem Sound.foreign_results (sound : Sound file facts) {connection : Connection}
    (inside : connection ∈ facts.stages.results) : Foreign facts connection := by
  obtain ⟨call, listed, here⟩ := List.mem_flatMap.1 inside
  obtain ⟨number, found⟩ := List.getElem?_of_mem listed
  rw [Array.getElem?_toList] at found
  obtain ⟨consumer, given, rfl⟩ := List.mem_map.1 here
  have held := (sound.calls number call found).consumer consumer
    (Option.mem_toList.1 (List.mem_filter.1 given).1)
  refine ⟨nofun, nofun, nofun, ?_, fun _ _ isParam => ?_⟩
  · simp [Properties.text?, PropertyValue.text?]
  · exact held.apart (by decide) isParam

/-- What the stages ask for belongs to a call, or to none. -/
theorem Sound.origin (sound : Sound file facts) {connection : Connection}
    (inside : connection ∈ facts.connections) : Foreign facts connection ∨
      ∃ call ∈ facts.calls, connection ∈ facts.callEdges facts.graph.nameOf call := by
  simp only [connections, List.mem_append, or_assoc] at inside
  rcases inside with control | access | results | calls
  · exact .inl (foreign_control control)
  · exact .inl (sound.foreign_access access)
  · exact .inl (sound.foreign_results results)
  · obtain ⟨call, listed, here⟩ := List.mem_flatMap.1 calls
    exact .inr ⟨call, Array.mem_toList_iff.1 listed, here⟩

theorem mem_connections_of_call {connection : Connection} (listed : call ∈ facts.calls)
    (inside : connection ∈ facts.callEdges facts.graph.nameOf call) :
    connection ∈ facts.connections :=
  List.mem_append_right _ (List.mem_flatMap.2 ⟨call, Array.mem_toList_iff.2 listed, inside⟩)

/-- An edge of the graph is one of containment, without properties, or what the stages ask for. -/
theorem Sound.edge_of_assemble (sound : Sound file facts) {edge : Edge}
    (inside : edge ∈ facts.assemble.edges) : edge.kind = .child ∧ edge.properties = {} ∨
      ∃ connection ∈ facts.connections, edge.kind = connection.kind ∧
        edge.source = connection.source ∧ edge.target = connection.target ∧
        edge.properties = connection.properties := by
  have linked : ∀ (calls : List CallFact) (graph : Graph),
      edge ∈ (calls.foldl (facts.linkCall facts.graph.nameOf) graph).edges → edge ∈ graph.edges ∨
        ∃ connection ∈ calls.flatMap (facts.callEdges facts.graph.nameOf),
          edge.kind = connection.kind ∧ edge.source = connection.source ∧
          edge.target = connection.target ∧ edge.properties = connection.properties := by
    intro calls
    induction calls with
    | nil => exact fun graph there => .inl there
    | cons call rest ih =>
      intro graph there
      rcases ih (facts.linkCall facts.graph.nameOf graph call) there with
        first | ⟨connection, listed, same⟩
      · rcases Graph.edge_of_connectAll first with old | ⟨connection, listed, same⟩
        · exact .inl old
        · exact .inr ⟨connection, List.mem_append_left _ listed, same⟩
      · exact .inr ⟨connection, List.mem_append_right _ listed, same⟩
  unfold assemble at inside
  rw [← Array.foldl_toList] at inside
  simp only [connections, List.mem_append]
  rcases linked _ _ inside with flowing | ⟨connection, listed, same⟩
  · rcases Graph.edge_of_connectAll flowing with accessed | ⟨connection, listed, same⟩
    · rcases Graph.edge_of_connectAll accessed with controlled | ⟨connection, listed, same⟩
      · rcases Graph.edge_of_connectAll controlled with walked | ⟨connection, listed, same⟩
        · obtain ⟨handle, arc, held, rfl⟩ := Graph.mem_edges.1 walked
          exact .inl (sound.children handle arc held)
        · exact .inr ⟨connection, .inl (.inl (.inl listed)), same⟩
      · exact .inr ⟨connection, .inl (.inl (.inr listed)), same⟩
    · exact .inr ⟨connection, .inl (.inr listed), same⟩
  · exact .inr ⟨connection, .inr listed, same⟩

/-! ## The graph of a file -/

/-- The containment in the graph of a file is that of the walk. -/
theorem hasEdge_child {present : Instant} {source target : Nat} {tag : Option String} :
    (Graph.ofFile present file).HasEdge .child source target tag ↔
      (Facts.of file).graph.HasEdge .child source target tag := by
  rw [hasEdge_ofFile, or_iff_left_iff_imp]
  rintro ⟨connection, inside, kind, -⟩
  rcases (sound_of file).origin inside with foreign | ⟨call, -, here⟩
  · exact absurd kind foreign.child
  · obtain ⟨goal, fact, -, -, yields⟩ := mem_callEdges.1 here
    cases yields <;> cases kind

/-- The edges that calls alone have are those between calls and the functions that they may reach. -/
theorem hasEdge_of_calls (present : Instant) (file : SourceFile) {kind : EdgeKind}
    (own : kind = .call ∨ kind = .result) {source target : Nat} {tag : Option String} :
    (Graph.ofFile present file).HasEdge kind source target tag ↔
      ∃ call ∈ (Facts.of file).calls, ∃ goal fact connection, Candidate file call goal ∧
        (Facts.of file).function? goal = some fact ∧
        (siteOf call).Yields (Facts.of file).graph.nameOf
          { node := goal, params := fact.params.toList, returns := fact.returns.toList } connection ∧
        connection.kind = kind ∧ connection.source = source ∧ connection.target = target ∧
        connection.tag = tag := by
  have walked : ¬ (Facts.of file).graph.HasEdge kind source target tag := by
    rintro ⟨edge, inside, rfl, -⟩
    obtain ⟨handle, arc, held, rfl⟩ := Graph.mem_edges.1 inside
    rw [((sound_of file).children handle arc held).1] at own
    rcases own with own | own <;> cases own
  rw [hasEdge_ofFile, or_iff_right walked]
  constructor
  · rintro ⟨connection, inside, rfl, rest⟩
    rcases (sound_of file).origin inside with foreign | ⟨call, listed, here⟩
    · rcases own with own | own
      · exact absurd own foreign.call
      · exact absurd own foreign.result
    · obtain ⟨goal, fact, candidate, known, yields⟩ := mem_callEdges.1 here
      exact ⟨call, listed, goal, fact, connection, candidate, known, yields, rfl, rest⟩
  · rintro ⟨call, listed, goal, fact, connection, candidate, known, yields, rest⟩
    exact ⟨connection, mem_connections_of_call listed
      (mem_callEdges.2 ⟨goal, fact, candidate, known, yields⟩), rest⟩

/-- A function calls what the calls inside it may reach. -/
theorem hasEdge_call {present : Instant} {source target : Nat} {tag : Option String} :
    (Graph.ofFile present file).HasEdge .call source target tag ↔ tag = none ∧
      ∃ call ∈ (Facts.of file).calls, call.caller = some source ∧ Candidate file call target := by
  rw [hasEdge_of_calls present file (.inl rfl)]
  constructor
  · rintro ⟨call, listed, goal, fact, connection, candidate, -, yields, kind, rfl, rfl, rfl⟩
    cases yields with
    | call around => exact ⟨rfl, call, listed, around, candidate⟩
    | result _ => cases kind
    | returned _ _ => cases kind
    | argument _ _ => cases kind
  · rintro ⟨rfl, call, listed, around, candidate⟩
    obtain ⟨fact, known, -⟩ := candidate.function?
    exact ⟨call, listed, target, fact, _, candidate, known, .call around, rfl, rfl, rfl, rfl⟩

/-- What a call may reach returns its value to the call, if the value is used. -/
theorem hasEdge_result {present : Instant} {source target : Nat} {tag : Option String} :
    (Graph.ofFile present file).HasEdge .result source target tag ↔ tag = none ∧
      ∃ call ∈ (Facts.of file).calls, call.consumer.isSome = true ∧ call.node = target ∧
        Candidate file call source := by
  rw [hasEdge_of_calls present file (.inr rfl)]
  constructor
  · rintro ⟨call, listed, goal, fact, connection, candidate, -, yields, kind, rfl, rfl, rfl⟩
    cases yields with
    | call _ => cases kind
    | result consumed => exact ⟨rfl, call, listed, consumed, rfl, candidate⟩
    | returned _ _ => cases kind
    | argument _ _ => cases kind
  · rintro ⟨rfl, call, listed, consumed, rfl, candidate⟩
    obtain ⟨fact, known, -⟩ := candidate.function?
    exact ⟨call, listed, source, fact, _, candidate, known, .result consumed, rfl, rfl, rfl, rfl⟩

theorem kind_of_calls (listed : call ∈ (Facts.of file).calls) :
    call.HeldBy (Facts.of file).graph := by
  obtain ⟨number, found⟩ := Array.mem_iff_getElem?.1 listed
  exact (sound_of file).calls number call found

theorem held_of_function? {node : Nat} {fact : FunctionFact}
    (known : (Facts.of file).function? node = some fact) : fact.HeldBy (Facts.of file).graph := by
  obtain ⟨number, -, found⟩ := Option.bind_eq_some_iff.1 known
  exact (sound_of file).functions number fact found

/-- Data that flows from a call to a parameter flows there as an argument, whatever asks for it. -/
theorem via_argument {connection : Connection} (asked : connection ∈ (Facts.of file).connections)
    (flow : connection.kind = .flow)
    (isCall : (Facts.of file).graph.KindIn connection.source [.call])
    (isParam : (Facts.of file).graph.KindIn connection.target [.param]) :
    connection.properties.text? "via" = some "argument" := by
  rcases (sound_of file).origin asked with foreign | ⟨call, listed, here⟩
  · exact absurd isParam (foreign.flow flow isCall)
  · obtain ⟨goal, fact, -, known, yields⟩ := mem_callEdges.1 here
    cases yields with
    | call _ => cases flow
    | result _ => cases flow
    | returned _ returned =>
      exact absurd isCall (((held_of_function? known).returns _ returned).apart (by decide))
    | argument _ _ =>
      rw [Properties.text?_insert_of_ne _ _ (by decide)]
      simp [Properties.text?, PropertyValue.text?]

/-- What flows as an argument flows from a call to a parameter that it fills. -/
theorem argument_of_edge {present : Instant} {edge : Edge}
    (inside : edge ∈ (Graph.ofFile present file).edges)
    (via : edge.properties.text? "via" = some "argument") :
    ∃ call ∈ (Facts.of file).calls, call.node = edge.source ∧ ∃ goal fact position,
      Candidate file call goal ∧ (Facts.of file).function? goal = some fact ∧
      (position, edge.target) ∈ fact.params ∧ position < call.argumentCount := by
  rw [Graph.edges_ofFile] at inside
  rcases (sound_of file).edge_of_assemble inside with
    ⟨-, none⟩ | ⟨connection, asked, -, from_, to_, same⟩
  · rw [none] at via
    cases via
  · rw [same] at via
    rcases (sound_of file).origin asked with foreign | ⟨call, listed, here⟩
    · exact absurd via foreign.via
    · obtain ⟨goal, fact, candidate, known, yields⟩ := mem_callEdges.1 here
      cases yields with
      | call _ =>
        rw [Properties.text?_insert_of_ne _ _ (by decide)] at via
        cases via
      | result _ => cases via
      | returned _ _ => simp [Properties.text?, PropertyValue.text?] at via
      | argument there less =>
        exact ⟨call, listed, from_.symm, goal, fact, _, candidate, known,
          to_ ▸ Array.mem_toList_iff.1 there, less⟩

/-- An argument of a call goes to the parameters that it fills, of the functions that the call may
reach. -/
theorem argument_iff {present : Instant} {source param : Nat} :
    (∃ edge ∈ (Graph.ofFile present file).edges,
      edge.properties.text? "via" = some "argument" ∧ edge.source = source ∧ edge.target = param) ↔
      ∃ call ∈ (Facts.of file).calls, call.node = source ∧ ∃ goal fact position,
        Candidate file call goal ∧ (Facts.of file).function? goal = some fact ∧
        (position, param) ∈ fact.params ∧ position < call.argumentCount := by
  constructor
  · rintro ⟨edge, inside, via, rfl, rfl⟩
    exact argument_of_edge inside via
  · rintro ⟨call, listed, rfl, goal, fact, position, candidate, known, there, less⟩
    have isCall := (kind_of_calls listed).node
    have isParam := (held_of_function? known).params _ (Array.mem_toList_iff.2 there)
    have asked := mem_connections_of_call listed (mem_callEdges.2 ⟨goal, fact, candidate, known,
      .argument (Array.mem_toList_iff.2 there) less⟩)
    obtain ⟨edge, inside, kind, from_, to_, -⟩ :=
      (hasEdge_ofFile present file .flow _ _ _).2 (.inr ⟨_, asked, rfl, rfl, rfl, rfl⟩)
    refine ⟨edge, inside, ?_, from_, to_⟩
    rw [Graph.edges_ofFile] at inside
    -- The edge that is there may have come of another connection, but only of one of this kind.
    rcases (sound_of file).edge_of_assemble inside with
      ⟨child, -⟩ | ⟨connection, asked', kind', from', to', same⟩
    · rw [kind] at child
      cases child
    · rw [same]
      exact via_argument asked' (kind'.symm.trans kind)
        ((from_.symm.trans from') ▸ isCall) ((to_.symm.trans to') ▸ isParam)

/-! ## Nodes of calls and functions -/

/-- The node of a call is written like a call of the tree, and marked with whether the last fact about it
reaches anything. -/
theorem call_of_node {present : Instant} {handle : Nat} {node : Node}
    (found : (Graph.ofFile present file).nodes[handle]? = some node) (kind : node.kind = .call) :
    ∃ cursor call, file.HasCall cursor ∧ CallFact.LastAt (Facts.of file).calls.toList handle call ∧
      node = (callNode file cursor (callSyntax file cursor)).set "resolved"
        (.flag ((Facts.of file).isResolved call)) := by
  rw [Graph.nodes_ofFile] at found
  obtain ⟨old, held, marked⟩ := node_of_assemble found
  rcases marked with ⟨apart, rfl⟩ | ⟨call, last, rfl⟩
  · obtain ⟨-, call, listed, same⟩ := (recorded_of file).call handle node held kind
    exact absurd same (apart call (Array.mem_toList_iff.2 listed))
  · obtain ⟨⟨cursor, has, rfl⟩, -⟩ := (recorded_of file).call handle old held kind
    exact ⟨cursor, call, has, last, rfl⟩

theorem isResolved_iff : (Facts.of file).isResolved call = true ↔
    ∃ target, Candidate file call target := by
  rw [isResolved, Bool.not_eq_true', List.isEmpty_eq_false_iff_exists_mem]
  exact exists_congr fun target => mem_candidates

/-- The node of a call is marked with whether the call may reach anything. -/
theorem resolved_iff {present : Instant} {handle : Nat} {node : Node}
    (found : (Graph.ofFile present file).nodes[handle]? = some node) (kind : node.kind = .call) :
    ∃ call, CallFact.LastAt (Facts.of file).calls.toList handle call ∧
      (node.properties.flag? "resolved" = some true ↔ ∃ target, Candidate file call target) := by
  obtain ⟨cursor, call, -, last, rfl⟩ := call_of_node found kind
  refine ⟨call, last, ?_⟩
  rw [Node.set, Properties.flag?, Properties.get?_insert_self, Option.bind_some,
    PropertyValue.flag?, Option.some.injEq, isResolved_iff]

/-- There is a fact about each function of the graph, which tells its name and whether it is a method. -/
theorem function_of_node {present : Instant} {handle : Nat} {node : Node}
    (found : (Graph.ofFile present file).nodes[handle]? = some node) (kind : node.kind = .func) :
    ∃ fact ∈ (Facts.of file).functions, fact.node = handle ∧ fact.name = node.name ∧
      fact.isMethod = node.properties.isSet "isMethod" := by
  rw [Graph.nodes_ofFile] at found
  obtain ⟨old, held, marked⟩ := node_of_assemble found
  rcases marked with ⟨-, rfl⟩ | ⟨call, last, rfl⟩
  · obtain ⟨fact, listed, same⟩ := List.mem_map.1 ((recorded_of file).function handle node held kind)
    injection same with node name isMethod
    exact ⟨fact, Array.mem_toList_iff.1 listed, node, name, isMethod⟩
  · -- What is marked is a call.
    have isCall := (kind_of_calls (Array.mem_toList_iff.1 last.mem)).node
    rw [last.node] at isCall
    have isFunction : (Facts.of file).graph.KindIn handle [.func] :=
      ⟨old, held, List.mem_singleton.2 kind⟩
    exact absurd isFunction (isCall.apart (by decide))

end Facts

/-- The function at a node is the one around a visit. -/
def Graph.IsAround (graph : Graph) (visit : Visit) (caller : Nat) : Prop :=
  ∃ id, visit.look.home.function = some id ∧ graph.IdAt caller id

/-- The function at a node is one that a call may reach. -/
def Graph.MayReach (graph : Graph) (file : SourceFile) (visit : Visit) (cursor : Cursor) (target : Nat) :
    Prop :=
  ∃ id, file.Reaches visit cursor id ∧ graph.IdAt target id

/-- What the graph of a file shows of the calls in the file is exactly what the names in the tree say. -/
structure Graph.ShowsCalls (graph : Graph) (file : SourceFile) : Prop where
  /-- Each call of the file has a node. -/
  calls : ∀ visit cursor, (visit, cursor) ∈ file.calls → ∃ node,
    graph.IdAt node (file.callId cursor) ∧ graph.KindIn node [.call]
  /-- The function around a call has a node, which holds that of the call with no other function between. -/
  around : ∀ visit cursor, (visit, cursor) ∈ file.calls → ∀ id, visit.look.home.function = some id →
    ∃ caller node, graph.IdAt caller id ∧ graph.KindIn caller [.func] ∧
      graph.IdAt node (file.callId cursor) ∧ graph.Holds caller node
  /-- Each function of the file has a node. -/
  entered : ∀ function entry, (function, entry) ∈ file.functions → ∃ node,
    graph.IdAt node entry.node.id ∧ graph.KindIn node [.func]
  /-- Each node of a function tells of a function of the file. -/
  functions : ∀ (handle : Nat) (node : Node), graph.nodes[handle]? = some node → node.kind = .func →
    ∃ function entry, (function, entry) ∈ file.functions ∧ entry.node.id = node.id ∧
      entry.node.name = node.name ∧
      entry.node.properties.isSet "isMethod" = node.properties.isSet "isMethod"
  /-- Whatever a call may reach is a function of the graph. -/
  reached : ∀ visit cursor, (visit, cursor) ∈ file.calls → ∀ id, file.Reaches visit cursor id →
    ∃ target, graph.IdAt target id ∧ graph.KindIn target [.func]
  /-- A call is marked as resolved if there is a function that it may reach. -/
  resolved : ∀ (handle : Nat) (node : Node), graph.nodes[handle]? = some node → node.kind = .call →
    ∃ visit cursor, file.call? node.id = some (visit, cursor) ∧
      (node.properties.flag? "resolved" = some true ↔ ∃ id, file.Reaches visit cursor id)
  /-- A function calls what the calls inside it may reach. -/
  call : ∀ source target tag, graph.HasEdge .call source target tag ↔ tag = none ∧
    ∃ visit cursor, (visit, cursor) ∈ file.calls ∧ graph.IsAround visit source ∧
      graph.MayReach file visit cursor target
  /-- What a call may reach returns its value to the call, if the value is used. -/
  result : ∀ source target tag, graph.HasEdge .result source target tag ↔ tag = none ∧
    ∃ visit cursor, (visit, cursor) ∈ file.calls ∧ (Facts.callSyntax file cursor).consumed = true ∧
      graph.IdAt target (file.callId cursor) ∧ graph.MayReach file visit cursor source
  /-- An argument of a call goes to the parameter whose position it fills. -/
  argument : ∀ source target, (∃ edge ∈ graph.edges,
      edge.properties.text? "via" = some "argument" ∧ edge.source = source ∧ edge.target = target) ↔
    ∃ visit cursor, (visit, cursor) ∈ file.calls ∧ graph.IdAt source (file.callId cursor) ∧
      ∃ id function entry position param, file.Reaches visit cursor id ∧
        file.function? id = some (function, entry) ∧ (position, param) ∈ file.params function ∧
        graph.IdAt target param ∧ position < (Facts.callSyntax file cursor).arguments.length
  /-- No caller is found twice by a name. -/
  nodup : ∀ name, (graph.findCallers name).Nodup
  /-- The callers that are found by a name are the functions around the calls that may reach a function
  of that name. -/
  callers : ∀ name node, node ∈ graph.findCallers name ↔
    ∃ caller : Nat, graph.nodes[caller]? = some node ∧ ∃ visit cursor,
      (visit, cursor) ∈ file.calls ∧ graph.IsAround visit caller ∧
        ∃ target function, graph.MayReach file visit cursor target ∧
          graph.nodes[target]? = some function ∧ function.name = some name

namespace Facts

variable {present : Instant} {file : SourceFile} {call : CallFact}

/-- The nodes of the graph of a file have the ids that the walk gave them. -/
theorem idAt_ofFile {node : Nat} {id : String} :
    (Graph.ofFile present file).IdAt node id ↔ (Facts.of file).graph.IdAt node id := by
  constructor
  · rintro ⟨held, found, rfl⟩
    rw [Graph.nodes_ofFile] at found
    obtain ⟨old, before, marked⟩ := node_of_assemble found
    rcases marked with ⟨-, rfl⟩ | ⟨call, -, rfl⟩
    · exact ⟨held, before, rfl⟩
    · exact ⟨old, before, rfl⟩
  · exact fun there => there.kept (Graph.kept_ofFile present file)

section Tells

variable {made : Visit × Cursor}
  (tells : call.Tells file (Facts.of file).graph (Visit.chainsOf file file.course) made)

include tells

theorem isAround_iff {caller : Nat} :
    (Graph.ofFile present file).IsAround made.1 caller ↔ call.caller = some caller := by
  simp only [Graph.IsAround, idAt_ofFile]
  constructor
  · rintro ⟨id, home, there⟩
    obtain ⟨other, given, there'⟩ := rel_some_right tells.caller home
    rw [given, (eq_iff_of_idAt there there').2 rfl]
  · intro given
    exact rel_some_left tells.caller given

theorem mayReach_iff {target : Nat} :
    (Graph.ofFile present file).MayReach file made.1 made.2 target ↔ Candidate file call target := by
  simp only [Graph.MayReach, idAt_ofFile]
  exact (candidate_iff tells).symm

theorem idAt_callId_iff {node : Nat} :
    (Graph.ofFile present file).IdAt node (file.callId made.2) ↔ call.node = node := by
  rw [idAt_ofFile]
  exact ⟨fun there => (eq_iff_of_idAt tells.node there).2 rfl, fun same => same ▸ tells.node⟩

theorem fills_iff {param : Nat} :
    (∃ goal fact position, Candidate file call goal ∧ (Facts.of file).function? goal = some fact ∧
      (position, param) ∈ fact.params ∧ position < call.argumentCount) ↔
    ∃ id function entry position name, file.Reaches made.1 made.2 id ∧
      file.function? id = some (function, entry) ∧ (position, name) ∈ file.params function ∧
      (Graph.ofFile present file).IdAt param name ∧
      position < (callSyntax file made.2).arguments.length := by
  constructor
  · rintro ⟨goal, fact, position, candidate, known, listed, less⟩
    obtain ⟨id, reaches, there⟩ := (candidate_iff tells).1 candidate
    obtain ⟨⟨function, entry⟩, held, told⟩ := rel_some_left (rel_function? there) known
    obtain ⟨⟨_, name⟩, given, rfl, spot⟩ := exists_of_mem_left told.params (Array.mem_toList_iff.2 listed)
    exact ⟨id, function, entry, position, name, reaches, held, given, idAt_ofFile.2 spot,
      tells.argumentCount ▸ less⟩
  · rintro ⟨id, function, entry, position, name, reaches, held, given, spot, less⟩
    obtain ⟨goal, there⟩ := exists_idAt_of_reaches tells reaches
    obtain ⟨fact, known, told⟩ := rel_some_right (rel_function? there) held
    obtain ⟨⟨place, node⟩, listed, same, spot'⟩ := exists_of_mem_right told.params given
    obtain rfl : place = position := same
    obtain rfl := (eq_iff_of_idAt (idAt_ofFile.1 spot) spot').2 rfl
    exact ⟨goal, fact, place, (candidate_iff tells).2 ⟨id, reaches, there⟩, known,
      Array.mem_toList_iff.1 listed, tells.argumentCount.symm ▸ less⟩

end Tells

/-- What holds of a call by the tables is what holds of it by the tree. -/
theorem exists_call_iff {P : CallFact → Prop} {Q : Visit → Cursor → Prop}
    (same : ∀ (call : CallFact) (made : Visit × Cursor),
      call.Tells file (Facts.of file).graph (Visit.chainsOf file file.course) made →
        (P call ↔ Q made.1 made.2)) :
    (∃ call ∈ (Facts.of file).calls, P call) ↔
      ∃ visit cursor, (visit, cursor) ∈ file.calls ∧ Q visit cursor := by
  have calls := (tabled_of file).calls
  constructor
  · rintro ⟨call, listed, holds⟩
    obtain ⟨made, there, tells⟩ := exists_of_mem_left calls (Array.mem_toList_iff.2 listed)
    exact ⟨made.1, made.2, there, (same call made tells).1 holds⟩
  · rintro ⟨visit, cursor, there, holds⟩
    obtain ⟨call, listed, tells⟩ := exists_of_mem_right calls there
    exact ⟨call, Array.mem_toList_iff.1 listed, (same call _ tells).2 holds⟩

/-- The last call of an id is that of the last fact about its node. -/
theorem call?_of_lastAt {handle : Nat} {id : String} (there : (Facts.of file).graph.IdAt handle id)
    (last : CallFact.LastAt (Facts.of file).calls.toList handle call) :
    ∃ made, file.call? id = some made ∧
      call.Tells file (Facts.of file).graph (Visit.chainsOf file file.course) made := by
  have found : (Facts.of file).calls.toList.reverse.find? (fun call => call.node = handle) = some call := by
    obtain ⟨front, back, whole, apart⟩ := last.last
    refine List.find?_eq_some_iff_append.2 ⟨decide_eq_true last.node, back.reverse, front.reverse, ?_, ?_⟩
    · rw [whole, List.reverse_append, List.reverse_cons, List.append_assoc, List.singleton_append]
    · intro other listed
      rw [Bool.not_eq_true', decide_eq_false_iff_not]
      exact apart other (List.mem_reverse.1 listed)
  exact rel_some_left (rel_last (tabled_of file).calls fun call made tells =>
    decide_eq_decide.2 (eq_iff_of_idAt tells.node there)) found

end Facts

/-- The graph of a file shows the calls in the file. -/
theorem Graph.showsCalls_ofFile (present : Instant) (file : SourceFile) :
    (Graph.ofFile present file).ShowsCalls file := by
  have formed := Graph.wellFormed_ofFile present file
  have kept := Graph.kept_ofFile present file
  have calls := (Facts.tabled_of file).calls
  have call : ∀ source target tag, (Graph.ofFile present file).HasEdge .call source target tag ↔
      tag = none ∧ ∃ visit cursor, (visit, cursor) ∈ file.calls ∧
        (Graph.ofFile present file).IsAround visit source ∧
        (Graph.ofFile present file).MayReach file visit cursor target := by
    intro source target tag
    rw [Facts.hasEdge_call]
    refine and_congr_right fun _ => Facts.exists_call_iff fun call made tells => ?_
    rw [Facts.isAround_iff tells, Facts.mayReach_iff tells]
  have reached : ∀ visit cursor, (visit, cursor) ∈ file.calls → ∀ id, file.Reaches visit cursor id →
      ∃ target, (Graph.ofFile present file).IdAt target id ∧
        (Graph.ofFile present file).KindIn target [.func] := by
    intro visit cursor listed id reaches
    obtain ⟨call, there, tells⟩ := exists_of_mem_right calls listed
    obtain ⟨target, spot⟩ := Facts.exists_idAt_of_reaches tells reaches
    obtain ⟨fact, known, rfl⟩ := ((Facts.candidate_iff tells).2 ⟨id, reaches, spot⟩).function?
    exact ⟨fact.node, spot.kept kept, (Facts.held_of_function? known).node.kept kept⟩
  refine ⟨fun visit cursor listed => ?calls, fun visit cursor listed id home => ?around,
    fun function entry listed => ?entered, fun handle node found kind => ?functions,
    reached, fun handle node found kind => ?resolved, call, fun source target tag => ?result,
    fun source target => ?argument,
    formed.nodup_findCallers, fun name node => ?callers⟩
  case calls =>
    obtain ⟨call, there, tells⟩ := exists_of_mem_right calls listed
    exact ⟨call.node, tells.node.kept kept,
      (Facts.kind_of_calls (Array.mem_toList_iff.1 there)).node.kept kept⟩
  case around =>
    obtain ⟨call, there, tells⟩ := exists_of_mem_right calls listed
    obtain ⟨caller, given, spot⟩ := rel_some_right tells.caller home
    exact ⟨caller, call.node, spot.kept kept,
      ((Facts.kind_of_calls (Array.mem_toList_iff.1 there)).caller caller given).kept kept,
      tells.node.kept kept, (tells.around caller given).kept kept⟩
  case entered =>
    obtain ⟨fact, there, tells⟩ := exists_of_mem_right (Facts.functions_of file) listed
    obtain ⟨number, held⟩ := List.getElem?_of_mem there
    rw [Array.getElem?_toList] at held
    exact ⟨fact.node, tells.signature.node.kept kept,
      ((Facts.sound_of file).functions number fact held).node.kept kept⟩
  case functions =>
    obtain ⟨fact, there, rfl, name, isMethod⟩ := Facts.function_of_node found kind
    obtain ⟨⟨function, entry⟩, listed, tells⟩ :=
      exists_of_mem_left (Facts.functions_of file) (Array.mem_toList_iff.2 there)
    obtain ⟨held, found', same⟩ := tells.signature.node.kept kept
    obtain rfl := Option.some.inj (found.symm.trans found')
    exact ⟨function, entry, listed, same.symm, tells.signature.name.symm.trans name,
      tells.signature.isMethod.symm.trans isMethod⟩
  case resolved =>
    obtain ⟨call, last, flag⟩ := Facts.resolved_iff found kind
    obtain ⟨⟨visit, cursor⟩, given, tells⟩ :=
      Facts.call?_of_lastAt (Facts.idAt_ofFile.1 ⟨node, found, rfl⟩) last
    refine ⟨visit, cursor, given, flag.trans ⟨fun ⟨target, candidate⟩ => ?_, fun ⟨id, reaches⟩ => ?_⟩⟩
    · obtain ⟨id, reaches, -⟩ := (Facts.candidate_iff tells).1 candidate
      exact ⟨id, reaches⟩
    · obtain ⟨target, spot⟩ := Facts.exists_idAt_of_reaches tells reaches
      exact ⟨target, (Facts.candidate_iff tells).2 ⟨id, reaches, spot⟩⟩
  case result =>
    rw [Facts.hasEdge_result]
    refine and_congr_right fun _ => Facts.exists_call_iff fun call made tells => ?_
    rw [Facts.mayReach_iff tells, Facts.idAt_callId_iff tells, tells.consumed]
  case argument =>
    rw [Facts.argument_iff]
    refine Facts.exists_call_iff fun call made tells => ?_
    rw [Facts.idAt_callId_iff tells]
    exact and_congr_right fun _ => Facts.fills_iff tells
  case callers =>
    rw [formed.mem_findCallers]
    refine exists_congr fun caller => and_congr_right fun _ => ?_
    constructor
    · rintro ⟨target, function, tag, held, -, named, has⟩
      obtain ⟨-, visit, cursor, listed, around, reaches⟩ := (call _ _ _).1 has
      exact ⟨visit, cursor, listed, around, target, function, reaches, held, named⟩
    · rintro ⟨visit, cursor, listed, around, target, function, ⟨id, reaches, spot⟩, held, named⟩
      obtain ⟨other, spot', held', there, kind⟩ := reached visit cursor listed id reaches
      obtain rfl :=
        (Facts.eq_iff_of_idAt (Facts.idAt_ofFile.1 spot) (Facts.idAt_ofFile.1 spot')).2 rfl
      obtain rfl := Option.some.inj (held.symm.trans there)
      exact ⟨target, function, none, held, List.mem_singleton.1 kind, named,
        (call _ _ _).2 ⟨rfl, visit, cursor, listed, around, id, reaches, spot⟩⟩

end CodeGraph

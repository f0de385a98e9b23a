import CodeGraph.Proofs.Facts.FileEdges

/-!
# Nodes of the graph of a file

The nodes of the graph of a file are those of the walk. The stages behind the walk change one property
only: they mark each call with whether it reaches anything (`Facts.Sound.node_of_assemble`).
-/

namespace CodeGraph

namespace Properties

theorem insertEntry_insertEntry (key : String) (first second : PropertyValue)
    (entries : List (String × PropertyValue)) :
    insertEntry key second (insertEntry key first entries) = insertEntry key second entries := by
  induction entries with
  | nil => simp [insertEntry]
  | cons head rest ih =>
    by_cases same : head.1 = key
    · simp [insertEntry, same]
    · by_cases less : key < head.1
      · simp [insertEntry, same, less]
      · simp [insertEntry, same, less, ih]

/-- Of two values that are set under one key the second counts. -/
theorem insert_insert (properties : Properties) (key : String) (first second : PropertyValue) :
    (properties.insert key first).insert key second = properties.insert key second := by
  simp only [insert, insertEntry_insertEntry]

theorem text?_insert_of_ne (properties : Properties) {key other : String} (value : PropertyValue)
    (different : other ≠ key) :
    (properties.insert key value).text? other = properties.text? other := by
  rw [text?, get?_insert_of_ne _ _ different, text?]

theorem isSet_insert_flag (properties : Properties) (key : String) (value : Bool) :
    (properties.insert key (.flag value)).isSet key = value := by
  rw [isSet, get?_insert_self]
  cases value <;> rfl

theorem isSet_insert_of_ne (properties : Properties) {key other : String} (value : PropertyValue)
    (different : other ≠ key) :
    (properties.insert key value).isSet other = properties.isSet other := by
  rw [isSet, get?_insert_of_ne _ _ different, isSet]

end Properties

/-- The last of a list of facts about calls that is about a node. -/
structure CallFact.LastAt (calls : List CallFact) (handle : Nat) (call : CallFact) : Prop where
  node : call.node = handle
  last : ∃ front back, calls = front ++ call :: back ∧ ∀ other ∈ back, other.node ≠ handle

namespace CallFact.LastAt

variable {calls : List CallFact} {handle : Nat} {call : CallFact}

theorem cons (lastAt : LastAt calls handle call) (first : CallFact) :
    LastAt (first :: calls) handle call := by
  obtain ⟨front, back, rfl, apart⟩ := lastAt.last
  exact ⟨lastAt.node, first :: front, back, rfl, apart⟩

theorem mem (lastAt : LastAt calls handle call) : call ∈ calls := by
  obtain ⟨front, back, rfl, -⟩ := lastAt.last
  exact List.mem_append_right _ List.mem_cons_self

end CallFact.LastAt

namespace Facts

variable {file : SourceFile} {facts : Facts}

/-- Linking calls marks the nodes of calls, and changes no other nodes. -/
theorem node_of_linkCalls (nameOf : Nat → String) {calls : List CallFact} {graph : Graph}
    {handle : Nat} {node : Node}
    (found : (calls.foldl (facts.linkCall nameOf) graph).nodes[handle]? = some node) :
    ∃ old, graph.nodes[handle]? = some old ∧
      ((∀ call ∈ calls, call.node ≠ handle) ∧ node = old ∨
        ∃ call, CallFact.LastAt calls handle call ∧
          node = old.set "resolved" (.flag (facts.isResolved call))) := by
  induction calls generalizing graph with
  | nil => exact ⟨node, found, .inl ⟨fun _ none => (nomatch none), rfl⟩⟩
  | cons call rest ih =>
    obtain ⟨middle, held, marked⟩ := ih found
    rw [linkCall, Graph.nodes_connectAll, Graph.WellFormed.getElem?_setProperty] at held
    by_cases here : call.node = handle
    · rw [if_pos here] at held
      obtain ⟨old, stood, rfl⟩ := Option.map_eq_some_iff.1 held
      refine ⟨old, stood, .inr ?_⟩
      rcases marked with ⟨apart, rfl⟩ | ⟨other, last, rfl⟩
      · exact ⟨call, ⟨here, [], rest, rfl, apart⟩, rfl⟩
      · refine ⟨other, last.cons call, ?_⟩
        simp only [Node.set, Properties.insert_insert]
    · rw [if_neg here] at held
      refine ⟨middle, held, marked.imp (fun apart => ⟨?_, apart.2⟩) fun marks => ?_⟩
      · exact List.forall_mem_cons.2 ⟨here, apart.1⟩
      · obtain ⟨other, last, same⟩ := marks
        exact ⟨other, last.cons call, same⟩

/-- A node of the graph of sound facts is a node of the walk, marked if it is a call. -/
theorem node_of_assemble {handle : Nat} {node : Node}
    (found : facts.assemble.nodes[handle]? = some node) :
    ∃ old, facts.graph.nodes[handle]? = some old ∧
      ((∀ call ∈ facts.calls.toList, call.node ≠ handle) ∧ node = old ∨
        ∃ call, CallFact.LastAt facts.calls.toList handle call ∧
          node = old.set "resolved" (.flag (facts.isResolved call))) := by
  rw [assemble_eq] at found
  obtain ⟨old, held, marked⟩ := node_of_linkCalls _ found
  rw [Graph.nodes_connectAll] at held
  exact ⟨old, held, marked⟩

theorem wellFormed_linkCalls (nameOf : Nat → String) {graph : Graph} (formed : graph.WellFormed)
    (calls : List CallFact) : (calls.foldl (facts.linkCall nameOf) graph).WellFormed ∧
      graph.Kept (calls.foldl (facts.linkCall nameOf) graph) := by
  induction calls generalizing graph with
  | nil => exact ⟨formed, .refl graph⟩
  | cons call rest ih =>
    have marked := formed.setProperty call.node "resolved" (.flag (facts.isResolved call))
    obtain ⟨whole, kept⟩ := ih (marked.connectAll (facts.callEdges nameOf call))
    exact ⟨whole, ((Graph.WellFormed.kept_setProperty _ _ _ _).trans
      (Graph.WellFormed.kept_connectAll _ _)).trans kept⟩

/-- The stages behind the walk keep what the walk has made. -/
theorem Sound.wellFormed_assemble (sound : Sound file facts) :
    facts.assemble.WellFormed ∧ facts.graph.Kept facts.assemble := by
  rw [assemble_eq]
  obtain ⟨linked, kept⟩ := wellFormed_linkCalls facts.graph.nameOf
    (sound.formed.connectAll facts.staged) facts.calls.toList
  exact ⟨linked, (Graph.WellFormed.kept_connectAll facts.graph facts.staged).trans kept⟩

end Facts

/-- A text without a character lies in front of its occurrence or behind it. -/
theorem infix_append_cons {c : Char} {part front back : List Char} (clear : c ∉ part)
    (inside : part <:+: front ++ c :: back) : part <:+: front ∨ part <:+: back := by
  rcases List.infix_append_iff.1 inside with before | behind | ⟨left, right, rfl, ends, starts⟩
  · exact .inl before
  · refine (List.infix_cons_iff.1 behind).elim (fun starts => ?_) .inr
    cases part with
    | nil => exact .inl (List.nil_infix)
    | cons d rest =>
      obtain ⟨same, -⟩ := List.cons_prefix_cons.1 starts
      exact absurd (same ▸ List.mem_cons_self) clear
  · cases right with
    | nil => exact .inl (by simpa using ends.isInfix)
    | cons d rest =>
      obtain ⟨same, -⟩ := List.cons_prefix_cons.1 starts
      exact absurd (same ▸ List.mem_append_right _ List.mem_cons_self) clear

namespace Graph

theorem wellFormed_ofFile (present : Instant) (file : SourceFile) :
    (ofFile present file).WellFormed :=
  ((Facts.sound_of file).wellFormed_assemble.1.addFile file.path).relabelled _ _

/-- The graph of a file keeps what the walk has made. -/
theorem kept_ofFile (present : Instant) (file : SourceFile) :
    (Facts.of file).graph.Kept (ofFile present file) := by
  obtain ⟨-, nodes, arcs⟩ := (Facts.sound_of file).wellFormed_assemble
  refine ⟨?_, ?_⟩
  · rwa [nodes_ofFile]
  · rwa [arcs_ofFile]

/-- A node of the graph of a file stands for a node of the syntax tree. -/
theorem draws_ofFile {present : Instant} {file : SourceFile} {handle : Nat} {node : Node}
    (found : (ofFile present file).nodes[handle]? = some node) :
    file.Draws node := by
  rw [nodes_ofFile] at found
  obtain ⟨old, held, marked⟩ := Facts.node_of_assemble found
  have draws := (Facts.sound_of file).draws handle old held
  rcases marked with ⟨-, rfl⟩ | ⟨call, -, rfl⟩
  · exact draws
  · exact draws.set _ _

/-- Behind a path without separators the ids of nodes are plain. -/
theorem plain_of_draws {file : SourceFile} (plain : Plain file.path.text) {node : Node}
    (draws : file.Draws node) : Plain node.id := by
  obtain ⟨cursor, kind, name, ⟨id, -⟩, -⟩ := draws
  obtain ⟨noArrow, noHash⟩ := SourceFile.plain_idBehind cursor kind
  have letters : node.id.toList =
      file.path.text.toList ++ ':' :: (SourceFile.idBehind cursor kind).toList := by
    rw [id, SourceFile.id_nodeOf]
    simp
  rw [Plain, letters]
  refine ⟨fun inside => ?_, ?_⟩
  · rcases infix_append_cons (by decide) inside with front | behind
    · exact plain.1 front
    · exact noArrow behind
  · simp only [List.mem_append, List.mem_cons, not_or]
    exact ⟨plain.2, by decide, noHash⟩

theorem plainIds_ofFile (present : Instant) {file : SourceFile} (plain : Plain file.path.text) :
    (ofFile present file).PlainIds :=
  fun _ _ found => plain_of_draws plain (draws_ofFile found)

end Graph

/-- The id of a node tells the path of its file: what stands in front of the last two colons. -/
theorem SourceFile.path_of_id {file file' : SourceFile} {node node' : Node}
    (draws : file.Draws node) (draws' : file'.Draws node') (same : node.id = node'.id) :
    file.path = file'.path := by
  obtain ⟨cursor, kind, name, ⟨id, -⟩, -⟩ := draws
  obtain ⟨cursor', kind', name', ⟨id', -⟩, -⟩ := draws'
  have numbers : ∀ cursor : Cursor,
      ':' ∉ ((toString cursor.start).toList ++ '-' :: (toString cursor.stop).toList).reverse := by
    intro cursor
    simp only [List.mem_reverse, List.mem_append, List.mem_cons, not_or]
    exact ⟨not_mem_numeral (by decide) _, by decide, not_mem_numeral (by decide) _⟩
  have letters : ∀ kind : NodeKind, ':' ∉ kind.name.toList.reverse := by
    intro kind
    cases kind <;> decide
  have text : ∀ (file : SourceFile) (cursor : Cursor) (kind : NodeKind) (name : Option String),
      (file.nodeOf cursor kind name).id.toList.reverse =
        ((toString cursor.start).toList ++ '-' :: (toString cursor.stop).toList).reverse ++
          ':' :: (kind.name.toList.reverse ++ ':' :: file.path.text.toList.reverse) := by
    intro file cursor kind name
    rw [id_nodeOf, String.toList_append, toList_idBehind]
    simp
  have texts := congrArg (fun id => id.toList.reverse) ((id.symm.trans same).trans id')
  simp only [text] at texts
  obtain ⟨-, texts⟩ := split_at_char (numbers cursor) (numbers cursor') texts
  obtain ⟨-, texts⟩ := split_at_char (letters kind) (letters kind') texts
  have paths := String.toList_inj.1 (List.reverse_injective texts)
  cases same : file.path
  cases same' : file'.path
  rw [same, same'] at paths
  rw [Path.mk.injEq]
  exact paths

/-- The id of a node tells the kind of the node, whatever the file is. -/
theorem SourceFile.kind_of_id {file file' : SourceFile} {node node' : Node}
    (draws : file.Draws node) (draws' : file'.Draws node') (same : node.id = node'.id) :
    node.kind = node'.kind := by
  have paths := path_of_id draws draws' same
  obtain ⟨cursor, kind, name, ⟨id, kinds, -⟩, -⟩ := draws
  obtain ⟨cursor', kind', name', ⟨id', kinds', -⟩, -⟩ := draws'
  have ids := (id.symm.trans same).trans id'
  rw [id_nodeOf, id_nodeOf, paths] at ids
  obtain ⟨equal, -⟩ := idBehind_inj (String.append_right_inj _ |>.1 ids)
  rw [kinds, kinds']
  exact equal

end CodeGraph

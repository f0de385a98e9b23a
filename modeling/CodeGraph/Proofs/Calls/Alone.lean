import CodeGraph.Proofs.Calls.Across
import CodeGraph.Proofs.Calls.Within
import CodeGraph.Proofs.Graph.Parent
import CodeGraph.Proofs.Tree

/-!
# Linking the graph of one file

The functions that a call may reach are found twice: by the tables of the file when its graph is built,
and by the containment in the graph when it is linked. For plain calls both find the same. For calls of
members and of constructors they differ in the functions that a class contains in the graph but does not
list among its methods (`Graph.Stray`): linking the graph of one file does nothing unless an unresolved
call aims at such a function (`Graph.linkAcrossFiles_ofFile`). A method of an object in a field of a class
is one.
-/

namespace CodeGraph

namespace Facts

/-! ## What the node of a call tells -/

theorem text?_callNode (file : SourceFile) (cursor : Cursor) (call : CallSyntax) :
    (callNode file cursor call).properties.text? "callee" = call.callee.name? := by
  have none : (Properties.text? {} "callee") = none := rfl
  unfold callNode
  cases call.callee with
  | function name =>
    simp [Node.set, Callee.name?, Properties.text?, Properties.get?_insert_self, PropertyValue.text?]
  | method receiver name =>
    simp [Node.set, Callee.name?, Properties.text?, Properties.get?_insert_of_ne,
      Properties.get?_insert_self, PropertyValue.text?]
  | constructor name =>
    simp [Node.set, Callee.name?, Properties.text?, Properties.get?_insert_self, PropertyValue.text?]
  | dynamic =>
    simp only [Node.set, Callee.name?]
    iterate 5 rw [Properties.text?_insert_of_ne _ _ (by decide)]
    exact none

theorem isConstructor_callNode (file : SourceFile) (cursor : Cursor) (call : CallSyntax) :
    (callNode file cursor call).properties.isSet "isConstructor" = call.isNew := by
  unfold callNode
  cases call.callee <;>
    simp [Node.set, Callee.name?, Properties.isSet_insert_flag, Properties.isSet_insert_of_ne]

theorem isMethodCall_callNode (file : SourceFile) (cursor : Cursor) (call : CallSyntax) :
    (callNode file cursor call).properties.isSet "isMethodCall" = match call.callee with
      | .method _ _ => true
      | _ => false := by
  unfold callNode
  cases call.callee <;>
    simp [Node.set, Callee.name?, Properties.isSet_insert_flag, Properties.isSet_insert_of_ne]

/-- `new` is aimed at constructors, other calls at functions and methods, and both perhaps at nothing. -/
theorem calleeOf_cases (file : SourceFile) (target : Cursor) (isNew : Bool) :
    calleeOf file target isNew = .dynamic ∨
      isNew = true ∧ (∃ name, calleeOf file target isNew = .constructor name) ∨
      isNew = false ∧ ((∃ name, calleeOf file target isNew = .function name) ∨
        ∃ receiver name, calleeOf file target isNew = .method receiver name) := by
  unfold calleeOf
  split
  · cases isNew with
    | true => exact .inr (.inl ⟨rfl, _, rfl⟩)
    | false => exact .inr (.inr ⟨rfl, .inl ⟨_, rfl⟩⟩)
  · split
    · exact .inl rfl
    · cases isNew with
      | true => exact .inr (.inl ⟨rfl, _, rfl⟩)
      | false => exact .inr (.inr ⟨rfl, .inr ⟨_, _, rfl⟩⟩)
  · exact .inl rfl

theorem callee_callSyntax_cases (file : SourceFile) (cursor : Cursor) :
    (callSyntax file cursor).callee = .dynamic ∨
      (callSyntax file cursor).isNew = true ∧
        (∃ name, (callSyntax file cursor).callee = .constructor name) ∨
      (callSyntax file cursor).isNew = false ∧
        ((∃ name, (callSyntax file cursor).callee = .function name) ∨
          ∃ receiver name, (callSyntax file cursor).callee = .method receiver name) := by
  unfold callSyntax
  simp only
  generalize cursor.field? _ = target
  cases target with
  | none => exact .inl rfl
  | some target => exact calleeOf_cases file target _

end Facts

namespace Graph

variable {graph : Graph} {file : SourceFile} {cursor : Cursor} {target : Nat}

/-- What the node of a call aims at, by the way in which the call is written. -/
theorem aims_callNode (value : PropertyValue) : graph.Aims
    ((Facts.callNode file cursor (Facts.callSyntax file cursor)).set "resolved" value) target ↔
      match (Facts.callSyntax file cursor).callee with
      | .function name => graph.FreeFunction target name
      | .method _ name => graph.Method target name
      | .constructor name => graph.Constructor target name
      | .dynamic => False := by
  unfold Aims
  simp only [Node.set, Properties.text?_insert_of_ne _ _ (show "callee" ≠ "resolved" by decide),
    Properties.isSet_insert_of_ne _ _ (show "isConstructor" ≠ "resolved" by decide),
    Properties.isSet_insert_of_ne _ _ (show "isMethodCall" ≠ "resolved" by decide),
    Facts.text?_callNode, Facts.isConstructor_callNode, Facts.isMethodCall_callNode]
  rcases Facts.callee_callSyntax_cases file cursor with
    callee | ⟨isNew, name, callee⟩ | ⟨isNew, ⟨name, callee⟩ | ⟨receiver, name, callee⟩⟩
  · simp [callee, Callee.name?]
  · simp [callee, isNew, Callee.name?]
  · simp [callee, isNew, Callee.name?]
  · simp [callee, isNew, Callee.name?]

/-! ## Functions that no class lists -/

/-- A function that a class contains in the graph, but that no class of this name lists among its methods
under the name of the function. -/
def Stray (graph : Graph) (facts : Facts) (target : Nat) : Prop :=
  ∃ node owner, graph.nodes[target]? = some node ∧ graph.ClassAbove target owner ∧
    ¬ ∃ fact ∈ facts.classes, fact.name = owner.name ∧ target ∈ fact.methods ∧
      ∃ known, facts.function? target = some known ∧ known.name = node.name

end Graph

/-- Calls that are written at one place call the same. -/
def SourceFile.CallsAgree (file : SourceFile) : Prop :=
  ∀ cursor other, file.HasCall cursor → file.HasCall other → cursor.start = other.start →
    cursor.stop = other.stop →
    (Facts.callSyntax file cursor).callee = (Facts.callSyntax file other).callee

namespace Facts

variable {file : SourceFile}

/-- A free function that is found on the graph may be reached by a plain call of its name. -/
theorem candidate_of_freeFunction {present : Instant} {call : CallFact} {name : String} {target : Nat}
    (callee : call.callee = .function name)
    (free : (Graph.ofFile present file).FreeFunction target name) :
    ∃ other, Candidate file call other := by
  obtain ⟨⟨node, found, kind, named⟩, -, node', found', plain⟩ := free
  obtain rfl := Option.some.inj (found.symm.trans found')
  obtain ⟨fact, listed, rfl, same, isMethod⟩ := function_of_node found kind
  cases declared : (Facts.of file).scopes.resolveFunction call.scope name with
  | some other => exact ⟨other, .declared callee declared⟩
  | none => exact ⟨fact.node, .free callee declared listed (isMethod.trans plain) (same.trans named)⟩

/-- What an unresolved call aims at on the graph of its own file is a stray function. -/
theorem stray_of_aims {present : Instant} (agree : file.CallsAgree) {handle target : Nat} {node : Node}
    (pending : (Graph.ofFile present file).Pending handle node)
    (aims : (Graph.ofFile present file).Aims node target) :
    (Graph.ofFile present file).Stray (Facts.of file) target := by
  obtain ⟨found, kind, unresolved⟩ := pending
  obtain ⟨cursor, call, has, last, rfl⟩ := call_of_node found kind
  have none : ∀ other, ¬ Candidate file call other := by
    rw [← not_exists, ← isResolved_iff, Bool.not_eq_true]
    rw [Node.set, Properties.flag?, Properties.get?_insert_self] at unresolved
    exact Option.some.inj unresolved
  have callee : call.callee = (callSyntax file cursor).callee := by
    -- The fact and the node may come of two calls, but of two that are written at one place.
    obtain ⟨⟨visit, written⟩, -, tells⟩ := exists_of_mem_left (tabled_of file).calls last.mem
    obtain ⟨held, there, id⟩ := tells.node.kept (Graph.kept_ofFile present file)
    rw [last.node] at there
    obtain rfl := Option.some.inj (there.symm.trans found)
    obtain ⟨name, same, -⟩ := sameNode_callNode file cursor (callSyntax file cursor)
    obtain ⟨-, start, stop⟩ := SourceFile.id_inj (same.symm.trans id)
    rw [tells.callee]
    exact agree written cursor tells.written has start.symm stop.symm
  rw [Graph.aims_callNode, ← callee] at aims
  cases called : call.callee with
  | function name =>
    rw [called] at aims
    obtain ⟨other, candidate⟩ := candidate_of_freeFunction called aims
    exact absurd candidate (none other)
  | method receiver name =>
    rw [called] at aims
    obtain ⟨⟨function, held, -, named⟩, owner, above⟩ := aims
    refine ⟨function, owner, held, above, ?_⟩
    rintro ⟨fact, listed, -, inside, known, recorded, same⟩
    exact none target (.method called listed inside recorded (same.trans named))
  | constructor name =>
    rw [called] at aims
    obtain ⟨⟨function, held, -, named⟩, owner, above, owned⟩ := aims
    refine ⟨function, owner, held, above, ?_⟩
    rintro ⟨fact, listed, class_, inside, known, recorded, same⟩
    exact none target (.constructor called listed (class_.trans owned) inside recorded
      (same.trans named))
  | dynamic =>
    rw [called] at aims
    exact aims.elim

end Facts

/-- Linking the graph of one file does nothing, unless an unresolved call aims at a stray function. -/
theorem Graph.linkAcrossFiles_ofFile (present : Instant) {file : SourceFile} (agree : file.CallsAgree) :
    (Graph.ofFile present file).linkAcrossFiles = (Graph.ofFile present file, 0) ↔
      ¬ ∃ handle call target, (Graph.ofFile present file).Pending handle call ∧
        (Graph.ofFile present file).Aims call target ∧
        (Graph.ofFile present file).Stray (Facts.of file) target := by
  rw [linkAcrossFiles_eq_self]
  refine not_congr ⟨?_, ?_⟩
  · rintro ⟨handle, call, pending, target, aims⟩
    exact ⟨handle, call, target, pending, aims, Facts.stray_of_aims agree pending aims⟩
  · rintro ⟨handle, call, target, pending, aims, -⟩
    exact ⟨handle, call, pending, target, aims⟩

namespace Graph

/-- The ids of the nodes of a graph, and the edges of containment by their ends. -/
structure Drawn (graph : Graph) (ids : List String) (links : List (Nat × Nat)) : Prop where
  ids : graph.nodes.toList.map Node.id = ids
  links : ∀ source target, (∃ tag, graph.HasEdge .child source target tag) ↔ (source, target) ∈ links

theorem drawn_empty : ({} : Graph).Drawn [] [] := by
  refine ⟨rfl, fun source target => ⟨?_, fun none => nomatch none⟩⟩
  rintro ⟨tag, edge, inside, -⟩
  cases inside

end Graph

/-- A node with a new id is placed behind all others, below its container. -/
theorem Facts.Sound.place_drawn {file : SourceFile} {facts : Facts} {ids : List String}
    {links : List (Nat × Nat)} (sound : Facts.Sound file facts) (drawn : facts.graph.Drawn ids links)
    {node : Node} (draws : file.Draws node) {id : String} (same : node.id = id) (new : id ∉ ids)
    (parent : Option Nat) (there : ∀ container, parent = some container → container < ids.length) :
    ∃ graph, facts.place node parent = ({ facts with graph }, ids.length) ∧
      graph.Drawn (ids ++ [id])
        (links ++ parent.toList.map fun container => (container, ids.length)) := by
  obtain ⟨graph, placed, -, known⟩ := facts.place_new node parent sound.formed drawn.ids same new
  have size : facts.graph.nodes.size = ids.length := by
    rw [← drawn.ids, List.length_map, Array.length_toList]
  have handle : (facts.place node parent).2 = ids.length := by rw [placed]
  have whole : (facts.place node parent).1.graph = graph := by rw [placed]
  have added : Facts.Sound file (facts.place node parent).1 := sound.place draws parent
  refine ⟨graph, placed, known, fun source target => ⟨?_, fun listed => ?_⟩⟩
  · rw [← whole]
    rintro ⟨tag, edge, inside, kind, rfl, rfl, -⟩
    obtain ⟨place, arc, held, rfl⟩ := Graph.mem_edges.1 inside
    rcases Facts.child_of_place held with old | ⟨-, -, given, goal⟩
    · obtain ⟨tag, has⟩ := sound.formed.hasEdge_of_mem (Graph.mem_edges.2 ⟨place, arc, old, rfl⟩)
      rw [kind] at has
      exact List.mem_append_left _ ((drawn.links _ _).1 ⟨tag, has⟩)
    · rw [given, goal, handle]
      exact List.mem_append_right _ List.mem_cons_self
  · rw [← whole]
    rcases List.mem_append.1 listed with old | new
    · obtain ⟨tag, has⟩ := (drawn.links source target).2 old
      exact ⟨tag, has.kept (Facts.extends_place facts node parent).graph⟩
    · obtain ⟨container, given, ends⟩ := List.mem_map.1 new
      obtain ⟨rfl, rfl⟩ := Prod.mk.inj ends
      obtain rfl := Option.mem_toList.1 given
      have less := there container rfl
      rcases sound.hasEdge_place draws (size ▸ less) with itself | has
      · omega
      · rw [handle] at has
        exact ⟨none, has⟩

/-! ## A method in a field -/

namespace Facts

namespace InField

/-- A node with a name in the grammar. -/
def named (kind : String) (field : Option String) (start stop : Nat) (children : List Tree) : Tree :=
  .node { kind, field, start, stop, named := true } children

/-- A plain token. -/
def token (kind : String) (start stop : Nat) : Tree := .node { kind, start, stop } []

def methodName : Cursor where
  tree := named "property_identifier" (some "name") 16 17 []
  above := ["method_definition", "object", "public_field_definition", "class_body",
    "class_declaration", "program"]

def method : Cursor where
  tree := named "method_definition" none 16 22
    [methodName.tree,
      named "formal_parameters" (some "parameters") 17 19 [token "(" 17 18, token ")" 18 19],
      named "statement_block" (some "body") 20 22 [token "\x7b" 20 21, token "\x7d" 21 22]]
  above := ["object", "public_field_definition", "class_body", "class_declaration", "program"]

def object : Cursor where
  tree := named "object" (some "value") 14 24
    [token "\x7b" 14 15, method.tree, token "\x7d" 23 24]
  above := ["public_field_definition", "class_body", "class_declaration", "program"]

def fieldName : Cursor where
  tree := named "property_identifier" (some "name") 10 11 []
  above := ["public_field_definition", "class_body", "class_declaration", "program"]

def field : Cursor where
  tree := named "public_field_definition" none 10 24 [fieldName.tree, token "=" 12 13, object.tree]
  above := ["class_body", "class_declaration", "program"]

def className : Cursor where
  tree := named "type_identifier" (some "name") 6 7 []
  above := ["class_declaration", "program"]

def holder : Cursor where
  tree := named "class_declaration" none 0 27
    [token "class" 0 5, className.tree,
      named "class_body" (some "body") 8 27
        [token "\x7b" 8 9, field.tree, token ";" 24 25, token "\x7d" 26 27]]
  above := ["program"]

def receiver : Cursor where
  tree := named "identifier" (some "object") 28 29 []
  above := ["member_expression", "call_expression", "expression_statement", "program"]

def short : Cursor where
  tree := named "property_identifier" (some "property") 30 31 []
  above := ["member_expression", "call_expression", "expression_statement", "program"]

def selected : Cursor where
  tree := named "member_expression" (some "function") 28 31
    [receiver.tree, token "." 29 30, short.tree]
  above := ["call_expression", "expression_statement", "program"]

def calling : Cursor where
  tree := named "call_expression" none 28 33
    [selected.tree, named "arguments" (some "arguments") 31 33 [token "(" 31 32, token ")" 32 33]]
  above := ["expression_statement", "program"]

def last : Cursor where
  tree := named "expression_statement" none 28 34 [calling.tree, token ";" 33 34]
  above := ["program"]

/-- A class with a field that is an object with a method, and behind it a call of a member. -/
def file (source : SourceText) : SourceFile where
  path := ⟨"a.ts"⟩
  source
  tree := named "program" none 0 34 [holder.tree, last.tree]

variable {source : SourceText} {word : String}

/-- The text names the method `m`, and calls a member of some name. -/
structure Spells (source : SourceText) (word : String) : Prop where
  method : source.slice 16 17 = "m"
  short : source.slice 30 31 = word

/-- There is one call in the tree. -/
theorem eq_calling {cursor : Cursor} (has : (file source).HasCall cursor) :
    cursor.tree = calling.tree := by
  have below : calling.Below { tree := (file source).tree } :=
    @Cursor.Below.trans calling last _ (.child List.mem_cons_self)
      (.child (List.mem_cons_of_mem _ List.mem_cons_self))
  have form : ExpressionForm.ofKind calling.kind = .call := by decide +kernel
  have one : (file source).tree.descendants.countP
      (fun tree => ExpressionForm.ofKind tree.shape.kind = .call) = 1 := by
    change (file (.ofString "")).tree.descendants.countP _ = 1
    decide +kernel
  rw [List.countP_eq_length_filter, List.length_eq_one_iff] at one
  obtain ⟨only, same⟩ := one
  have all : ∀ cursor, (file source).HasCall cursor → cursor.tree = only := by
    intro cursor has
    rw [← List.mem_singleton, ← same]
    exact List.mem_filter.2 ⟨has.1.mem_descendants, decide_eq_true has.2⟩
  exact (all cursor has).trans (all calling ⟨below, form⟩).symm

theorem callee_of_hasCall (spells : Spells source word) {cursor : Cursor}
    (has : (file source).HasCall cursor) :
    ∃ receiver, (callSyntax (file source) cursor).callee = .method receiver word := by
  obtain ⟨tree, above⟩ := cursor
  obtain rfl : tree = calling.tree := eq_calling has
  rw [← spells.short]
  exact ⟨_, rfl⟩

theorem callsAgree (source : SourceText) : (file source).CallsAgree := by
  rintro ⟨tree, above⟩ ⟨tree', above'⟩ has has' - -
  obtain rfl : tree = calling.tree := eq_calling has
  obtain rfl : tree' = calling.tree := eq_calling has'
  rfl

/-! ### The walk -/

/-- The ids of the nodes, in the order in which they are made. -/
def ids : List String :=
  ["a.ts:class:0-27", "a.ts:variable:10-11", "a.ts:function:16-22", "a.ts:statement:28-34",
    "a.ts:call:28-33"]

/-- What is made: nodes and their containment, functions and calls. No class lists a method. -/
structure Made (facts : Facts) (ids : List String) (links : List (Nat × Nat))
    (signatures : List Signature) (calls : List (Nat × Callee)) : Prop where
  drawn : facts.graph.Drawn ids links
  unlisted : ∀ fact ∈ facts.classes, fact.methods = #[]
  signatures : facts.signatures = signatures
  calls : facts.calls.toList.map (fun call => (call.node, call.callee)) = calls

theorem Made.keep {before after : Facts} {ids ids' : List String} {links links' : List (Nat × Nat)}
    {signatures : List Signature} {calls : List (Nat × Callee)}
    (made : Made before ids links signatures calls) (drawn : after.graph.Drawn ids' links')
    (classes : after.classes = before.classes) (functions : after.functions = before.functions)
    (same : after.calls = before.calls) : Made after ids' links' signatures calls := by
  refine ⟨drawn, ?_, ?_, ?_⟩
  · rw [classes]
    exact made.unlisted
  · rw [Facts.signatures, functions]
    exact made.signatures
  · rw [same]
    exact made.calls

/-- Nothing is done at an expression without a meaning of its own. -/
theorem step_compound {file : SourceFile} (facts : Facts) {cursor : Cursor} (children : List Cursor)
    (form : ExpressionForm.ofKind cursor.kind = .compound) (below : cursor.named = children)
    (plain : (children.map Cursor.kind).all (fun kind => !isTypeKind kind) = true)
    (context : Context) (hint : Option Hint) : facts.step file (.expression cursor context hint) =
      (facts, children.map fun child => .expression child context none) := by
  have same : children.filter (fun child => !isTypeKind child.kind) = children := by
    rw [List.filter_eq_self]
    exact fun child inside => List.all_eq_true.1 plain _ (List.mem_map_of_mem inside)
  simp only [step, expression, form, descend, below, same]

/-- The walk comes by the end of the class, and has the object in its field still to look at. -/
theorem visits_holder (source : SourceText) : ∃ facts, Made facts (ids.take 2) [(0, 1)] [] [] ∧
    Visits (file source) facts
      [.expression object { site := some 0, parent := some 0 } none, .statement last {}] := by
  have begins : Visits (file source) {} [.statement holder {}, .statement last {}] := .start
  have sound := begins.sound.1
  let name := some ((file source).textOf className)
  have draws := draws_classNode (file source) holder name
  obtain ⟨first, placed, drawn⟩ := sound.place_drawn Graph.drawn_empty draws
    (rfl : _ = "a.ts:class:0-27") List.not_mem_nil none (fun _ none => nomatch none)
  -- The field is placed in the same step, when the class is there.
  let opened : Facts := { graph := first, classes := #[{ name }] }
  have sound' : Sound (file source) opened := by
    have after := (sound.place draws none).withTables {} {} #[{ name }]
    rw [placed] at after
    exact after
  have draws' : (file source).Draws (((file source).nodeOf fieldName .var
      (some ((file source).textOf fieldName))).set "declarationKind" (.text "field")) :=
    (file source).draws_nodeOf fieldName fun _ => rfl
  obtain ⟨graph, placed', drawn'⟩ := sound'.place_drawn drawn (draws'.set "isField" (.flag true))
    (rfl : _ = "a.ts:variable:10-11") (by decide) (some 0) fun container given => by
      obtain rfl := Option.some.inj given
      decide
  let context : Context := { site := some 0, parent := some 0 }
  let filled : Facts := ({ opened with
    graph, regionOf := ({} : Std.HashMap Nat Nat).insert 1 0 } : Facts).record context
      { kind := .write, binding := .node 1, site := 0 }
  have added : Adding.member (file source) context 0 0 { facts := opened } field =
      { facts := filled, own := [.expression object context none] } := by
    change Adding.field { facts := opened } (file source) fieldName (some object) context 0 = _
    rw [Adding.field, placed']
    rfl
  have stepped : ({} : Facts).step (file source) (.statement holder {}) =
      (filled, [.expression object context none]) := by
    have form : StatementForm.ofKind holder.kind = .classLike := by decide +kernel
    have kind : holder.kind ≠ "enum_declaration" := by decide
    have own : (((holder.field? "name").map (file source).textOf).orElse fun _ =>
        (none : Option Hint).map Hint.name) = name := rfl
    simp only [step, Facts.statement, form, addClass, if_neg kind, own, placed]
    exact congrArg (fun adding : Adding => (adding.facts, [] ++ adding.own ++ adding.methods)) added
  refine ⟨filled, ⟨drawn', fun fact inside => ?_, rfl, rfl⟩, begins.next stepped⟩
  obtain rfl := Array.mem_singleton.1 inside
  rfl

/-- The walk comes by the end of the method. -/
theorem visits_method (spells : Spells source word) : ∃ facts,
    Made facts (ids.take 3) [(0, 1), (0, 2)] [⟨2, some "m", true⟩] [] ∧
    Visits (file source) facts [.statement last {}] := by
  obtain ⟨facts, made, visits⟩ := visits_holder source
  let context : Context := { site := some 0, parent := some 0 }
  have comes : Visits (file source) facts [.expression method context none, .statement last {}] :=
    visits.next (step_compound facts [method] (by decide +kernel) rfl (by decide +kernel) context none)
  have own : givenName (file source) method none = some "m" := by
    rw [← spells.method]
    rfl
  obtain ⟨graph, placed, drawn⟩ := comes.sound.1.place_drawn made.drawn
    (draws_functionNode (file source) method (givenName (file source) method none) true
      (Parameter.ofFunction method).length)
    (rfl : _ = "a.ts:function:16-22") (by decide) (some 0) fun container given => by
      obtain rfl := Option.some.inj given
      decide
  have form : ExpressionForm.ofKind method.kind = .method := by decide +kernel
  have node : (facts.enterFunction (file source) method context none true).node = 2 :=
    congrArg Prod.snd placed
  refine ⟨(facts.enterFunction (file source) method context none true).facts,
    ⟨?drawn, ?unlisted, ?signatures, ?calls⟩, comes.next (?_ : _ = (_, []))⟩
  case drawn =>
    have whole : (facts.enterFunction (file source) method context none true).facts.graph = graph := by
      rw [graph_enterFunction]
      exact congrArg (fun placed => placed.1.graph) placed
    rw [whole]
    exact drawn
  case unlisted =>
    rw [enterFunction_eq]
    exact made.unlisted
  case signatures =>
    rw [signatures_enterFunction, made.signatures, node]
    exact congrArg (fun name => [(⟨2, name, true⟩ : Signature)]) own
  case calls =>
    rw [calls_enterFunction]
    exact made.calls
  simp only [step, expression, form, addFunction]
  rfl

/-- The walk comes to the call. -/
theorem visits_last (spells : Spells source word) : ∃ facts statement,
    Made facts (ids.take 4) [(0, 1), (0, 2)] [⟨2, some "m", true⟩] [] ∧
    Visits (file source) facts
      [.expression calling { statement, site := some 3, parent := some 3 } none] := by
  obtain ⟨before, made, visits⟩ := visits_method spells
  have draws : (file source).Draws
      (((file source).nodeOf last .stmt none).set "kind" (.text last.kind)) :=
    (file source).draws_nodeOf last fun binding => by cases binding
  obtain ⟨graph, placed, drawn⟩ := visits.sound.1.place_drawn made.drawn draws
    (rfl : _ = "a.ts:statement:28-34") (by decide) none (fun _ none => nomatch none)
  have form : StatementForm.ofKind last.kind = .expression := by decide +kernel
  have inner : last.firstNamed? = some calling := rfl
  have plain : ¬ (calling.kind = "internal_module" ∨ calling.kind = "module") := by decide
  let pushed := ({ before with graph } : Facts).pushStatement {} 3 .simple
  have rest : pushed.1.graph = graph ∧ pushed.1.classes = before.classes ∧
      pushed.1.functions = before.functions ∧ pushed.1.calls = before.calls := by
    simp only [pushed, pushStatement]
    split <;> exact ⟨rfl, rfl, rfl, rfl⟩
  obtain ⟨whole, classes, functions, calls⟩ := rest
  refine ⟨pushed.1, some pushed.2, made.keep ?_ classes functions calls,
    visits.next (?_ : _ = (_, [_]))⟩
  · rw [whole]
    exact drawn
  · simp only [step, Facts.statement, form, addExpressionStatement, inner, if_neg plain,
      openStatement, placed]
    rfl

/-- The walk ends behind the call. -/
theorem visits_calling (spells : Spells source word) : ∃ facts receiver,
    Made facts ids [(0, 1), (0, 2), (3, 4)] [⟨2, some "m", true⟩] [(4, .method receiver word)] ∧
    Visits (file source) facts [] := by
  obtain ⟨before, statement, made, visits⟩ := visits_last spells
  let context : Context := { statement, site := some 3, parent := some 3 }
  let node := callNode (file source) calling (callSyntax (file source) calling)
  obtain ⟨graph, placed, drawn⟩ := visits.sound.1.place_drawn made.drawn
    (draws_callNode (file source) calling (callSyntax (file source) calling))
    (rfl : _ = "a.ts:call:28-33") (by decide) (some 3) fun container given => by
      obtain rfl := Option.some.inj given
      decide
  have form : ExpressionForm.ofKind calling.kind = .call := by decide +kernel
  obtain ⟨name, callee⟩ := callee_of_hasCall spells
    ⟨(visits.sound.2 _ List.mem_cons_self).2, form⟩
  let after : Facts := (before.addCall (file source) calling context).1
  have recorded : Made after ids [(0, 1), (0, 2), (3, 4)] [⟨2, some "m", true⟩]
      [(4, .method name word)] := by
    have handle : (before.place node (some 3)).2 = 4 := congrArg Prod.snd placed
    have whole : after.graph = graph := congrArg (fun placed => placed.1.graph) placed
    have pushed : after.calls.toList.map (fun call => (call.node, call.callee)) =
        before.calls.toList.map (fun call => (call.node, call.callee)) ++
          [((before.place node (some 3)).2, (callSyntax (file source) calling).callee)] := by
      simp only [after, addCall, Array.toList_push, List.map_append]
      rfl
    refine ⟨?_, made.unlisted, made.signatures, ?_⟩
    · rw [whole]
      exact drawn
    · rw [pushed, made.calls, handle]
      exact congrArg (fun callee => [(4, callee)]) callee
  have comes : Visits (file source) after [.expression selected (context.atSite 4) none] := by
    have target : (callSyntax (file source) calling).target = some selected := rfl
    have arguments : (callSyntax (file source) calling).arguments = [] := rfl
    refine visits.next (?_ : _ = (_, [_]))
    simp only [step, expression, form, after, addCall, target, arguments, context, placed]
    rfl
  have looks : Visits (file source) after [.expression receiver (context.atSite 4) none,
      .expression short (context.atSite 4) none] :=
    comes.next (step_compound after [receiver, short] (by decide +kernel) rfl (by decide +kernel)
      (context.atSite 4) none)
  let read : Facts := after.addReference (file source) receiver (context.atSite 4)
  have reads : Visits (file source) read [.expression short (context.atSite 4) none] := by
    have form : ExpressionForm.ofKind receiver.kind = .reference := by decide +kernel
    refine looks.next (?_ : _ = (_, []))
    simp only [step, expression, form, read]
  exact ⟨read, name, recorded.keep recorded.drawn rfl rfl rfl,
    reads.next (step_compound read [] (by decide +kernel) rfl rfl (context.atSite 4) none)⟩

/-! ### The facts -/

theorem made_of (spells : Spells source word) : ∃ receiver,
    Made (Facts.of (file source)) ids [(0, 1), (0, 2), (3, 4)] [⟨2, some "m", true⟩]
      [(4, .method receiver word)] := by
  obtain ⟨facts, receiver, made, visits⟩ := visits_calling spells
  rw [visits.of_eq]
  exact ⟨receiver, made.keep made.drawn rfl rfl rfl⟩

/-- There is one function. -/
theorem eq_of_function (spells : Spells source word) {fact : FunctionFact}
    (listed : fact ∈ (Facts.of (file source)).functions) : fact.node = 2 ∧ fact.name = some "m" := by
  obtain ⟨receiver, made⟩ := made_of spells
  have signed : fact.signature ∈ (Facts.of (file source)).signatures :=
    List.mem_map_of_mem (Array.mem_toList_iff.2 listed)
  rw [made.signatures, List.mem_singleton] at signed
  injection signed with node name
  exact ⟨node, name⟩

/-- There is one call. -/
theorem eq_of_call (spells : Spells source word) {call : CallFact}
    (listed : call ∈ (Facts.of (file source)).calls) :
    call.node = 4 ∧ ∃ receiver, call.callee = .method receiver word := by
  obtain ⟨receiver, made⟩ := made_of spells
  have there : (call.node, call.callee) ∈ (Facts.of (file source)).calls.toList.map
      fun call => (call.node, call.callee) := List.mem_map_of_mem (Array.mem_toList_iff.2 listed)
  rw [made.calls, List.mem_singleton] at there
  exact ⟨congrArg Prod.fst there, receiver, congrArg Prod.snd there⟩

/-- The call reaches nothing by the tables. -/
theorem not_candidate (spells : Spells source word) {call : CallFact} {target : Nat}
    (listed : call ∈ (Facts.of (file source)).calls) : ¬ Candidate (file source) call target := by
  obtain ⟨_, made⟩ := made_of spells
  obtain ⟨-, receiver, callee⟩ := eq_of_call spells listed
  intro candidate
  cases candidate with
  | declared other _ => cases callee.symm.trans other
  | free other _ _ _ _ => cases callee.symm.trans other
  | method _ owned inside _ _ =>
    rw [made.unlisted _ owned] at inside
    cases Array.mem_toList_iff.2 inside
  | constructor other _ _ _ _ _ => cases callee.symm.trans other

/-- The call is unresolved. -/
theorem pending_calling (spells : Spells source word) :
    ∃ node, (Graph.ofFile .epoch (file source)).Pending 4 node := by
  obtain ⟨receiver, made⟩ := made_of spells
  have there : (4, Callee.method receiver word) ∈ (Facts.of (file source)).calls.toList.map
      fun call => (call.node, call.callee) := by
    rw [made.calls]
    exact List.mem_cons_self
  obtain ⟨call, inside, both⟩ := List.mem_map.1 there
  have listed := Array.mem_toList_iff.1 inside
  obtain ⟨node, found, kind⟩ :=
    (kind_of_calls listed).node.kept (Graph.kept_ofFile .epoch (file source))
  rw [(eq_of_call spells listed).1] at found
  have isCall := List.mem_singleton.1 kind
  obtain ⟨cursor, other, -, lastAt, rfl⟩ := @call_of_node (file source) .epoch _ _ found isCall
  refine ⟨_, found, isCall, ?_⟩
  rw [Node.set, Properties.flag?, Properties.get?_insert_self]
  refine congrArg some (Bool.eq_false_iff.2 fun resolved => ?_)
  obtain ⟨target, candidate⟩ := isResolved_iff.1 resolved
  exact not_candidate spells (Array.mem_toList_iff.1 lastAt.mem) candidate

/-- The class contains the method of the object. -/
theorem method_two (spells : Spells source word) :
    (Graph.ofFile .epoch (file source)).Method 2 "m" := by
  obtain ⟨_, made⟩ := made_of spells
  have kept := Graph.kept_ofFile .epoch (file source)
  constructor
  · have signed : (⟨2, some "m", true⟩ : Signature) ∈ (Facts.of (file source)).signatures := by
      rw [made.signatures]
      exact List.mem_cons_self
    obtain ⟨fact, inside, -⟩ := List.mem_map.1 signed
    obtain ⟨number, found⟩ := List.getElem?_of_mem inside
    rw [Array.getElem?_toList] at found
    obtain ⟨node, held, kind⟩ := ((sound_of (file source)).functions number fact found).node.kept kept
    rw [(eq_of_function spells (Array.mem_toList_iff.1 inside)).1] at held
    have isFunction := List.mem_singleton.1 kind
    obtain ⟨other, listed, -, name, -⟩ := function_of_node held isFunction
    exact ⟨node, held, isFunction, name.symm.trans (eq_of_function spells listed).2⟩
  · have links : ∀ container, (∃ tag, (Graph.ofFile .epoch (file source)).HasEdge .child container 2
        tag) ↔ container = 0 := by
      intro container
      refine (exists_congr fun tag => hasEdge_child).trans ((made.drawn.links container 2).trans ?_)
      simp
    obtain ⟨tag, has⟩ := (links 0).2 rfl
    have above : (Graph.ofFile .epoch (file source)).parent? 2 = some 0 :=
      (Graph.wellFormed_ofFile .epoch (file source)).parent?_eq_some has fun other tag has =>
        (links other).1 ⟨tag, has⟩
    obtain ⟨owner, found, id⟩ := (Graph.idAt_of_ids made.drawn.ids (rfl : ids[0]? = _)).kept kept
    obtain ⟨cursor, kind, name, ⟨same, kinds, -⟩, -⟩ := Graph.draws_ofFile found
    have holds : ((file source).nodeOf holder .cls none).id = "a.ts:class:0-27" := rfl
    obtain ⟨rfl, -⟩ := SourceFile.id_inj ((same.symm.trans id).trans holds.symm)
    exact ⟨owner, 0, above, found, kinds⟩

/-! ### Linked and left alone -/

/-- The call names the method of the object. -/
def same : SourceText := .ofString "class A \x7b x = \x7b m() \x7b\x7d \x7d; \x7d o.m();"

/-- The call names nothing in the file. -/
def another : SourceText := .ofString "class A \x7b x = \x7b m() \x7b\x7d \x7d; \x7d o.k();"

theorem spells_same : Spells same "m" := ⟨rfl, rfl⟩

theorem spells_another : Spells another "k" := ⟨rfl, rfl⟩

/-- Linking the graph of one file resolves a call that its tables have left unresolved. -/
theorem linked_alone : (Graph.ofFile .epoch (file same)).linkAcrossFiles.2 = 1 := by
  let graph := Graph.ofFile .epoch (file same)
  have linked : ∀ handle, (∃ node, graph.Linked handle node) ↔ handle = 4 := by
    intro handle
    constructor
    · rintro ⟨node, pending, -⟩
      obtain ⟨cursor, call, -, lastAt, -⟩ := call_of_node pending.1 pending.2.1
      exact lastAt.node.symm.trans
        (eq_of_call spells_same (Array.mem_toList_iff.1 lastAt.mem)).1
    · rintro rfl
      obtain ⟨node, pending⟩ := pending_calling spells_same
      obtain ⟨cursor, call, has, -, rfl⟩ := call_of_node pending.1 pending.2.1
      obtain ⟨receiver, callee⟩ := callee_of_hasCall spells_same has
      refine ⟨_, pending, 2, ?_⟩
      rw [Graph.aims_callNode, callee]
      exact method_two spells_same
  have distinct : (graph.linkedCalls.map Graph.LinkedCall.node).Nodup :=
    Graph.nodup_linkedCalls _
  have only : (graph.linkedCalls.map Graph.LinkedCall.node).Perm [4] :=
    (List.perm_ext_iff_of_nodup distinct (List.nodup_singleton 4)).2 fun handle => by
      rw [Graph.mem_linkedCalls_node, linked, List.mem_singleton]
  have length := only.length_eq
  rw [List.length_map] at length
  exact length

/-- If the call names nothing in the file, linking does nothing. -/
theorem unlinked_alone : (file another).CallsAgree ∧
    (Graph.ofFile .epoch (file another)).linkAcrossFiles =
      (Graph.ofFile .epoch (file another), 0) := by
  refine ⟨callsAgree another, (Graph.linkAcrossFiles_ofFile .epoch (callsAgree another)).2 ?_⟩
  rintro ⟨handle, node, target, pending, aims, -⟩
  obtain ⟨cursor, call, has, -, rfl⟩ := call_of_node pending.1 pending.2.1
  obtain ⟨receiver, callee⟩ := callee_of_hasCall spells_another has
  rw [Graph.aims_callNode, callee] at aims
  obtain ⟨⟨function, found, kind, named⟩, -⟩ := aims
  obtain ⟨fact, listed, -, name, -⟩ := function_of_node found kind
  have same := (eq_of_function spells_another listed).2.symm.trans (name.trans named)
  exact absurd same (by decide)

end InField

end Facts

end CodeGraph

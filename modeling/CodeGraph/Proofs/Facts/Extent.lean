import CodeGraph.Facts.Walk
import CodeGraph.Proofs.Flow.Layout
import CodeGraph.Proofs.Graph.EdgeId
import CodeGraph.Proofs.Scope

/-!
# How far the facts extend

The facts about a file only grow: nodes, regions, blocks, statements, scopes, functions and classes
are added and never taken away (`Facts.Extends`). A context is known to the facts if everything that
it names is there (`Context.Known`), and stays known while the facts grow. Nodes keep their kinds
(`Graph.KindIn`), so it also stays true what kind of node a site is.
-/

namespace CodeGraph

theorem Graph.Kept.size_le {before after : Graph} (kept : before.Kept after) :
    before.nodes.size ≤ after.nodes.size := by
  rcases Nat.lt_or_ge after.nodes.size before.nodes.size with less | enough
  · obtain ⟨node, found, -⟩ := kept.nodes _ _ (Array.getElem?_eq_getElem less)
    rw [Array.getElem?_eq_none (Nat.le_refl _)] at found
    cases found
  · exact enough

/-- A handle is that of a node of one of some kinds. -/
def Graph.KindIn (graph : Graph) (handle : Nat) (kinds : List NodeKind) : Prop :=
  ∃ node, graph.nodes[handle]? = some node ∧ node.kind ∈ kinds

namespace Graph.KindIn

variable {graph : Graph} {handle : Nat} {kinds others : List NodeKind}

theorem lt (here : graph.KindIn handle kinds) : handle < graph.nodes.size := by
  obtain ⟨node, found, -⟩ := here
  exact (Array.getElem?_eq_some_iff.1 found).1

theorem kept {after : Graph} (here : graph.KindIn handle kinds) (kept : graph.Kept after) :
    after.KindIn handle kinds := by
  obtain ⟨node, found, kind⟩ := here
  obtain ⟨later, held, -, same, -⟩ := kept.nodes handle node found
  exact ⟨later, held, same ▸ kind⟩

theorem mono (here : graph.KindIn handle kinds) (more : ∀ kind ∈ kinds, kind ∈ others) :
    graph.KindIn handle others := by
  obtain ⟨node, found, kind⟩ := here
  exact ⟨node, found, more _ kind⟩

/-- A node is of one kind only. -/
theorem elim (here : graph.KindIn handle kinds) (there : graph.KindIn handle others) :
    ∃ kind, kind ∈ kinds ∧ kind ∈ others := by
  obtain ⟨node, found, kind⟩ := here
  obtain ⟨node', found', kind'⟩ := there
  obtain rfl := Option.some.inj (found.symm.trans found')
  exact ⟨node.kind, kind, kind'⟩

theorem apart (here : graph.KindIn handle kinds) (none : ∀ kind ∈ kinds, kind ∉ others) :
    ¬ graph.KindIn handle others := by
  intro there
  obtain ⟨kind, inside, also⟩ := here.elim there
  exact none kind inside also

end Graph.KindIn

/-- A handle of a graph is that of a node with a given id. -/
def Graph.IdAt (graph : Graph) (handle : Nat) (id : String) : Prop :=
  ∃ node, graph.nodes[handle]? = some node ∧ node.id = id

theorem Graph.IdAt.kept {before after : Graph} {handle : Nat} {id : String}
    (there : before.IdAt handle id) (kept : before.Kept after) : after.IdAt handle id := by
  obtain ⟨node, found, same⟩ := there
  obtain ⟨later, held, still, -⟩ := kept.nodes handle node found
  exact ⟨later, held, still.trans same⟩

/-- A list of the ids of all nodes tells the id of each. -/
theorem Graph.idAt_of_ids {graph : Graph} {ids : List String}
    (known : graph.nodes.toList.map Node.id = ids) {handle : Nat} {id : String}
    (there : ids[handle]? = some id) : graph.IdAt handle id := by
  rw [← known, List.getElem?_map, Array.getElem?_toList] at there
  obtain ⟨node, found, same⟩ := Option.map_eq_some_iff.1 there
  exact ⟨node, found, same⟩

namespace NodeKind

/-- The kinds of nodes that are made together with a fact about them. -/
def entered : List NodeKind := [func, call]

/-- The kinds of nodes that statements of a region stand at. -/
def steps : List NodeKind := [stmt, expr]

/-- The kinds of nodes between which control passes: the sites of statements, and functions. -/
def turns : List NodeKind := [stmt, expr, func]

/-- The kinds of nodes at which names are written. -/
def writers : List NodeKind := [stmt, expr, cls]

/-- The kinds of nodes at which names are read. -/
def sites : List NodeKind := [stmt, expr, cls, call, func]

/-- The kinds of nodes that names stand for. -/
def bindings : List NodeKind := [var, param]

/-- The kinds of nodes other than functions. -/
def parts : List NodeKind := [cls, var, param, stmt, expr, call]

end NodeKind

/-- `graph.Holds function node`: the containment edges lead from a function down to a node, through no
other function. -/
inductive Graph.Holds (graph : Graph) (function : Nat) : Nat → Prop
  | self : Holds graph function function
  | inner {container node : Nat} : Holds graph function container →
      graph.HasEdge .child container node none → graph.KindIn node NodeKind.parts →
      Holds graph function node

theorem Graph.Holds.kept {before after : Graph} {function node : Nat}
    (holds : before.Holds function node) (kept : before.Kept after) : after.Holds function node := by
  induction holds with
  | self => exact .self
  | inner _ edge kind ih => exact .inner ih (edge.kept kept) (kind.kept kept)

/-- The two kinds of syntax nodes that declare functions as statements. -/
theorem StatementForm.ofKind_eq_function {kind : String} : ofKind kind = .function ↔
    kind = "function_declaration" ∨ kind = "generator_function_declaration" := by
  constructor
  · intro function
    unfold ofKind at function
    split at function
    case h_18 => exact .inl rfl
    case h_19 => exact .inr rfl
    case h_26 =>
      split at function <;> cases function
    all_goals cases function
  · rintro (rfl | rfl) <;> rfl

/-- The one kind of syntax nodes that are methods as expressions. -/
theorem ExpressionForm.ofKind_eq_method {kind : String} : ofKind kind = .method ↔
    kind = "method_definition" := by
  constructor
  · intro method
    unfold ofKind at method
    split at method
    case h_7 => rfl
    case h_15 =>
      split at method <;> cases method
    all_goals cases method
  · rintro rfl
    rfl

namespace Facts

/-! Nothing that is entered as a method declares a function as a statement. -/

theorem form_of_methodKind {kind : String}
    (method : kind = "method_definition" ∨ kind = "abstract_method_signature") :
    StatementForm.ofKind kind ≠ .function := by
  rw [Ne, StatementForm.ofKind_eq_function]
  rcases method with rfl | rfl <;> decide

theorem form_of_isFieldFunction {cursor : Cursor} (function : isFieldFunction cursor = true) :
    StatementForm.ofKind cursor.kind ≠ .function := by
  simp only [isFieldFunction, List.contains_eq_mem, decide_eq_true_eq, List.mem_cons,
    List.not_mem_nil, or_false] at function
  rw [Ne, StatementForm.ofKind_eq_function]
  rcases function with kind | kind | kind <;> rw [kind] <;> decide

theorem form_of_method {kind : String} (method : ExpressionForm.ofKind kind = .method) :
    StatementForm.ofKind kind ≠ .function := by
  rw [Ne, StatementForm.ofKind_eq_function, ExpressionForm.ofKind_eq_method.1 method]
  decide

end Facts

/-- The kinds of nodes at which there are accesses of a kind. -/
def AccessKind.sites : AccessKind → List NodeKind
  | read => NodeKind.sites
  | write => NodeKind.writers

/-- What a fact about a function says from the beginning. -/
structure Signature where
  node : Nat
  name : Option String
  isMethod : Bool
deriving DecidableEq, Repr

/-- What a fact about a function says from the beginning: parameters and returns come later. -/
def FunctionFact.signature (fact : FunctionFact) : Signature :=
  ⟨fact.node, fact.name, fact.isMethod⟩

namespace Facts

/-- What is known of the functions from the beginning. -/
def signatures (facts : Facts) : List Signature := facts.functions.toList.map FunctionFact.signature

theorem length_signatures (facts : Facts) : facts.signatures.length = facts.functions.size := by
  rw [signatures, List.length_map, Array.length_toList]

/-- Adding parameters or returns to a function changes no signature. -/
theorem signatures_modify (facts : Facts) (number : Nat) {change : FunctionFact → FunctionFact}
    (keeps : ∀ fact, (change fact).signature = fact.signature) :
    { facts with functions := facts.functions.modify number change }.signatures =
      facts.signatures := by
  refine List.ext_getElem? fun place => ?_
  simp only [signatures, List.getElem?_map, Array.getElem?_toList, Array.getElem?_modify]
  split
  · cases facts.functions[place]? with
    | none => rfl
    | some fact => exact congrArg some (keeps fact)
  · rfl

theorem signatures_recordReturn (facts : Facts) (function : Option Nat) (site : Nat) :
    (facts.recordReturn function site).signatures = facts.signatures := by
  cases function with
  | none => rfl
  | some number => exact facts.signatures_modify number fun _ => rfl

theorem signatures_pushFunction (facts : Facts) (node : Nat) (name : Option String) (isMethod : Bool) :
    (facts.pushFunction node name isMethod).1.signatures = facts.signatures ++ [⟨node, name, isMethod⟩] := by
  rw [signatures, pushFunction, Array.toList_push, List.map_append]
  rfl

/-- A change to an item that is not there changes nothing. -/
theorem modify_missing {α : Type} {items : Array α} {place : Nat} (missing : items[place]? = none)
    (change : α → α) : items.modify place change = items := by
  refine Array.ext_getElem? fun other => ?_
  rw [Array.getElem?_modify]
  split
  · next same =>
    rw [← same, missing]
    rfl
  · rfl

/-- A statement is pushed to the region of the context and to no other. -/
theorem pushStatement_eq (facts : Facts) (context : Context) (site : Nat) (kind : StatementKind) :
    (facts.pushStatement context site kind).1 =
      { facts with regions := facts.regions.modify context.region fun region =>
          (region.push context.block site kind).1 } := by
  unfold pushStatement
  split
  · rfl
  · next missing => rw [modify_missing missing]

/-- An arm is pushed to the region of the context and to no other. -/
theorem pushArm_eq (facts : Facts) (context : Context) (statement : Nat) (role : Role) :
    (facts.pushArm context statement role).1 =
      { facts with regions := facts.regions.modify context.region fun region =>
          (region.addArm statement role).1 } := by
  unfold pushArm
  split
  · rfl
  · next missing => rw [modify_missing missing]

/-- A statement that is pushed is numbered with the number of statements before. -/
theorem number_of_pushStatement {facts : Facts} {context : Context} {region : Region}
    (found : facts.regions[context.region]? = some region) (site : Nat) (kind : StatementKind) :
    (facts.pushStatement context site kind).2 = region.skeleton.statements.size := by
  rw [pushStatement, found]
  rfl

/-- An arm that is added is numbered with the number of blocks before. -/
theorem number_of_pushArm {facts : Facts} {context : Context} {region : Region}
    (found : facts.regions[context.region]? = some region) (statement : Nat) (role : Role) :
    (facts.pushArm context statement role).2 = region.skeleton.blocks.size := by
  rw [pushArm, found]
  rfl

theorem graph_pushStatement (facts : Facts) (context : Context) (site : Nat) (kind : StatementKind) :
    (facts.pushStatement context site kind).1.graph = facts.graph := by
  rw [pushStatement_eq]

theorem graph_recordReturn (facts : Facts) (function : Option Nat) (site : Nat) :
    (facts.recordReturn function site).graph = facts.graph := by
  cases function <;> rfl

/-- The number of blocks of a region; none if there is no such region. -/
def blocksIn (facts : Facts) (number : Nat) : Nat :=
  (facts.regions[number]?.map fun region => region.skeleton.blocks.size).getD 0

/-- The number of statements of a region; none if there is no such region. -/
def statementsIn (facts : Facts) (number : Nat) : Nat :=
  (facts.regions[number]?.map fun region => region.skeleton.statements.size).getD 0

theorem blocksIn_of_found {facts : Facts} {number : Nat} {region : Region}
    (found : facts.regions[number]? = some region) :
    facts.blocksIn number = region.skeleton.blocks.size := by
  rw [blocksIn, found]
  rfl

theorem statementsIn_of_found {facts : Facts} {number : Nat} {region : Region}
    (found : facts.regions[number]? = some region) :
    facts.statementsIn number = region.skeleton.statements.size := by
  rw [statementsIn, found]
  rfl

/-- A region with a block is there. -/
theorem region_of_block {facts : Facts} {number block : Nat} (there : block < facts.blocksIn number) :
    ∃ region, facts.regions[number]? = some region := by
  cases found : facts.regions[number]? with
  | some region => exact ⟨region, rfl⟩
  | none =>
    rw [blocksIn, found] at there
    exact absurd there (Nat.not_lt_zero _)

/-- Nothing that the facts hold is lost on the way to other facts. -/
structure Extends (before after : Facts) : Prop where
  graph : before.graph.Kept after.graph
  regions : before.regions.size ≤ after.regions.size
  blocks : ∀ number, before.blocksIn number ≤ after.blocksIn number
  statements : ∀ number, before.statementsIn number ≤ after.statementsIn number
  frames : before.scopes.frames <+: after.scopes.frames
  signatures : before.signatures <+: after.signatures
  classes : before.classes.size ≤ after.classes.size

namespace Extends

theorem scopes {before after : Facts} (extend : Extends before after) :
    before.scopes.list.size ≤ after.scopes.list.size := by
  rw [← Scopes.length_frames, ← Scopes.length_frames]
  exact extend.frames.length_le

/-- The signature of a number stays. -/
theorem signature {before after : Facts} (extend : Extends before after) {number : Nat}
    {signature : Signature} (found : before.signatures[number]? = some signature) :
    after.signatures[number]? = some signature := by
  obtain ⟨more, whole⟩ := extend.signatures
  rw [← whole, List.getElem?_append_left (List.getElem?_eq_some_iff.1 found).1, found]

theorem refl (facts : Facts) : Extends facts facts :=
  ⟨.refl _, Nat.le_refl _, fun _ => Nat.le_refl _, fun _ => Nat.le_refl _, List.prefix_rfl,
    List.prefix_rfl, Nat.le_refl _⟩

theorem trans {first second third : Facts} (one : Extends first second)
    (two : Extends second third) : Extends first third where
  graph := one.graph.trans two.graph
  regions := Nat.le_trans one.regions two.regions
  blocks := fun number => Nat.le_trans (one.blocks number) (two.blocks number)
  statements := fun number => Nat.le_trans (one.statements number) (two.statements number)
  frames := one.frames.trans two.frames
  signatures := one.signatures.trans two.signatures
  classes := Nat.le_trans one.classes two.classes

end Extends

/-! ## The operations extend the facts -/

section Operations

variable (facts : Facts)

/-- Facts with the same regions have the same blocks and statements. -/
theorem extends_of_regions_eq {before after : Facts} (same : after.regions = before.regions)
    (graph : before.graph.Kept after.graph)
    (frames : before.scopes.frames <+: after.scopes.frames)
    (signatures : before.signatures <+: after.signatures)
    (classes : before.classes.size ≤ after.classes.size) : Extends before after where
  graph := graph
  regions := Nat.le_of_eq (congrArg Array.size same).symm
  blocks := fun number => by rw [blocksIn, blocksIn, same]
  statements := fun number => by rw [statementsIn, statementsIn, same]
  frames := frames
  signatures := signatures
  classes := classes

/-- A change to one region that takes neither blocks nor statements away. -/
theorem extends_modify (number : Nat) (change : Region → Region)
    (blocks : ∀ region, region.skeleton.blocks.size ≤ (change region).skeleton.blocks.size)
    (statements : ∀ region,
      region.skeleton.statements.size ≤ (change region).skeleton.statements.size) :
    Extends facts { facts with regions := facts.regions.modify number change } where
  graph := .refl _
  regions := by simp
  blocks := by
    intro other
    simp only [blocksIn, Array.getElem?_modify]
    split
    · cases facts.regions[other]? with
      | none => exact Nat.le_refl _
      | some region => exact blocks region
    · exact Nat.le_refl _
  statements := by
    intro other
    simp only [statementsIn, Array.getElem?_modify]
    split
    · cases facts.regions[other]? with
      | none => exact Nat.le_refl _
      | some region => exact statements region
    · exact Nat.le_refl _
  frames := List.prefix_rfl
  signatures := List.prefix_rfl
  classes := Nat.le_refl _

/-- Placing a node below a container adds no other node. -/
theorem nodes_place (node : Node) (parent : Option Nat) :
    (facts.place node parent).1.graph.nodes = (facts.graph.addNode node).1.nodes := by
  unfold place
  cases parent with
  | none => rfl
  | some container =>
    simp only
    split
    · rfl
    · exact Graph.nodes_withEdge _ _ _ _ _ _

/-- Placing a node keeps the graph well-formed. -/
theorem wellFormed_place {facts : Facts} (formed : facts.graph.WellFormed) (node : Node)
    (parent : Option Nat) : (facts.place node parent).1.graph.WellFormed := by
  have added := formed.addNode node
  unfold place
  cases parent with
  | none => exact added
  | some container =>
    simp only
    split
    · exact added
    · exact added.withEdge _ _ _ _ _

/-- The handle that placing a node gives is that of a node with its id. -/
theorem handle_place {facts : Facts} (formed : facts.graph.WellFormed) (node : Node)
    (parent : Option Nat) :
    ∃ held, (facts.place node parent).1.graph.nodes[(facts.place node parent).2]? = some held ∧
      held.id = node.id := by
  obtain ⟨held, found, same⟩ := formed.handle_addNode node
  refine ⟨held, ?_, same⟩
  rw [nodes_place]
  exact found

/-- A node with a new id is placed behind all others. -/
theorem place_new (facts : Facts) (node : Node) (parent : Option Nat) {ids : List String}
    {id : String} (formed : facts.graph.WellFormed)
    (known : facts.graph.nodes.toList.map Node.id = ids) (same : node.id = id) (new : id ∉ ids) :
    ∃ graph, facts.place node parent = ({ facts with graph }, ids.length) ∧
      graph.WellFormed ∧ graph.nodes.toList.map Node.id = ids ++ [id] := by
  have missing : facts.graph.nodeIndex[node.id]? = none := by
    cases found : facts.graph.nodeIndex[node.id]? with
    | none => rfl
    | some handle =>
      obtain ⟨held, there, again⟩ := (formed.nodes_indexed node.id handle).1 found
      refine absurd ?_ new
      rw [← known, ← same, ← again]
      exact List.mem_map_of_mem (Array.mem_toList_iff.2 (Array.mem_of_getElem? there))
  have handle : (facts.place node parent).2 = ids.length := by
    rw [← known, List.length_map, Array.length_toList]
    simp only [place, Graph.addNode, missing]
  refine ⟨(facts.place node parent).1.graph, ?_, wellFormed_place formed node parent, ?_⟩
  · rw [← handle]
    rfl
  · rw [nodes_place]
    simp only [Graph.addNode, missing, Array.toList_push, List.map_append, known, ← same]
    rfl

/-- A node after one was placed is an old one or the one that was placed. -/
theorem node_of_place {facts : Facts} {node held : Node} {parent : Option Nat} {handle : Nat}
    (found : (facts.place node parent).1.graph.nodes[handle]? = some held) :
    facts.graph.nodes[handle]? = some held ∨
      held = node ∧ handle = (facts.place node parent).2 := by
  have second : (facts.place node parent).2 = (facts.graph.addNode node).2 := rfl
  rw [second]
  rw [nodes_place] at found
  unfold Graph.addNode at found ⊢
  cases indexed : facts.graph.nodeIndex[node.id]? with
  | some old =>
    rw [indexed] at found
    exact .inl found
  | none =>
    rw [indexed] at found
    simp only [Array.getElem?_push] at found
    split at found
    · next last => exact .inr ⟨(Option.some.inj found).symm, last⟩
    · exact .inl found

theorem extends_place (node : Node) (parent : Option Nat) :
    Extends facts (facts.place node parent).1 := by
  refine extends_of_regions_eq rfl ?_ List.prefix_rfl List.prefix_rfl (Nat.le_refl _)
  have added := Graph.WellFormed.kept_addNode facts.graph node
  unfold place
  cases parent with
  | none => exact added
  | some container =>
    simp only
    split
    · exact added
    · exact added.trans (Graph.WellFormed.kept_withEdge _ _ _ _ _ _)

theorem extends_record (context : Context) (access : Access) :
    Extends facts (facts.record context access) :=
  facts.extends_modify context.region _
    (fun region => by rw [Region.skeleton_record])
    fun region => by rw [Region.skeleton_record]

theorem extends_pushScope (parent : Nat) (hoists : Bool) :
    Extends facts (facts.pushScope parent hoists).1 :=
  extends_of_regions_eq rfl (.refl _) ⟨_, (Scopes.frames_push _ _ _).symm⟩ List.prefix_rfl
    (Nat.le_refl _)

theorem extends_pushStatement (context : Context) (site : Nat) (kind : StatementKind) :
    Extends facts (facts.pushStatement context site kind).1 := by
  rw [pushStatement_eq]
  exact facts.extends_modify context.region _ (fun region => by simp) fun region => by simp

theorem extends_pushArm (context : Context) (statement : Nat) (role : Role) :
    Extends facts (facts.pushArm context statement role).1 := by
  rw [pushArm_eq]
  exact facts.extends_modify context.region _ (fun region => by simp) fun region => by simp

theorem extends_modifyFunction (number : Nat) {change : FunctionFact → FunctionFact}
    (keeps : ∀ fact, (change fact).signature = fact.signature) :
    Extends facts { facts with functions := facts.functions.modify number change } :=
  extends_of_regions_eq rfl (.refl _) List.prefix_rfl
    ⟨[], by rw [List.append_nil, facts.signatures_modify number keeps]⟩ (Nat.le_refl _)

theorem extends_recordReturn (function : Option Nat) (site : Nat) :
    Extends facts (facts.recordReturn function site) := by
  cases function with
  | none => exact .refl facts
  | some number =>
    exact facts.extends_modifyFunction number fun _ => rfl

theorem extends_declareVariable (scope : Nat) (name : String) (node : Nat) :
    Extends facts { facts with scopes := facts.scopes.declareVariable scope name node } :=
  extends_of_regions_eq rfl (.refl _)
    ⟨[], by rw [List.append_nil, Scopes.frames_declareVariable]⟩ List.prefix_rfl (Nat.le_refl _)

theorem declareFunction_eq (cursor : Cursor) (around inside : Nat) (ownName : Option String)
    (hint : Option Hint) (isMethod : Bool) (node : Nat) :
    facts.declareFunction cursor around inside ownName hint isMethod node =
      { facts with
        scopes := (facts.declareFunction cursor around inside ownName hint isMethod node).scopes } := by
  unfold Facts.declareFunction
  simp only
  repeat' split
  all_goals rfl

theorem frames_declareFunction (cursor : Cursor) (around inside : Nat) (ownName : Option String)
    (hint : Option Hint) (isMethod : Bool) (node : Nat) :
    (facts.declareFunction cursor around inside ownName hint isMethod node).scopes.frames =
      facts.scopes.frames := by
  unfold Facts.declareFunction
  simp only
  repeat' split
  all_goals first | rfl | exact Scopes.frames_declareFunction _ _ _ _

/-- The name of a function or of a class: its own, or else the one that its surroundings suggest. -/
def givenName (file : SourceFile) (cursor : Cursor) (hint : Option Hint) : Option String :=
  ((cursor.field? "name").map file.textOf).orElse fun _ => hint.map Hint.name

/-- What entering a function makes: its node is placed, and it gets a scope, a region and a fact. -/
theorem enterFunction_eq (file : SourceFile) (cursor : Cursor) (context : Context)
    (hint : Option Hint) (isMethod : Bool) :
    (facts.enterFunction file cursor context hint isMethod).facts =
      { (facts.place (functionNode file cursor
          (givenName file cursor hint) isMethod
          (Parameter.ofFunction cursor).length) context.parent).1 with
        scopes := (facts.enterFunction file cursor context hint isMethod).facts.scopes
        regions := facts.regions.push
          { owner := some (facts.enterFunction file cursor context hint isMethod).node }
        functions := facts.functions.push
          { node := (facts.enterFunction file cursor context hint isMethod).node
            name := givenName file cursor hint
            isMethod }
        functionIndex := facts.functionIndex.insert
          (facts.enterFunction file cursor context hint isMethod).node facts.functions.size } := by
  unfold enterFunction pushFunction
  simp only
  rw [declareFunction_eq]
  rfl

/-- The context inside a function names its node, and the scope, the region and the fact that came last. -/
theorem inner_enterFunction (file : SourceFile) (cursor : Cursor) (context : Context)
    (hint : Option Hint) (isMethod : Bool) :
    (facts.enterFunction file cursor context hint isMethod).inner =
      { region := facts.regions.size
        scope := facts.scopes.list.size
        site := some (facts.enterFunction file cursor context hint isMethod).node
        parent := some (facts.enterFunction file cursor context hint isMethod).node
        function := some facts.functions.size } := by
  unfold enterFunction pushFunction
  simp only
  rw [declareFunction_eq]
  rfl

section Entered

variable (file : SourceFile) (cursor : Cursor) (context : Context) (hint : Option Hint) (isMethod : Bool)

theorem graph_enterFunction : (facts.enterFunction file cursor context hint isMethod).facts.graph =
    (facts.place (functionNode file cursor (givenName file cursor hint) isMethod
      (Parameter.ofFunction cursor).length) context.parent).1.graph := by
  rw [enterFunction_eq]

theorem regions_enterFunction : (facts.enterFunction file cursor context hint isMethod).facts.regions =
    facts.regions.push
      { owner := some (facts.enterFunction file cursor context hint isMethod).node } := by
  rw [enterFunction_eq]

theorem functions_enterFunction :
    (facts.enterFunction file cursor context hint isMethod).facts.functions =
      facts.functions.push
        { node := (facts.enterFunction file cursor context hint isMethod).node
          name := givenName file cursor hint
          isMethod } := by
  rw [enterFunction_eq]

theorem functionIndex_enterFunction :
    (facts.enterFunction file cursor context hint isMethod).facts.functionIndex =
      facts.functionIndex.insert (facts.enterFunction file cursor context hint isMethod).node
        facts.functions.size := by
  rw [enterFunction_eq]

theorem calls_enterFunction :
    (facts.enterFunction file cursor context hint isMethod).facts.calls = facts.calls := by
  rw [enterFunction_eq]
  rfl

theorem classes_enterFunction :
    (facts.enterFunction file cursor context hint isMethod).facts.classes = facts.classes := by
  rw [enterFunction_eq]
  rfl

/-- The region of the function comes last, with nothing in it. -/
theorem region_enterFunction :
    (facts.enterFunction file cursor context hint isMethod).facts.regions[facts.regions.size]? =
      some { owner := some (facts.enterFunction file cursor context hint isMethod).node } := by
  rw [regions_enterFunction, Array.getElem?_push_size]

/-- Entering a function adds its signature. -/
theorem signatures_enterFunction :
    (facts.enterFunction file cursor context hint isMethod).facts.signatures =
      facts.signatures ++ [⟨(facts.enterFunction file cursor context hint isMethod).node,
        givenName file cursor hint, isMethod⟩] := by
  rw [signatures, functions_enterFunction, Array.toList_push, List.map_append]
  rfl

/-- The signature of the function has the number that its fact has. -/
theorem signature_enterFunction :
    (facts.enterFunction file cursor context hint isMethod).facts.signatures[facts.functions.size]? =
      some ⟨(facts.enterFunction file cursor context hint isMethod).node,
        givenName file cursor hint, isMethod⟩ := by
  rw [signatures_enterFunction, ← length_signatures, List.getElem?_concat_length]

theorem frames_enterFunction :
    (facts.enterFunction file cursor context hint isMethod).facts.scopes.frames =
      facts.scopes.frames ++ [(facts.scopes.parentIn context.scope, true)] := by
  have declared := frames_declareFunction
    ((facts.place (functionNode file cursor
      (givenName file cursor hint) isMethod
      (Parameter.ofFunction cursor).length) context.parent).1.pushScope context.scope true).1
    cursor context.scope facts.scopes.list.size ((cursor.field? "name").map file.textOf) hint isMethod
    (facts.enterFunction file cursor context hint isMethod).node
  exact declared.trans (Scopes.frames_push _ _ _)

theorem size_enterFunction :
    (facts.enterFunction file cursor context hint isMethod).facts.scopes.list.size =
      facts.scopes.list.size + 1 := by
  rw [← Scopes.length_frames, frames_enterFunction, List.length_append, Scopes.length_frames,
    List.length_singleton]

/-- Declarations with `var` stay in the scope of the function. -/
theorem hoistsAt_enterFunction :
    (facts.enterFunction file cursor context hint isMethod).facts.scopes.hoistsAt
      facts.scopes.list.size = true := by
  rw [Scopes.hoistsAt, frames_enterFunction, ← Scopes.length_frames, List.getElem?_concat_length]
  rfl

end Entered

theorem extends_enterFunction (file : SourceFile) (cursor : Cursor) (context : Context)
    (hint : Option Hint) (isMethod : Bool) :
    Extends facts (facts.enterFunction file cursor context hint isMethod).facts where
  graph := by
    rw [graph_enterFunction]
    exact (extends_place facts _ context.parent).graph
  regions := by
    rw [regions_enterFunction]
    simp
  blocks := by
    intro number
    simp only [blocksIn, regions_enterFunction, Array.getElem?_push]
    split
    · next last => simp [last]
    · exact Nat.le_refl _
  statements := by
    intro number
    simp only [statementsIn, regions_enterFunction, Array.getElem?_push]
    split
    · next last => simp [last]
    · exact Nat.le_refl _
  frames := by
    rw [frames_enterFunction]
    exact List.prefix_append _ _
  signatures := by
    rw [signatures_enterFunction]
    exact List.prefix_append _ _
  classes := by
    rw [classes_enterFunction]

theorem extends_functionBody (file : SourceFile) (cursor : Cursor) (inner : Context) :
    Extends facts (facts.functionBody file cursor inner).1 := by
  unfold functionBody
  split
  · exact .refl facts
  · split
    · exact .refl facts
    · exact ((facts.extends_place _ inner.parent).trans (extends_pushStatement _ inner _ .returns)).trans
        (extends_recordReturn _ inner.function _)

theorem extends_declareIn (node region : Nat) :
    Extends facts { facts with regionOf := facts.regionOf.insert node region } :=
  extends_of_regions_eq rfl (.refl _) List.prefix_rfl List.prefix_rfl (Nat.le_refl _)

theorem extends_addParam (number node : Nat) :
    Extends facts { facts with regions := facts.regions.modify number fun region =>
      { region with params := region.params.push node } } :=
  extends_modify _ _ _ (fun _ => Nat.le_refl _) fun _ => Nat.le_refl _

theorem extends_pushClass (fact : ClassFact) :
    Extends facts { facts with classes := facts.classes.push fact } :=
  extends_of_regions_eq rfl (.refl _) List.prefix_rfl List.prefix_rfl (by simp)

theorem extends_modifyClass (number : Nat) (change : ClassFact → ClassFact) :
    Extends facts { facts with classes := facts.classes.modify number change } :=
  extends_of_regions_eq rfl (.refl _) List.prefix_rfl List.prefix_rfl (by simp)

theorem extends_pushCall (call : CallFact) :
    Extends facts { facts with calls := facts.calls.push call } :=
  extends_of_regions_eq rfl (.refl _) List.prefix_rfl List.prefix_rfl (Nat.le_refl _)

end Operations

end Facts

/-! ## Contexts and tasks -/

/-- The function of a context, if there is one, holds a node. -/
def Context.Around (context : Context) (facts : Facts) (node : Nat) : Prop :=
  ∀ number, context.function = some number → ∃ signature,
    facts.signatures[number]? = some signature ∧ facts.graph.Holds signature.node node

theorem Context.Around.later {context : Context} {before after : Facts} {node : Nat}
    (around : context.Around before node) (extend : before.Extends after) :
    context.Around after node := by
  intro number given
  obtain ⟨signature, found, holds⟩ := around number given
  exact ⟨signature, extend.signature found, holds.kept extend.graph⟩

/-- Everything that a context names is there, and the function around holds what new nodes are put in. -/
structure Context.Known (context : Context) (facts : Facts) : Prop where
  block : context.block < facts.blocksIn context.region
  scope : context.scope < facts.scopes.list.size
  statement : ∀ number, context.statement = some number →
    number < facts.statementsIn context.region
  site : ∀ handle, context.site = some handle → facts.graph.KindIn handle NodeKind.sites
  parent : ∀ handle, context.parent = some handle → handle < facts.graph.nodes.size
  inside : context.function.isSome = true → context.parent.isSome = true
  around : ∀ handle, context.parent = some handle → context.Around facts handle
  /-- The scope belongs to the body of which the region is. -/
  body : facts.scopes.bodies[context.region]? = some (facts.scopes.hoistTarget context.scope)
  /-- What is inside a site is put right below it. -/
  seat : ∀ handle, context.site = some handle → context.parent = some handle

/-- The region of a context is there. -/
theorem Context.Known.region_lt {context : Context} {facts : Facts} (known : context.Known facts) :
    context.region < facts.regions.size := by
  obtain ⟨region, found⟩ := Facts.region_of_block known.block
  exact (Array.getElem?_eq_some_iff.1 found).1

/-- The function of a context has a fact. -/
theorem Context.Known.function_lt {context : Context} {facts : Facts} (known : context.Known facts)
    {number : Nat} (given : context.function = some number) : number < facts.functions.size := by
  obtain ⟨parent, held⟩ := Option.isSome_iff_exists.1 (known.inside (by rw [given]; rfl))
  obtain ⟨signature, found, -⟩ := known.around parent held number given
  have less := (List.getElem?_eq_some_iff.1 found).1
  simpa [Facts.signatures] using less

theorem Context.Known.later {context : Context} {before after : Facts}
    (known : context.Known before) (extend : before.Extends after) : context.Known after where
  block := Nat.lt_of_lt_of_le known.block (extend.blocks _)
  scope := Nat.lt_of_lt_of_le known.scope extend.scopes
  statement := fun number given => Nat.lt_of_lt_of_le (known.statement number given)
    (extend.statements _)
  site := fun handle given => (known.site handle given).kept extend.graph
  parent := fun handle given => Nat.lt_of_lt_of_le (known.parent handle given) extend.graph.size_le
  inside := known.inside
  around := fun handle given => (known.around handle given).later extend
  body := by
    obtain ⟨more, whole⟩ := Scopes.bodies_of_prefix extend.frames
    rw [Scopes.hoistTarget_of_prefix extend.frames known.scope, ← known.body, ← whole,
      List.getElem?_append_left (List.getElem?_eq_some_iff.1 known.body).1]
  seat := known.seat

/-- The walk is inside a site. -/
def Context.Sited (context : Context) : Prop := context.site.isSome = true

/-- The site at which a pattern binds names, unless each name is a site of its own. -/
def BindMode.site? : BindMode → Option Nat
  | declare _ site => some site
  | assign site => some site
  | param _ _ _ _ => none

namespace Task

/-- Where the walk is at a task. -/
def context : Task → Context
  | statement _ context => context
  | loopHeader _ context => context
  | bind _ context _ => context
  | expression _ context _ => context

/-- The site at which a task binds names. -/
def bindsAt? : Task → Option Nat
  | bind _ _ mode => mode.site?
  | _ => none

/-- Whether a task adds statements where the walk is. Patterns and expressions do not: the functions
inside them have regions of their own. -/
def adds : Task → Bool
  | statement _ _ => true
  | loopHeader _ _ => true
  | bind _ _ _ => false
  | expression _ _ _ => false

/-- Everything that a task names is there, and names in patterns and expressions have a site. -/
structure Known (task : Task) (facts : Facts) : Prop where
  context : task.context.Known facts
  binds : ∀ site, task.bindsAt? = some site →
    facts.graph.KindIn site NodeKind.writers ∧ task.context.parent = some site
  sited : task.adds = false → task.context.Sited

theorem Known.later {task : Task} {before after : Facts} (known : task.Known before)
    (extend : before.Extends after) : task.Known after :=
  ⟨known.context.later extend,
    fun site given => (known.binds site given).imp_left fun there => there.kept extend.graph,
    known.sited⟩

end Task

end CodeGraph

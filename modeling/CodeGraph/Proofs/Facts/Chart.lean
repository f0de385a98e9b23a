import Mathlib.Data.List.Forall2
import Mathlib.Data.Option.Basic
import CodeGraph.Proofs.Facts.Sound
import CodeGraph.Proofs.Facts.Owned

/-!
# The walk by a chart

A chart is a list of yields. While the walk stays within a chart (`Facts.Charts`), it places nodes only
where the chart has them, adds statements at sites of the function whose region it is in, and notes
parameters, returns and callers where they belong. A context is at a home (`Context.At`) when its
handles are those of the nodes that the home names. There is one lemma for each operation.
-/

namespace CodeGraph

/-- The function around what is right below a graph node. -/
def Yield.around (yield : Yield) : Option String :=
  if yield.node.kind = .func then some yield.node.id else yield.home.function

/-- A home is right below a node of a chart, inside the function that is around there. No variable or
parameter contains anything. -/
structure Home.Rooted (chart : List Yield) (home : Home) : Prop where
  top : home.container = none → home.function = none
  inner : ∀ id, home.container = some id → ∃ yield ∈ chart, yield.node.id = id ∧
    yield.node.kind.isBinding = false ∧ home.function = yield.around

/-- A node is put where the chart has it, or below itself. -/
def Home.Has (chart : List Yield) (home : Home) (node : Node) : Prop :=
  (∃ yield ∈ chart, yield.node = node ∧ yield.home = home) ∨ home.container = some node.id

theorem Home.has_of_mem {chart : List Yield} {home : Home} {cursor : Cursor} {node : Node}
    {returns : Bool} (inside : { cursor, node, home, returns : Yield } ∈ chart) :
    home.Has chart node := .inl ⟨_, inside, rfl, rfl⟩

theorem Home.Rooted.below {chart : List Yield} {home : Home} {node : Node}
    (rooted : home.Rooted chart) (has : home.Has chart node) (plain : node.kind ≠ .func)
    (contains : node.kind.isBinding = false) : (home.below node).Rooted chart := by
  refine ⟨(fun no => nomatch no), fun id given => ?_⟩
  rcases has with ⟨yield, inside, rfl, rfl⟩ | itself
  · exact ⟨yield, inside, Option.some.inj given, contains, by rw [Yield.around, if_neg plain]; rfl⟩
  · exact rooted.inner id (itself.trans given)

theorem Home.rooted_inside {chart : List Yield} {home : Home} {cursor : Cursor} {node : Node}
    (inside : { cursor, node, home : Yield } ∈ chart) (function : node.kind = .func) :
    (Home.inside node).Rooted chart :=
  ⟨(fun no => nomatch no), fun _ given =>
    ⟨_, inside, Option.some.inj given, by rw [function]; rfl, by
      rw [Yield.around, if_pos function]; rfl⟩⟩

/-- A relation between what may be missing follows from a stronger one. -/
theorem rel_imp {α β : Type} {R S : α → β → Prop} {left : Option α} {right : Option β}
    (imp : ∀ a b, R a b → S a b) (rel : Option.Rel R left right) : Option.Rel S left right := by
  cases rel with
  | some related => exact .some (imp _ _ related)
  | none => exact .none

/-- What is there on the left of such a relation has a partner on the right. -/
theorem rel_some_left {α β : Type} {R : α → β → Prop} {left : Option α} {right : Option β} {a : α}
    (rel : Option.Rel R left right) (given : left = some a) : ∃ b, right = some b ∧ R a b := by
  subst given
  cases rel with
  | some related => exact ⟨_, rfl, related⟩

/-- What is there on the right of such a relation has a partner on the left. -/
theorem rel_some_right {α β : Type} {R : α → β → Prop} {left : Option α} {right : Option β} {b : β}
    (rel : Option.Rel R left right) (given : right = some b) : ∃ a, left = some a ∧ R a b := by
  subst given
  cases rel with
  | some related => exact ⟨_, rfl, related⟩

/-- What is missing on one side of such a relation is missing on the other. -/
theorem rel_none_left {α β : Type} {R : α → β → Prop} {left : Option α} {right : Option β}
    (rel : Option.Rel R left right) (missing : left = none) : right = none := by
  subst missing
  cases rel
  rfl

theorem rel_none_right {α β : Type} {R : α → β → Prop} {left : Option α} {right : Option β}
    (rel : Option.Rel R left right) (missing : right = none) : left = none := by
  subst missing
  cases rel
  rfl

/-- What comes first of each is related if both alternatives are. -/
theorem rel_or {α β : Type} {R : α → β → Prop} {left left' : Option α} {right right' : Option β}
    (first : Option.Rel R left right) (second : Option.Rel R left' right') :
    Option.Rel R (left.or left') (right.or right') := by
  cases first with
  | some related => exact .some related
  | none => exact second

section Related

variable {α β : Type} {R : α → β → Prop} {left : List α} {right : List β}

/-- Lists are related one by one if they are so at every place. -/
theorem forall₂_iff_getElem? :
    List.Forall₂ R left right ↔ ∀ place : Nat, Option.Rel R left[place]? right[place]? := by
  constructor
  · intro related place
    induction related generalizing place with
    | nil => exact .none
    | cons first _ ih =>
      cases place with
      | zero => exact .some first
      | succ place => exact ih place
  · intro each
    induction left generalizing right with
    | nil =>
      cases right with
      | nil => exact .nil
      | cons b right => cases each 0
    | cons a left ih =>
      cases right with
      | nil => cases each 0
      | cons b right =>
        obtain ⟨related⟩ := each 0
        exact .cons related (ih fun place => each (place + 1))

/-- What is in one of two lists that are related one by one has a partner in the other. -/
theorem exists_of_mem_left (related : List.Forall₂ R left right) {a : α} (inside : a ∈ left) :
    ∃ b ∈ right, R a b := by
  obtain ⟨place, found⟩ := List.getElem?_of_mem inside
  obtain ⟨b, listed, there⟩ := rel_some_left (forall₂_iff_getElem?.1 related place) found
  exact ⟨b, List.mem_of_getElem? listed, there⟩

theorem exists_of_mem_right (related : List.Forall₂ R left right) {b : β} (inside : b ∈ right) :
    ∃ a ∈ left, R a b := by
  obtain ⟨place, found⟩ := List.getElem?_of_mem inside
  obtain ⟨a, listed, there⟩ := rel_some_right (forall₂_iff_getElem?.1 related place) found
  exact ⟨a, List.mem_of_getElem? listed, there⟩

/-- The last of each that meets a condition are related if the conditions agree. -/
theorem rel_last (related : List.Forall₂ R left right) {p : α → Bool} {q : β → Bool}
    (agree : ∀ a b, R a b → p a = q b) :
    Option.Rel R (left.reverse.find? p) (right.reverse.find? q) := by
  induction related with
  | nil => exact .none
  | cons first _ ih =>
    rw [List.reverse_cons, List.reverse_cons, List.find?_append, List.find?_append]
    refine rel_or ih ?_
    rw [List.find?_singleton, List.find?_singleton, agree _ _ first]
    split
    · exact .some first
    · exact .none

/-- What holds on each side of two lists that are related one by one may be used for another relation. -/
theorem forall₂_sides {S : α → β → Prop} {P : α → Prop} {Q : β → Prop} (related : List.Forall₂ R left right) (first : ∀ a ∈ left, P a)
    (second : ∀ b ∈ right, Q b) (imp : ∀ a b, R a b → P a → Q b → S a b) :
    List.Forall₂ S left right := by
  obtain ⟨length, each⟩ := List.forall₂_iff_zip.1 related
  refine List.forall₂_iff_zip.2 ⟨length, fun {a b} paired => ?_⟩
  obtain ⟨here, there⟩ := List.of_mem_zip paired
  exact imp a b (each paired) (first a here) (second b there)

end Related

/-- The fact of a number is about the function with an id. -/
def Facts.About (facts : Facts) (number : Nat) (id : String) : Prop :=
  ∃ signature, facts.signatures[number]? = some signature ∧ facts.graph.IdAt signature.node id

theorem Facts.About.later {before after : Facts} {number : Nat} {id : String}
    (about : before.About number id) (extend : before.Extends after) : after.About number id := by
  obtain ⟨signature, found, node⟩ := about
  exact ⟨signature, extend.signature found, node.kept extend.graph⟩

/-- The node of the fact of a number has the id of the function that the fact is about. -/
theorem Facts.About.node {facts : Facts} {number : Nat} {id : String} (about : facts.About number id)
    {fact : FunctionFact} (found : facts.functions[number]? = some fact) :
    facts.graph.IdAt fact.node id := by
  obtain ⟨signature, listed, there⟩ := about
  rw [signatures, List.getElem?_map, Array.getElem?_toList, found, Option.map_some] at listed
  obtain rfl := Option.some.inj listed
  exact there

theorem Facts.About.lt {facts : Facts} {number : Nat} {id : String} (about : facts.About number id) :
    number < facts.functions.size := by
  obtain ⟨signature, listed, -⟩ := about
  simpa [signatures] using (List.getElem?_eq_some_iff.1 listed).1

/-- Everything that a context names is what a home names. -/
structure Context.At (chart : List Yield) (facts : Facts) (context : Context) (home : Home) :
    Prop where
  parent : Option.Rel facts.graph.IdAt context.parent home.container
  function : Option.Rel facts.About context.function home.function
  /-- The regions of functions come in the order of the facts about them, behind that of the module. -/
  region : context.region = (context.function.map (· + 1)).getD 0
  rooted : home.Rooted chart

theorem Context.At.later {chart : List Yield} {before after : Facts} {context : Context} {home : Home}
    (stands : context.At chart before home) (extend : before.Extends after) :
    context.At chart after home :=
  ⟨rel_imp (fun _ _ there => there.kept extend.graph) stands.parent,
    rel_imp (fun _ _ about => about.later extend) stands.function, stands.region, stands.rooted⟩

/-- The node that a context is right below has the id of the container of the home. -/
theorem Context.At.below {chart : List Yield} {facts : Facts} {context : Context} {home : Home}
    (stands : context.At chart facts home) {node : Nat} (given : context.parent = some node) :
    ∃ id, home.container = some id ∧ facts.graph.IdAt node id :=
  rel_some_left stands.parent given

/-- The fact of the function that a context is in is about the function of the home. -/
theorem Context.At.about {chart : List Yield} {facts : Facts} {context : Context} {home : Home}
    (stands : context.At chart facts home) {number : Nat} (given : context.function = some number) :
    ∃ id, home.function = some id ∧ facts.About number id :=
  rel_some_left stands.function given

/-- A handle is that of a node of a chart, which is inside a given function. -/
def Graph.InFunction (graph : Graph) (chart : List Yield) (handle : Nat) (function : Option String) :
    Prop :=
  ∃ yield ∈ chart, graph.IdAt handle yield.node.id ∧ yield.home.function = function

/-- A graph has the node of a yield. -/
def Graph.Bears (graph : Graph) (yield : Yield) : Prop :=
  ∃ handle, graph.IdAt handle yield.node.id

theorem Graph.Bears.kept {before after : Graph} {yield : Yield} (bears : before.Bears yield)
    (kept : before.Kept after) : after.Bears yield := by
  obtain ⟨handle, spot⟩ := bears
  exact ⟨handle, spot.kept kept⟩

theorem Graph.bears_singleton {graph : Graph} {yield : Yield} {site : Nat}
    (spot : graph.IdAt site yield.node.id) : ∀ other ∈ [yield], graph.Bears other := by
  intro other only
  obtain rfl := List.mem_singleton.1 only
  exact ⟨site, spot⟩

/-- The owner of a region, and the sites and kinds of its statements. -/
def Region.plan (region : Region) : Option Nat × List (Nat × StatementKind) :=
  (region.owner, region.skeleton.statements.toList.map fun statement =>
    (statement.site, statement.kind))

namespace Facts

/-- The part of the facts that a chart is about. -/
structure View where
  graph : Graph
  plans : List (Option Nat × List (Nat × StatementKind))
  functions : Array FunctionFact
  calls : Array CallFact

/-- The part of the facts that a chart is about. -/
def view (facts : Facts) : View :=
  ⟨facts.graph, facts.regions.toList.map Region.plan, facts.functions, facts.calls⟩

/-- Note a parameter in the fact about a function. -/
def noteParam (facts : Facts) (number position node : Nat) : Facts :=
  { facts with functions := facts.functions.modify number fun fact =>
      { fact with params := fact.params.push (position, node) } }

/-- Note a call. -/
def noteCall (facts : Facts) (call : CallFact) : Facts :=
  { facts with calls := facts.calls.push call }

/-- The node of the function around a context. -/
def functionAround (facts : Facts) (context : Context) : Option Nat :=
  (context.function.bind fun number => facts.functions[number]?).map FunctionFact.node

/-- `Charts file chart facts`: the walk over a file has made `facts` by operations within a chart.

* `quiet`: what does not concern the chart.
* `place`: a node is placed where the chart has it.
* `param`: a parameter is placed right below a function, and noted in the fact about it.
* `push`: a statement that does not return is added at a site of the function around.
* `returns`: a statement that returns is added, and noted in the fact about the function.
* `enter`: a function gets a region and a fact.
* `call`: a call of the function around is noted. -/
inductive Charts (file : SourceFile) (chart : List Yield) : Facts → Prop
  | start : Charts file chart {}
  | quiet {facts after : Facts} : Charts file chart facts → after.view = facts.view →
      Charts file chart after
  | place {facts : Facts} (node : Node) (parent : Option Nat) (home : Home) :
      Charts file chart facts → file.Draws node → node.kind ≠ .param →
      Option.Rel facts.graph.IdAt parent home.container → home.Rooted chart →
      home.Has chart node → Charts file chart (facts.place node parent).1
  | param {facts : Facts} (cursor : Cursor) (context : Context) (home : Home) (number position : Nat)
      (rest optional hasDefault : Bool) : Charts file chart facts → context.At chart facts home →
      context.function = some number → home.container = home.function →
      { cursor, node := paramNode file cursor position rest optional hasDefault,
        home : Yield } ∈ chart →
      Charts file chart
        ((facts.place (paramNode file cursor position rest optional hasDefault) context.parent
          ).1.noteParam number position
            (facts.place (paramNode file cursor position rest optional hasDefault) context.parent).2)
  | push {facts : Facts} (context : Context) (home : Home) (site : Nat) (kind : StatementKind) :
      Charts file chart facts → context.At chart facts home →
      facts.graph.InFunction chart site home.function → kind ≠ .returns →
      Charts file chart (facts.pushStatement context site kind).1
  | returns {facts : Facts} (context : Context) (home : Home) (site : Nat) :
      Charts file chart facts → context.At chart facts home →
      (∃ yield ∈ chart, facts.graph.IdAt site yield.node.id ∧ yield.home.function = home.function ∧
        yield.returns = true) →
      Charts file chart
        ((facts.pushStatement context site .returns).1.recordReturn context.function site)
  | enter {facts : Facts} (node : Nat) (name : Option String) (isMethod : Bool) :
      Charts file chart facts →
      (∃ yield ∈ chart, facts.graph.IdAt node yield.node.id ∧ yield.node.kind = .func) →
      Charts file chart (facts.pushFunction node name isMethod).1
  | call {facts : Facts} (context : Context) (home : Home) (call : CallFact) :
      Charts file chart facts → context.At chart facts home →
      call.caller = facts.functionAround context →
      facts.graph.InFunction chart call.node home.function →
      Charts file chart (facts.noteCall call)

/-! ## What does not concern a chart -/

section View

variable (facts : Facts)

theorem plan_record (region : Region) (statement : Option Nat) (access : Access) :
    (region.record statement access).plan = region.plan := by
  cases statement <;> rfl

theorem plan_addArm (region : Region) (statement : Nat) (role : Role) :
    (region.addArm statement role).1.plan = region.plan := by
  refine Prod.ext rfl (List.ext_getElem? fun place => ?_)
  simp only [Region.plan, Region.addArm, Skeleton.statements_addArm, List.getElem?_map,
    Array.getElem?_toList, Array.getElem?_modify]
  split
  · cases region.skeleton.statements[place]? <;> rfl
  · rfl

/-- Changing one region does not concern a chart if its plan stays. -/
theorem view_modify (number : Nat) {change : Region → Region}
    (keeps : ∀ region, (change region).plan = region.plan) :
    ({ facts with regions := facts.regions.modify number change } : Facts).view = facts.view := by
  have plans : (facts.regions.modify number change).toList.map Region.plan =
      facts.regions.toList.map Region.plan := by
    refine List.ext_getElem? fun place => ?_
    simp only [List.getElem?_map, Array.getElem?_toList, Array.getElem?_modify]
    split
    · cases facts.regions[place]? with
      | none => rfl
      | some region => exact congrArg some (keeps region)
    · rfl
  simp only [view, plans]

theorem view_record (context : Context) (access : Access) :
    (facts.record context access).view = facts.view :=
  facts.view_modify _ fun region => plan_record region context.statement access

theorem view_pushArm (context : Context) (statement : Nat) (role : Role) :
    (facts.pushArm context statement role).1.view = facts.view := by
  rw [pushArm_eq]
  exact facts.view_modify _ fun region => plan_addArm region statement role

end View

/-! ## What is noted of functions -/

/-- Nothing that was noted of a function is lost. -/
def Remembers (before after : Facts) : Prop :=
  ∀ (number : Nat) (fact : FunctionFact), before.functions[number]? = some fact →
    ∃ later, after.functions[number]? = some later ∧ fact.params.toList ⊆ later.params.toList ∧
      fact.returns.toList ⊆ later.returns.toList

theorem Remembers.refl (facts : Facts) : facts.Remembers facts :=
  fun _ fact found => ⟨fact, found, List.Subset.refl _, List.Subset.refl _⟩

theorem Remembers.trans {first second third : Facts} (one : first.Remembers second)
    (two : second.Remembers third) : first.Remembers third := by
  intro number fact found
  obtain ⟨middle, held, params, returns⟩ := one number fact found
  obtain ⟨last, stood, params', returns'⟩ := two number middle held
  exact ⟨last, stood, List.Subset.trans params params', List.Subset.trans returns returns'⟩

/-- No function is entered, and nothing that was noted of one is lost. -/
structure Keeps (before after : Facts) : Prop where
  size : after.functions.size = before.functions.size
  noted : before.Remembers after

theorem Keeps.of_eq {before after : Facts} (same : after.functions = before.functions) :
    before.Keeps after :=
  ⟨congrArg Array.size same, fun _ fact found =>
    ⟨fact, same ▸ found, List.Subset.refl _, List.Subset.refl _⟩⟩

theorem Keeps.trans {first second third : Facts} (one : first.Keeps second)
    (two : second.Keeps third) : first.Keeps third :=
  ⟨two.size.trans one.size, one.noted.trans two.noted⟩

theorem keeps_modify (facts : Facts) (number : Nat) {change : FunctionFact → FunctionFact}
    (params : ∀ fact, fact.params.toList ⊆ (change fact).params.toList)
    (returns : ∀ fact, fact.returns.toList ⊆ (change fact).returns.toList) :
    facts.Keeps { facts with functions := facts.functions.modify number change } := by
  refine ⟨Array.size_modify, fun place fact found => ?_⟩
  rw [Array.getElem?_modify, found]
  split
  · exact ⟨_, rfl, params fact, returns fact⟩
  · exact ⟨_, rfl, List.Subset.refl _, List.Subset.refl _⟩

theorem keeps_noteParam (facts : Facts) (number position node : Nat) :
    facts.Keeps (facts.noteParam number position node) :=
  facts.keeps_modify number (fun fact => by simp) fun _ => List.Subset.refl _

theorem keeps_recordReturn (facts : Facts) (function : Option Nat) (site : Nat) :
    facts.Keeps (facts.recordReturn function site) := by
  cases function with
  | none => exact .of_eq rfl
  | some number => exact facts.keeps_modify number (fun _ => List.Subset.refl _) fun fact => by simp

theorem functions_pushStatement (facts : Facts) (context : Context) (site : Nat)
    (kind : StatementKind) :
    (facts.pushStatement context site kind).1.functions = facts.functions := by
  rw [pushStatement_eq]

/-! ## Where the walk is -/

/-- `On file chart begun count facts context home`: the walk stays within a chart, has made `facts` by way
of the facts `begun`, has entered so many functions since, and is in a context at a home. -/
structure On (file : SourceFile) (chart : List Yield) (begun : Facts) (count : Nat) (facts : Facts)
    (context : Context) (home : Home) : Prop where
  charts : Charts file chart facts
  extend : begun.Extends facts
  size : facts.functions.size = begun.functions.size + count
  noted : begun.Remembers facts
  stands : context.At chart facts home

/-- The walk is on, and what comes next is right below a node that is no function. -/
structure Opening (file : SourceFile) (chart : List Yield) (begun : Facts) (count : Nat)
    (facts : Facts) (context : Context) (home : Home) (node : Node) (site : Nat) : Prop
    extends On file chart begun count facts context home where
  spot : facts.graph.IdAt site node.id
  rooted : (home.below node).Rooted chart

variable {file : SourceFile} {chart : List Yield} {begun facts : Facts} {count : Nat}
  {context : Context} {home : Home}

/-- The graph within a chart is well-formed, and its nodes stand for nodes of the syntax tree. -/
structure Formed (file : SourceFile) (graph : Graph) : Prop where
  wellFormed : graph.WellFormed
  draws : ∀ (handle : Nat) (node : Node), graph.nodes[handle]? = some node → file.Draws node

theorem draws_paramNode (cursor : Cursor) (position : Nat) (rest optional hasDefault : Bool) :
    file.Draws (paramNode file cursor position rest optional hasDefault) :=
  file.draws_nodeOf cursor fun _ => rfl

/-- The node of a yield is of the kind that the yield says. -/
theorem Formed.kind_of_yield {graph : Graph} (formed : Formed file graph) {yield : Yield}
    (inside : yield ∈ file.yields) {handle : Nat} (spot : graph.IdAt handle yield.node.id) :
    graph.KindIn handle [yield.node.kind] := by
  obtain ⟨node, found, same⟩ := spot
  have id := same.trans (SourceFile.owned inside).1
  obtain ⟨cursor, kind, name, ⟨id', kinds, -⟩, -⟩ := formed.draws handle node found
  obtain ⟨rfl, -⟩ := SourceFile.id_inj (id'.symm.trans id)
  exact ⟨node, found, List.mem_singleton.2 kinds⟩

theorem Formed.place {parent : Option Nat} {node : Node} (formed : Formed file facts.graph)
    (draws : file.Draws node) : Formed file (facts.place node parent).1.graph :=
  ⟨wellFormed_place formed.wellFormed node parent, fun handle _ found =>
    (node_of_place found).elim (formed.draws handle _) fun same => same.1 ▸ draws⟩

theorem Charts.formed (charts : Charts file chart facts) : Formed file facts.graph := by
  induction charts with
  | start => exact ⟨Graph.wellFormed_empty, fun _ _ none => nomatch none⟩
  | @quiet before after _ same ih =>
    have graph : after.graph = before.graph := congrArg View.graph same
    rw [graph]
    exact ih
  | place node parent home _ draws _ _ _ _ ih => exact ih.place draws
  | param cursor context home number position rest optional hasDefault _ _ _ _ _ ih =>
    exact ih.place (draws_paramNode cursor position rest optional hasDefault)
  | push context home site kind _ _ _ _ ih =>
    rw [graph_pushStatement]
    exact ih
  | returns context home site _ _ _ ih =>
    rw [graph_recordReturn, graph_pushStatement]
    exact ih
  | enter node name isMethod _ _ ih => exact ih
  | call context home call _ _ _ _ ih => exact ih

/-! ## Operations -/

namespace On

/-- The walk is where it was when more has been made. -/
theorem later (on : On file chart begun count facts context home) {after : Facts}
    (charts : Charts file chart after) (grown : facts.Extends after) (keeps : facts.Keeps after) :
    On file chart begun count after context home :=
  ⟨charts, on.extend.trans grown, keeps.size.trans on.size, on.noted.trans keeps.noted,
    on.stands.later grown⟩

theorem quiet (on : On file chart begun count facts context home) {after : Facts}
    (same : after.view = facts.view) (grown : facts.Extends after) :
    On file chart begun count after context home :=
  on.later (on.charts.quiet same) grown (.of_eq (congrArg View.functions same))

/-- A part of the step begins. -/
theorem restart (on : On file chart begun count facts context home) :
    On file chart facts 0 facts context home :=
  ⟨on.charts, .refl facts, rfl, .refl facts, on.stands⟩

/-- A part of the step is done. -/
theorem join (on : On file chart begun count facts context home) {after : Facts} {more : Nat}
    {other : Context} {there : Home} (part : On file chart facts more after other there) :
    On file chart begun (count + more) after context home := by
  refine ⟨part.charts, on.extend.trans part.extend, ?_, on.noted.trans part.noted,
    on.stands.later part.extend⟩
  rw [part.size, on.size, Nat.add_assoc]

/-- The walk goes to another context at the same home. -/
theorem go (on : On file chart begun count facts context home) (other : Context)
    (parent : other.parent = context.parent) (function : other.function = context.function)
    (region : other.region = context.region) : On file chart begun count facts other home :=
  { on with
    stands := ⟨parent ▸ on.stands.parent, function ▸ on.stands.function,
      by rw [region, function, on.stands.region], on.stands.rooted⟩ }

/-- A node is placed where the chart has it. -/
theorem plant (on : On file chart begun count facts context home) {node : Node} (draws : file.Draws node)
    (other : node.kind ≠ .param) (has : home.Has chart node) :
    On file chart begun count (facts.place node context.parent).1 context home :=
  on.later (on.charts.place node context.parent home draws other on.stands.parent on.stands.rooted has)
    (extends_place facts node context.parent) (.of_eq rfl)

/-- A node is placed where the chart has it, and the walk may go on below it. -/
theorem put (on : On file chart begun count facts context home) {node : Node} (draws : file.Draws node)
    (plain : node.kind ≠ .func) (contains : node.kind.isBinding = false)
    (has : home.Has chart node) :
    Opening file chart begun count (facts.place node context.parent).1 context home node
      (facts.place node context.parent).2 := by
  have other : node.kind ≠ .param := by
    intro param
    rw [param] at contains
    cases contains
  exact ⟨on.plant draws other has, handle_place on.charts.formed.wellFormed node context.parent,
    on.stands.rooted.below has plain contains⟩

theorem record (on : On file chart begun count facts context home) (access : Access) :
    On file chart begun count (facts.record context access) context home :=
  on.quiet (facts.view_record context access) (extends_record _ _ _)

theorem pushScope (on : On file chart begun count facts context home) (parent : Nat) (hoists : Bool) :
    On file chart begun count (facts.pushScope parent hoists).1 context home :=
  on.quiet rfl (extends_pushScope _ _ _)

theorem declareVariable (on : On file chart begun count facts context home) (scope : Nat) (name : String)
    (node : Nat) :
    On file chart begun count { facts with scopes := facts.scopes.declareVariable scope name node } context
      home :=
  on.quiet rfl (extends_declareVariable _ _ _ _)

theorem declareIn (on : On file chart begun count facts context home) (node region : Nat) :
    On file chart begun count { facts with regionOf := facts.regionOf.insert node region } context home :=
  on.quiet rfl (extends_declareIn _ _ _)

theorem addParam (on : On file chart begun count facts context home) (number node : Nat) :
    On file chart begun count
      { facts with regions := facts.regions.modify number fun region =>
          { region with params := region.params.push node } } context home :=
  on.quiet (facts.view_modify _ fun _ => rfl) (extends_addParam _ _ _)

theorem pushClass (on : On file chart begun count facts context home) (fact : ClassFact) :
    On file chart begun count { facts with classes := facts.classes.push fact } context home :=
  on.quiet rfl (extends_pushClass _ _)

theorem modifyClass (on : On file chart begun count facts context home) (number : Nat)
    (change : ClassFact → ClassFact) :
    On file chart begun count { facts with classes := facts.classes.modify number change } context home :=
  on.quiet rfl (extends_modifyClass _ _ _)

theorem pushArm (on : On file chart begun count facts context home) (statement : Nat) (role : Role) :
    On file chart begun count (facts.pushArm context statement role).1 context home :=
  on.quiet (facts.view_pushArm context statement role) (extends_pushArm _ _ _ _)

end On

namespace Opening

variable {node : Node} {site : Nat}

theorem later (opening : Opening file chart begun count facts context home node site) {after : Facts}
    {other : Context} {there : Home} (part : On file chart facts 0 after other there) :
    Opening file chart begun count after context home node site :=
  ⟨opening.toOn.join part, opening.spot.kept part.extend.graph, opening.rooted⟩

/-- A part of the step begins. -/
theorem restart (opening : Opening file chart begun count facts context home node site) :
    Opening file chart facts 0 facts context home node site :=
  ⟨opening.toOn.restart, opening.spot, opening.rooted⟩

/-- A context right below the node is at the home there. -/
theorem stands_below (opening : Opening file chart begun count facts context home node site)
    (other : Context) (parent : other.parent = some site)
    (function : other.function = context.function) (region : other.region = context.region) :
    other.At chart facts (home.below node) :=
  ⟨parent ▸ .some opening.spot, function ▸ opening.toOn.stands.function,
    by rw [region, function, opening.toOn.stands.region], opening.rooted⟩

/-- The walk goes on right below the node. -/
theorem below (opening : Opening file chart begun count facts context home node site)
    (other : Context) (parent : other.parent = some site)
    (function : other.function = context.function) (region : other.region = context.region) :
    On file chart begun count facts other (home.below node) :=
  { opening.toOn with stands := opening.stands_below other parent function region }

end Opening

theorem draws_statementNode (cursor : Cursor) : file.Draws (statementNode file cursor) :=
  (file.draws_nodeOf cursor fun binding => by cases binding).set _ _

theorem draws_expressionNode (cursor : Cursor) : file.Draws (expressionNode file cursor) :=
  (file.draws_nodeOf cursor fun binding => by cases binding).set _ _

namespace On

/-- A statement is opened that does not return. -/
theorem openStatement (on : On file chart begun count facts context home) {cursor : Cursor}
    (inside : { cursor, node := statementNode file cursor, home : Yield } ∈ chart)
    {kind : StatementKind} (stays : kind ≠ .returns) :
    Opening file chart begun count (facts.openStatement file cursor context kind).facts context home
      (statementNode file cursor) (facts.openStatement file cursor context kind).site := by
  have placed := on.put (draws_statementNode cursor) nofun rfl (Home.has_of_mem inside)
  have pushed := placed.toOn.later (placed.charts.push context home _ kind placed.stands
    ⟨_, inside, placed.spot, rfl⟩ stays) (extends_pushStatement _ _ _ _)
    (.of_eq (functions_pushStatement _ _ _ _))
  exact ⟨pushed, placed.spot.kept (extends_pushStatement _ _ _ _).graph, placed.rooted⟩

/-- A statement is added that returns, at a site of the function around. -/
theorem returns (on : On file chart begun count facts context home) {site : Nat}
    (stands : ∃ yield ∈ chart, facts.graph.IdAt site yield.node.id ∧
      yield.home.function = home.function ∧ yield.returns = true) :
    On file chart begun count
      ((facts.pushStatement context site .returns).1.recordReturn context.function site) context
      home :=
  on.later (on.charts.returns context home site on.stands stands)
    ((extends_pushStatement _ _ _ _).trans (extends_recordReturn _ _ _))
    ((Keeps.of_eq (functions_pushStatement _ _ _ _)).trans (keeps_recordReturn _ _ _))

/-- A statement is opened that returns. -/
theorem openReturn (on : On file chart begun count facts context home) {cursor : Cursor}
    (inside : { cursor, node := statementNode file cursor, home, returns := true : Yield } ∈ chart) :
    Opening file chart begun count
      ((facts.openStatement file cursor context .returns).facts.recordReturn context.function
        (facts.openStatement file cursor context .returns).site) context home
      (statementNode file cursor) (facts.openStatement file cursor context .returns).site := by
  have placed := on.put (draws_statementNode cursor) nofun rfl (Home.has_of_mem inside)
  have returned := placed.toOn.returns ⟨_, inside, placed.spot, rfl, rfl⟩
  exact ⟨returned, placed.spot.kept ((extends_pushStatement _ _ _ _).trans
    (extends_recordReturn _ context.function _)).graph, placed.rooted⟩

end On

end Facts

end CodeGraph

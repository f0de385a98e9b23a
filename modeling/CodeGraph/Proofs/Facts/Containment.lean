import CodeGraph.Proofs.Calls.Across
import CodeGraph.Proofs.Calls.Within
import CodeGraph.Proofs.Facts.Forest
import CodeGraph.Proofs.Graph.Parent

/-!
# Containment in the graph of a file

In a file whose syntax nodes are apart, containment is the forest that the syntax tree asks for, after the
walk and after every stage behind it (`Graph.Forest`): these stages add no node and no containment
(`Graph.Settles`). So the nearest function around a node is found by climbing as far as the home of its
yield says (`Graph.Grown.enclosingFunction?`), and the one around a statement of a region owns the region
(`SourceFile.forest_of_mem_graphs`).
-/

namespace CodeGraph

namespace Graph

variable {graph after : Graph} {chart : List Yield}

/-! ## What the later stages do -/

/-- From one graph to another nothing is lost, and neither a node nor a containment edge is added. -/
structure Settles (before after : Graph) : Prop where
  formed : after.WellFormed
  kept : before.Kept after
  size : after.nodes.size = before.nodes.size
  children : ∀ (source target : Nat) (tag : Option String),
    after.HasEdge .child source target tag → before.HasEdge .child source target tag

namespace Settles

theorem refl (formed : graph.WellFormed) : graph.Settles graph :=
  ⟨formed, .refl graph, rfl, fun _ _ _ has => has⟩

theorem trans {first second third : Graph} (one : first.Settles second)
    (two : second.Settles third) : first.Settles third :=
  ⟨two.formed, one.kept.trans two.kept, two.size.trans one.size, fun source target tag has =>
    one.children source target tag (two.children source target tag has)⟩

/-- The handles keep their ids. -/
theorem idAt_iff (settles : graph.Settles after) {handle : Nat} {id : String} :
    after.IdAt handle id ↔ graph.IdAt handle id := by
  refine ⟨fun there => ?_, fun there => there.kept settles.kept⟩
  have less : handle < graph.nodes.size := settles.size ▸ there.lt
  have held : graph.IdAt handle graph.nodes[handle].id :=
    ⟨_, Array.getElem?_eq_getElem less, rfl⟩
  exact there.unique (held.kept settles.kept) ▸ held

/-- Connections that contain nothing are added. -/
theorem connectAll (settles : graph.Settles after) {connections : List Connection}
    (none : ∀ connection ∈ connections, connection.kind ≠ .child) :
    graph.Settles (after.connectAll connections) := by
  refine settles.trans ⟨settles.formed.connectAll _, WellFormed.kept_connectAll _ _,
    congrArg Array.size (nodes_connectAll _ _), fun source target tag has => ?_⟩
  obtain ⟨edge, inside, kind, sources, targets, from_, to_, left, right, id⟩ := has
  rw [nodes_connectAll] at left right
  rcases edge_of_connectAll inside with old | ⟨connection, listed, same, -⟩
  · exact ⟨edge, old, kind, sources, targets, from_, to_, left, right, id⟩
  · exact absurd (same.symm.trans kind) (none connection listed)

theorem setProperty (settles : graph.Settles after) (handle : Nat) (key : String)
    (value : PropertyValue) : graph.Settles (after.setProperty handle key value) :=
  settles.trans ⟨settles.formed.setProperty _ _ _, WellFormed.kept_setProperty _ _ _ _,
    Array.size_modify, fun _ _ _ has => (hasEdge_setProperty _ _ _ _ _ _ _).1 has⟩

end Settles

/-! ## The forest -/

theorem Grown.settle (grown : graph.Grown chart) (settles : graph.Settles after) :
    after.Grown chart := by
  refine ⟨fun handle node found => ?_, fun source target tag has => ?_⟩
  · have there : handle < graph.nodes.size :=
      settles.size ▸ (Array.getElem?_eq_some_iff.1 found).1
    obtain ⟨later, held, id, kind, -⟩ :=
      settles.kept.nodes handle _ (Array.getElem?_eq_getElem there)
    obtain rfl := Option.some.inj (held.symm.trans found)
    obtain ⟨yield, inside, same, alike, rooted, above⟩ :=
      grown.nodes handle _ (Array.getElem?_eq_getElem there)
    refine ⟨yield, inside, same.trans id.symm, alike.trans kind.symm, rooted, fun id given => ?_⟩
    obtain ⟨source, less, stands, edge⟩ := above id given
    exact ⟨source, less, stands.kept settles.kept, edge.kept settles.kept⟩
  · obtain ⟨plain, yield, inside, stands, id, around, above⟩ :=
      grown.edges source target tag (settles.children source target tag has)
    exact ⟨plain, yield, inside, stands.kept settles.kept, id, around, above.kept settles.kept⟩

/-- A handle is that of the node of a yield. -/
theorem Grown.yieldAt (grown : graph.Grown chart) (told : Told chart) {yield : Yield}
    (inside : yield ∈ chart) {handle : Nat} (stands : graph.IdAt handle yield.node.id) :
    ∃ node, graph.nodes[handle]? = some node ∧ node.kind = yield.node.kind ∧
      yield.home.Rooted chart ∧ ∀ id, yield.home.container = some id →
        ∃ source < handle, graph.IdAt source id ∧ graph.HasEdge .child source handle none := by
  obtain ⟨node, found, id⟩ := stands
  obtain ⟨other, there, same, kind, rest⟩ := grown.nodes handle node found
  obtain rfl := told yield inside other there (id.symm.trans same.symm)
  exact ⟨node, found, kind.symm, rest⟩

/-- What contains the node of a yield is the node that its home names. -/
theorem Grown.container (grown : graph.Grown chart) (told : Told chart) {yield : Yield}
    (inside : yield ∈ chart) {source handle : Nat} {tag : Option String} (stands : graph.IdAt handle yield.node.id)
    (has : graph.HasEdge .child source handle tag) :
    tag = none ∧ ∃ id, yield.home.container = some id ∧ graph.IdAt source id := by
  obtain ⟨plain, other, there, stands', id, given, above⟩ := grown.edges source handle tag has
  obtain rfl := told yield inside other there (stands.unique stands')
  exact ⟨plain, id, given, above⟩

/-- No variable and no parameter contains anything. -/
theorem Grown.source_kind (grown : graph.Grown chart) (told : Told chart) {source handle : Nat}
    {tag : Option String} (has : graph.HasEdge .child source handle tag) {node : Node}
    (found : graph.nodes[source]? = some node) : node.kind.isBinding = false := by
  obtain ⟨-, yield, inside, stands, id, given, above⟩ := grown.edges source handle tag has
  obtain ⟨-, -, -, rooted, -⟩ := grown.yieldAt told inside stands
  obtain ⟨owner, there, rfl, contains, -⟩ := rooted.inner id given
  obtain ⟨node', found', kind, -⟩ := grown.yieldAt told there above
  obtain rfl := Option.some.inj (found.symm.trans found')
  exact kind ▸ contains

section Told

variable (formed : graph.WellFormed) (grown : graph.Grown chart) (told : Told chart)
include formed grown told

/-- Only one node contains a node. -/
theorem Grown.source_unique {source other handle : Nat} {tag tag' : Option String}
    (has : graph.HasEdge .child source handle tag) (has' : graph.HasEdge .child other handle tag') :
    source = other ∧ tag = tag' := by
  obtain ⟨plain, yield, inside, stands, id, given, above⟩ := grown.edges source handle tag has
  obtain ⟨plain', id', given', above'⟩ := grown.container told inside stands has'
  obtain rfl := Option.some.inj (given.symm.trans given')
  exact ⟨formed.idAt_unique above above', plain.trans plain'.symm⟩

/-- A node comes before what it contains. -/
theorem Grown.source_lt {source handle : Nat} {tag : Option String}
    (has : graph.HasEdge .child source handle tag) : source < handle := by
  obtain ⟨-, yield, inside, stands, id, given, above⟩ := grown.edges source handle tag has
  obtain ⟨-, -, -, -, contained⟩ := grown.yieldAt told inside stands
  obtain ⟨other, less, -, has'⟩ := contained id given
  obtain ⟨rfl, -⟩ := grown.source_unique formed told has has'
  exact less

/-- The parent of the node of a yield is the node that its home names. -/
theorem Grown.parent? {yield : Yield} (inside : yield ∈ chart) {handle : Nat}
    (stands : graph.IdAt handle yield.node.id) :
    Option.Rel graph.IdAt (graph.parent? handle) yield.home.container := by
  obtain ⟨-, -, -, -, contained⟩ := grown.yieldAt told inside stands
  cases given : yield.home.container with
  | some id =>
    obtain ⟨source, -, above, has⟩ := contained id given
    rw [formed.parent?_eq_some has fun other tag has' =>
      (grown.source_unique formed told has' has).1]
    exact .some above
  | none =>
    cases above : graph.parent? handle with
    | none => exact .none
    | some source =>
      obtain ⟨tag, has⟩ := formed.hasEdge_parent? above
      obtain ⟨-, id, given', -⟩ := grown.container told inside stands has
      rw [given] at given'
      cases given'

/-- Climbing from the node of a yield ends at the function around it. -/
theorem Grown.climb {steps : Nat} {yield : Yield} (inside : yield ∈ chart) {handle : Nat}
    (enough : handle ≤ steps) (stands : graph.IdAt handle yield.node.id) :
    Option.Rel graph.IdAt (graph.climb graph.parents steps (graph.parent? handle))
      yield.home.function := by
  induction steps generalizing yield handle with
  | zero =>
    obtain ⟨-, -, -, rooted, contained⟩ := grown.yieldAt told inside stands
    cases given : yield.home.container with
    | none =>
      rw [rooted.top given]
      exact .none
    | some id =>
      obtain ⟨source, less, -⟩ := contained id given
      omega
  | succ steps ih =>
    obtain ⟨-, -, -, rooted, contained⟩ := grown.yieldAt told inside stands
    have above := grown.parent? formed told inside stands
    cases given : yield.home.container with
    | none =>
      rw [given] at above
      rw [rooted.top given]
      generalize graph.parent? handle = parent at above
      cases above
      exact .none
    | some id =>
      obtain ⟨source, less, named, has⟩ := contained id given
      obtain ⟨owner, there, rfl, -, around⟩ := rooted.inner id given
      obtain ⟨node, found, kind, -⟩ := grown.yieldAt told there named
      have parent : graph.parent? handle = some source :=
        formed.parent?_eq_some has fun other tag has' => (grown.source_unique formed told has' has).1
      rw [parent, around, Graph.climb, hasKind, found, Option.map_some, kind, Yield.around]
      by_cases func : owner.node.kind = .func
      · rw [func, if_pos rfl, if_pos (by rfl)]
        exact .some named
      · rw [if_neg func, if_neg (by simpa using func)]
        exact ih there (by omega) named

/-- The nearest function around the node of a yield is the one that its home names. -/
theorem Grown.enclosingFunction? {yield : Yield} (inside : yield ∈ chart) {handle : Nat}
    (stands : graph.IdAt handle yield.node.id) :
    Option.Rel graph.IdAt (graph.enclosingFunction? handle) yield.home.function :=
  grown.climb formed told inside stands.lt.le stands

end Told

/-- Containment in a graph is the forest that yields ask for. -/
structure Forest (graph : Graph) (yields : List Yield) : Prop where
  /-- At most one containment edge leads into a node. -/
  single : ∀ (place place' : Nat) (arc arc' : Arc), graph.arcs[place]? = some arc →
    graph.arcs[place']? = some arc' → arc.edge.kind = .child → arc'.edge.kind = .child →
    arc.target = arc'.target → place = place'
  /-- A node has a smaller handle than what it contains. -/
  ascending : ∀ (place : Nat) (arc : Arc), graph.arcs[place]? = some arc → arc.edge.kind = .child →
    arc.source < arc.target
  /-- The parent of a node is what its yield is right below: none just if it is outside of all nodes. -/
  parents : ∀ (handle : Nat) (node : Node), graph.nodes[handle]? = some node →
    ∃ yield ∈ yields, yield.node.id = node.id ∧ yield.node.kind = node.kind ∧
      Option.Rel graph.IdAt (graph.parent? handle) yield.home.container
  /-- Variables and parameters contain nothing. -/
  bare : ∀ (handle : Nat) (node : Node), graph.nodes[handle]? = some node →
    node.kind.isBinding = true → graph.children handle = []

theorem Grown.forest (grown : graph.Grown chart) (formed : graph.WellFormed) (told : Told chart) :
    graph.Forest chart := by
  have edge : ∀ {place : Nat} {arc : Arc}, graph.arcs[place]? = some arc → arc.edge.kind = .child →
      ∃ tag, graph.HasEdge .child arc.source arc.target tag := by
    intro place arc held kind
    obtain ⟨tag, has⟩ := formed.hasEdge_of_mem (mem_edges.2 ⟨place, arc, held, rfl⟩)
    rw [kind, (formed.ends place arc held).1, (formed.ends place arc held).2] at has
    exact ⟨tag, has⟩
  refine ⟨?single, ?ascending, ?parents, ?bare⟩
  case single =>
    intro place place' arc arc' held held' kind kind' same
    obtain ⟨from_, to_, tag, left, right, id⟩ := formed.named place arc held
    obtain ⟨from', to', tag', left', right', id'⟩ := formed.named place' arc' held'
    have has : graph.HasEdge .child arc.source arc.target tag :=
      ⟨arc.edge, mem_edges.2 ⟨place, arc, held, rfl⟩, kind, (formed.ends place arc held).1,
        (formed.ends place arc held).2, from_, to_, left, right, kind ▸ id⟩
    have has' : graph.HasEdge .child arc'.source arc.target tag' :=
      ⟨arc'.edge, mem_edges.2 ⟨place', arc', held', rfl⟩, kind', (formed.ends place' arc' held').1,
        same ▸ (formed.ends place' arc' held').2, from', to', left', same ▸ right', kind' ▸ id'⟩
    obtain ⟨sources, rfl⟩ := grown.source_unique formed told has has'
    -- Both edges have one id, and the graph holds an id once.
    rw [← sources, left] at left'
    rw [← same, right] at right'
    obtain rfl := Option.some.inj left'
    obtain rfl := Option.some.inj right'
    have first := (formed.edges_indexed arc.edge.id place).2 ⟨arc, held, rfl⟩
    have second := (formed.edges_indexed arc.edge.id place').2
      ⟨arc', held', by rw [id, id', kind, kind']⟩
    exact Option.some.inj (first.symm.trans second)
  case ascending =>
    intro place arc held kind
    obtain ⟨tag, has⟩ := edge held kind
    exact grown.source_lt formed told has
  case parents =>
    intro handle node found
    obtain ⟨yield, inside, same, alike, -⟩ := grown.nodes handle node found
    exact ⟨yield, inside, same, alike, grown.parent? formed told inside ⟨node, found, same.symm⟩⟩
  case bare =>
    intro handle node found binding
    refine List.map_eq_nil_iff.2 (List.filter_eq_nil_iff.2 fun arc inside fits => ?_)
    rw [Bool.and_eq_true, beq_iff_eq, beq_iff_eq] at fits
    obtain ⟨rfl, kind⟩ := fits
    obtain ⟨place, held⟩ := Array.mem_iff_getElem?.1 (Array.mem_toList_iff.1 inside)
    obtain ⟨tag, has⟩ := edge held kind
    exact absurd ((grown.source_kind told has found).symm.trans binding) (by decide)

/-- Calls are linked. -/
theorem Settles.linkAcrossFiles (settles : graph.Settles after) :
    graph.Settles after.linkAcrossFiles.1 := by
  have each : ∀ (linked : List LinkedCall) {after : Graph}, graph.Settles after →
      (∀ call ∈ linked, ∀ connection ∈ call.edges, connection.kind ≠ .child) →
      graph.Settles (linked.foldl addLinked after) := by
    intro linked
    induction linked with
    | nil => exact fun settles _ => settles
    | cons call rest ih =>
      intro after settles none
      exact ih ((settles.connectAll (none call List.mem_cons_self)).setProperty _ _ _)
        fun other there => none other (List.mem_cons_of_mem _ there)
  refine each _ settles fun call inside connection asked => ?_
  obtain ⟨node, -, edges⟩ := edges_of_mem_linkedCalls inside
  obtain ⟨target, -, links⟩ := (edges connection).1 asked
  cases links <;> exact nofun

end Graph

namespace Facts

variable {file : SourceFile}

/-- Calls within a file are linked. -/
theorem settles_linkCalls {facts : Facts} {graph after : Graph} (settles : graph.Settles after)
    (nameOf : Nat → String) (calls : List CallFact) :
    graph.Settles (calls.foldl (facts.linkCall nameOf) after) := by
  induction calls generalizing after with
  | nil => exact settles
  | cons call rest ih =>
    refine ih ((settles.setProperty _ _ _).connectAll fun connection inside => ?_)
    obtain ⟨target, -, here⟩ := List.mem_flatMap.1 inside
    cases CallSite.mem_edges.1 here <;> exact nofun

end Facts

namespace SourceFile

/-- The graph of a file after the walk, after the edges of control flow, of data flow, and of the results
of calls, after the calls within the file, at the end, and after linking. -/
def graphs (present : Instant) (file : SourceFile) : List Graph :=
  let facts := Facts.of file
  let controlled := facts.graph.connectAll (facts.stages.control.flatMap Control.Link.connections)
  let accessed := controlled.connectAll facts.stages.access
  let resulting := accessed.connectAll facts.stages.results
  let whole := Graph.ofFile present file
  [facts.graph, controlled, accessed, resulting, facts.assemble, whole, whole.linkAcrossFiles.1]

theorem settles_of_mem_graphs {present : Instant} {file : SourceFile} {graph : Graph}
    (stage : graph ∈ file.graphs present) : (Facts.of file).graph.Settles graph := by
  have sound := Facts.sound_of file
  have walked := Graph.Settles.refl sound.formed
  have controlled := walked.connectAll fun _ inside =>
    (@Facts.foreign_control (Facts.of file) _ inside).child
  have accessed := controlled.connectAll fun _ inside => (sound.foreign_access inside).child
  have resulting := accessed.connectAll fun _ inside => (sound.foreign_results inside).child
  have called : (Facts.of file).graph.Settles (Facts.of file).assemble := by
    rw [Facts.assemble, ← Array.foldl_toList]
    exact Facts.settles_linkCalls resulting _ _
  have size : (Graph.ofFile present file).nodes.size = (Facts.of file).graph.nodes.size := by
    rw [Graph.nodes_ofFile]
    exact called.size
  have whole : (Facts.of file).graph.Settles (Graph.ofFile present file) :=
    ⟨Graph.wellFormed_ofFile present file, Graph.kept_ofFile present file, size,
      fun _ _ _ has => Facts.hasEdge_child.1 has⟩
  simp only [graphs, List.mem_cons, List.not_mem_nil, or_false] at stage
  rcases stage with rfl | rfl | rfl | rfl | rfl | rfl | rfl
  · exact walked
  · exact controlled
  · exact accessed
  · exact resulting
  · exact called
  · exact whole
  · exact whole.linkAcrossFiles

/-- The owners of the regions are no function for the module, and then the functions. -/
theorem map_owner_regions (file : SourceFile) :
    (Facts.of file).regions.toList.map Region.owner = (Facts.of file).owners := by
  rw [← (Facts.charts_of file).settled.owners, Facts.view, List.map_map]
  rfl

/-- The region of a number belongs to the module if the number is zero, and else to a function. -/
theorem owner_eq_none_iff {file : SourceFile} {number : Nat} {region : Region}
    (found : (Facts.of file).regions[number]? = some region) :
    region.owner = none ↔ number = 0 := by
  have same : (Facts.of file).owners[number]? = some region.owner := by
    rw [← map_owner_regions, List.getElem?_map, Array.getElem?_toList, found, Option.map_some]
  rw [Facts.owners] at same
  cases number with
  | zero =>
    rw [List.getElem?_cons_zero] at same
    exact iff_of_true (Option.some.inj same).symm rfl
  | succ number =>
    rw [List.getElem?_cons_succ, List.getElem?_map] at same
    obtain ⟨signature, -, owner⟩ := Option.map_eq_some_iff.1 same
    refine iff_of_false (fun none => ?_) (Nat.succ_ne_zero number)
    rw [none] at owner
    cases owner

/-- The nearest function around the site of a statement owns the region of the statement. -/
theorem enclosingFunction?_of_settles {file : SourceFile} (apart : file.Apart) {graph : Graph}
    (settles : (Facts.of file).graph.Settles graph) {number : Nat} {region : Region}
    (found : (Facts.of file).regions[number]? = some region) {statement : Statement}
    (inside : statement ∈ region.skeleton.statements.toList) :
    graph.enclosingFunction? statement.site = region.owner := by
  have charts := Facts.charts_of file
  have listed : region.plan ∈ (Facts.of file).view.plans :=
    List.mem_map_of_mem (List.mem_of_getElem? (by rw [Array.getElem?_toList, found]))
  obtain ⟨function, owner, sites⟩ := charts.settled.planned _ listed
  obtain ⟨yield, there, stands, around⟩ :=
    sites (statement.site, statement.kind) (List.mem_map.2 ⟨statement, inside, rfl⟩)
  have nearest := (charts.grown.settle settles).enclosingFunction? settles.formed apart.told there
    (stands.kept settles.kept)
  have owner : Option.Rel (Facts.of file).graph.IdAt region.owner function := owner
  rw [around] at nearest
  exact settles.formed.rel_unique nearest
    (rel_imp (fun _ _ held => held.kept settles.kept) owner)

/-- In a file whose syntax nodes are apart, containment is a forest after each stage, and the nearest
function around the site of a statement owns the region of the statement. -/
theorem forest_of_mem_graphs (present : Instant) {file : SourceFile} (apart : file.Apart)
    {graph : Graph} (stage : graph ∈ file.graphs present) :
    graph.Forest file.yields ∧
      ∀ number region, (Facts.of file).regions[number]? = some region →
        (region.owner = none ↔ number = 0) ∧
          ∀ statement ∈ region.skeleton.statements.toList,
            graph.enclosingFunction? statement.site = region.owner := by
  have settles := settles_of_mem_graphs stage
  have grown := (Facts.charts_of file).grown.settle settles
  exact ⟨grown.forest settles.formed apart.told, fun number region found =>
    ⟨owner_eq_none_iff found, fun statement inside =>
      enclosingFunction?_of_settles apart settles found inside⟩⟩

/-- A file with the tree of `function f(a) { if (a) return f(); }`. -/
def retrying : SourceFile where
  path := ⟨"a.ts"⟩
  source := .ofString "function f(a) \x7b if (a) return f(); \x7d"
  tree :=
    let node (kind : String) (field : Option String) (start stop : Nat) (children : List Tree) :=
      Tree.node { kind, field, start, stop, named := true } children
    node "program" none 0 36 [node "function_declaration" none 0 36 [
      node "identifier" (some "name") 9 10 [],
      node "formal_parameters" (some "parameters") 10 13 [node "required_parameter" none 11 12 [
        node "identifier" (some "pattern") 11 12 []]],
      node "statement_block" (some "body") 14 36 [node "if_statement" none 16 34 [
        node "parenthesized_expression" (some "condition") 19 22 [node "identifier" none 20 21 []],
        node "return_statement" (some "consequence") 23 34 [node "call_expression" none 30 33 [
          node "identifier" (some "function") 30 31 [],
          node "arguments" (some "arguments") 31 33 []]]]]]]

theorem retrying_apart : retrying.Apart := by decide +kernel

/-- Containment is a forest in a file with a function that calls itself. -/
theorem retrying_forest : retrying.Apart ∧
    (Graph.ofFile .epoch retrying).linkAcrossFiles.1 ∈ retrying.graphs .epoch ∧
    (Graph.ofFile .epoch retrying).linkAcrossFiles.1.Forest retrying.yields ∧
    ∃ region owner, (Facts.of retrying).regions[1]? = some region ∧ region.owner = some owner ∧
      ∀ statement ∈ region.skeleton.statements.toList,
        (Graph.ofFile .epoch retrying).linkAcrossFiles.1.enclosingFunction? statement.site =
          some owner := by
  have stage : (Graph.ofFile .epoch retrying).linkAcrossFiles.1 ∈ retrying.graphs .epoch := by
    simp [graphs]
  obtain ⟨forest, regions⟩ := forest_of_mem_graphs .epoch retrying_apart stage
  have size : 1 < (Facts.of retrying).regions.size := by decide +kernel
  have found := Array.getElem?_eq_getElem size
  obtain ⟨owned, sites⟩ := regions 1 _ found
  obtain ⟨owner, held⟩ := Option.ne_none_iff_exists'.1 (mt owned.1 Nat.one_ne_zero)
  exact ⟨retrying_apart, stage, forest, _, owner, found, held, held ▸ sites⟩

end SourceFile

end CodeGraph

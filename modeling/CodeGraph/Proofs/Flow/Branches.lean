import CodeGraph.Proofs.Flow.Emission
import CodeGraph.Proofs.Flow.Outline

/-!
# Branches of a conditional

A conditional has two branches, each labelled with its side. A branch that goes back to a loop is
labelled for that instead, so two such branches of one conditional come to one edge: they have no
statement of their own and go back to the same loop. In all other cases the two branches are shown by two
edges, even if they reach the same statement (`Region.Built.branches_apart`).
-/

namespace CodeGraph

namespace Skeleton

variable {skeleton : Skeleton} {s : Nat} {statement : Statement}

/-- The way of one of the two branches of a conditional. -/
def branch (skeleton : Skeleton) (statement : Statement) : Bool → Way
  | true => (skeleton.armOrAfter statement .whenTrue, some .whenTrue)
  | false => (skeleton.armOrAfter statement .whenFalse, some .whenFalse)

/-- A way goes back to a loop. -/
def goesBack (way : Way) : Bool := way.1.any Landing.back

/-- Both branches are ways out of a conditional. -/
theorem mem_ways_branch (kind : statement.kind = .conditional) (side : Bool) :
    skeleton.branch statement side ∈ skeleton.ways statement := by
  refine List.mem_append_left _ ?_
  unfold ownWays
  rw [kind]
  cases side
  · exact List.mem_cons_of_mem _ List.mem_cons_self
  · exact List.mem_cons_self

/-! ## Where ways land -/

/-- What is landed at, if anything, is a statement of the body. -/
def LandsInside (skeleton : Skeleton) (landing : Option Landing) : Prop :=
  ∀ place, landing = some place → ∃ statement, skeleton.statements[place.statement]? = some statement

theorem landsInside_some {place : Landing}
    (stood : skeleton.statements[place.statement]? = some statement) :
    skeleton.LandsInside (some place) := by
  intro other same
  exact Option.some.inj same ▸ ⟨statement, stood⟩

theorem Laid.first_inside (laid : skeleton.Laid) {block first : Nat}
    (found : skeleton.first? block = some first) :
    skeleton.LandsInside (some { statement := first }) := by
  obtain ⟨statement, stood, -⟩ := laid.knows block 0 first found
  exact landsInside_some stood

theorem Laid.intoCleanup_inside (laid : skeleton.Laid) {after : Option Landing}
    (inside : skeleton.LandsInside after) (statement : Statement) :
    skeleton.LandsInside (skeleton.intoCleanup statement after) := by
  unfold intoCleanup
  split
  · next first found =>
    obtain ⟨arm, -, found⟩ := Option.bind_eq_some_iff.1 found
    exact laid.first_inside found
  · exact inside

theorem Laid.pastArm_inside (laid : skeleton.Laid) {after : Option Landing}
    (inside : skeleton.LandsInside after) (stood : skeleton.statements[s]? = some statement)
    (role : Role) : skeleton.LandsInside (skeleton.pastArm s statement after role) := by
  unfold pastArm
  split
  · exact landsInside_some stood
  · exact laid.intoCleanup_inside inside statement
  · exact laid.intoCleanup_inside inside statement
  · exact inside

theorem Laid.throughArms_inside (laid : skeleton.Laid) {after : Option Landing}
    (inside : skeleton.LandsInside after) (stood : skeleton.statements[s]? = some statement)
    (arms : List Nat) : skeleton.LandsInside (skeleton.throughArms s statement after arms) := by
  induction arms with
  | nil => exact inside
  | cons arm rest ih =>
    unfold throughArms
    split
    · next first found => exact laid.first_inside found
    · split
      · exact ih
      · exact laid.pastArm_inside inside stood _
      · exact inside

theorem Laid.leave_inside (laid : skeleton.Laid) (block : Nat) :
    skeleton.LandsInside (skeleton.leave block) := by
  induction block using Nat.strongRecOn with
  | ind block ih =>
    cases owned : skeleton.ownerOf? block with
    | none =>
      rw [leave_of_free owned]
      exact nofun
    | some owner =>
      obtain ⟨s, role⟩ := owner
      obtain ⟨statement, stood, less⟩ := owner_stands owned
      have after : skeleton.LandsInside (skeleton.after statement) := by
        unfold Skeleton.after
        split
        · next next found =>
          obtain ⟨other, there, -⟩ := laid.knows statement.block (statement.index + 1) next found
          exact landsInside_some there
        · exact ih statement.block less
      rw [leave_of_owned owned stood]
      unfold beyond
      split
      · exact laid.throughArms_inside after stood _
      · exact laid.pastArm_inside after stood _

theorem Laid.after_inside (laid : skeleton.Laid) (statement : Statement) :
    skeleton.LandsInside (skeleton.after statement) := by
  unfold Skeleton.after
  split
  · next next found =>
    obtain ⟨other, there, -⟩ := laid.knows statement.block (statement.index + 1) next found
    exact landsInside_some there
  · exact laid.leave_inside statement.block

/-- A branch leads to the first statement of its arm, and behind the conditional if there is none. -/
theorem Laid.armOrAfter_cases (laid : skeleton.Laid) (stood : skeleton.statements[s]? = some statement)
    {role : Role} (plain : role = .whenTrue ∨ role = .whenFalse) :
    (∃ first, skeleton.armOrAfter statement role = some { statement := first } ∧
        skeleton.LandsInside (some { statement := first })) ∨
      skeleton.armOrAfter statement role = skeleton.after statement := by
  unfold armOrAfter
  cases found : skeleton.arm? statement role with
  | none => exact .inr rfl
  | some arm =>
    simp only [enter]
    cases entered : skeleton.first? arm with
    | some first => exact .inl ⟨first, rfl, laid.first_inside entered⟩
    | none =>
      refine .inr ?_
      simp only [leave_of_owned (laid.owned_of_arm? stood found) stood]
      rcases plain with rfl | rfl <;> rfl

theorem Laid.branch_inside (laid : skeleton.Laid) (stood : skeleton.statements[s]? = some statement)
    (side : Bool) : skeleton.LandsInside (skeleton.branch statement side).1 := by
  have each : ∀ role, role = Role.whenTrue ∨ role = .whenFalse →
      skeleton.LandsInside (skeleton.armOrAfter statement role) := by
    intro role plain
    rcases laid.armOrAfter_cases stood plain with ⟨first, same, inside⟩ | same
    · exact same ▸ inside
    · exact same ▸ laid.after_inside statement
  cases side
  · exact each .whenFalse (.inr rfl)
  · exact each .whenTrue (.inl rfl)

/-- Branches that go back go back to the same loop. -/
theorem Laid.same_of_goesBack (laid : skeleton.Laid)
    (stood : skeleton.statements[s]? = some statement)
    (back : ∀ side, goesBack (skeleton.branch statement side) = true) :
    (skeleton.branch statement true).1 = (skeleton.branch statement false).1 := by
  have each : ∀ role, role = Role.whenTrue ∨ role = .whenFalse →
      (skeleton.armOrAfter statement role).any Landing.back = true →
      skeleton.armOrAfter statement role = skeleton.after statement := by
    intro role plain returns
    rcases laid.armOrAfter_cases stood plain with ⟨first, same, -⟩ | same
    · rw [same] at returns
      cases returns
    · exact same
  exact (each .whenTrue (.inl rfl) (back true)).trans
    (each .whenFalse (.inr rfl) (back false)).symm

end Skeleton

namespace Control

/-- The label of the edge that a way comes to. -/
def labelOf (way : Skeleton.Way) : Option Label :=
  match way.1 with
  | some landing => if landing.back then some .back else way.2
  | none => some (way.2.getD .exit)

end Control

namespace Region

/-- The node to which a way of a region leads: the site of the statement where it lands, or the owner if
it leaves the body. -/
def goal? (region : Region) (way : Skeleton.Way) : Option Nat :=
  match way.1 with
  | some landing => region.siteOf? landing.statement
  | none => region.owner

variable {region : Region} {s : Nat} {statement : Statement}

/-- Control passes along each way out of a statement. -/
theorem passes_of_mem_ways (stood : region.skeleton.statements[s]? = some statement)
    {way : Skeleton.Way} (inside : way ∈ region.skeleton.ways statement) {goal : Nat}
    (leads : region.goal? way = some goal) :
    region.Passes (Control.of region.skeleton) statement.site goal (Control.labelOf way) := by
  have site : region.siteOf? s = some statement.site := by
    rw [siteOf?, stood]
    rfl
  obtain ⟨landing, label⟩ := way
  cases landing with
  | some landing =>
    refine .transfer site ?_ leads
    rw [Control.transfersFrom, Control.of]
    simp only [Array.getElem?_map, stood, Option.map_some, Option.getD_some]
    exact List.mem_filterMap.2 ⟨_, inside, rfl⟩
  | none =>
    have exits : (Control.of region.skeleton).exits[s]? =
        some ((region.skeleton.ways statement).filterMap Control.exit?).eraseDups := by
      simp only [Control.of, Array.getElem?_map, stood, Option.map_some]
    refine .exit leads site exits (List.mem_eraseDups.2 ?_)
    exact List.mem_filterMap.2 ⟨_, inside, rfl⟩

/-- The owner and the sites of a region are nodes of a graph. -/
structure PlacedIn (region : Region) (graph : Graph) : Prop where
  owner : ∀ owner, region.owner = some owner → owner < graph.nodes.size
  sites : ∀ s site : Nat, region.siteOf? s = some site → site < graph.nodes.size

end Region

namespace Graph

variable {graph : Graph} {region : Region} {s : Nat} {statement : Statement}

/-- The graph with the edges of the control flow of a region. -/
def withFlow (graph : Graph) (region : Region) : Graph :=
  graph.connectAll (((Control.of region.skeleton).links region).flatMap Control.Link.connections)

/-- An edge shows a way out of a statement at a site: it leads where the way leads, with its label. -/
def Shows (graph : Graph) (region : Region) (site : Nat) (way : Skeleton.Way) (edge : Nat) : Prop :=
  ∃ goal, region.goal? way = some goal ∧
    graph.Labelled .successor site goal ((Control.labelOf way).map Label.text) edge

theorem joins_of_placed (placed : region.PlacedIn graph) (control : Control) :
    ∀ connection ∈ (control.links region).flatMap Control.Link.connections,
      graph.Joins connection := by
  intro connection inside
  obtain ⟨link, listed, there⟩ := List.mem_flatMap.1 inside
  have ends : link.source < graph.nodes.size ∧ link.target < graph.nodes.size := by
    obtain ⟨source, target, label⟩ := link
    cases Control.mem_links.1 listed with
    | entry owned _ first => exact ⟨placed.owner _ owned, placed.sites _ _ first⟩
    | exit owned left _ _ => exact ⟨placed.sites _ _ left, placed.owner _ owned⟩
    | transfer from_ _ to_ => exact ⟨placed.sites _ _ from_, placed.sites _ _ to_⟩
  obtain ⟨-, -, ⟨-, source, target⟩ | ⟨-, source, target⟩⟩ := Control.Link.mem_connections there
  · exact ⟨source ▸ ends.1, target ▸ ends.2⟩
  · exact ⟨source ▸ ends.2, target ▸ ends.1⟩

theorem Tagged.withFlow (tagged : graph.Tagged) (region : Region) : (graph.withFlow region).Tagged := by
  refine tagged.connectAll fun connection inside _ => ?_
  obtain ⟨link, -, there⟩ := List.mem_flatMap.1 inside
  exact (Control.Link.mem_connections there).2.1

/-- Some edge shows each way out of a statement that leads anywhere. -/
theorem exists_shows (formed : graph.WellFormed) (tells : graph.TellsEdges) (tagged : graph.Tagged)
    (placed : region.PlacedIn graph) (stood : region.skeleton.statements[s]? = some statement)
    {way : Skeleton.Way} (inside : way ∈ region.skeleton.ways statement) {goal : Nat}
    (leads : region.goal? way = some goal) :
    ∃ edge, (graph.withFlow region).Shows region statement.site way edge := by
  have has : (graph.withFlow region).HasEdge .successor statement.site goal
      ((Control.labelOf way).map Label.text) := by
    refine (formed.hasEdge_connectAll tells (joins_of_placed placed _) _ _ _ _).2 (.inr ?_)
    exact ⟨_, List.mem_flatMap.2 ⟨⟨statement.site, goal, Control.labelOf way⟩,
      Control.mem_links.2 (Region.passes_of_mem_ways stood inside leads), List.mem_cons_self⟩,
      rfl, rfl, rfl, rfl⟩
  have whole : (graph.withFlow region).WellFormed := formed.connectAll _
  obtain ⟨edge, labelled⟩ := (whole.exists_labelled (tells.connectAll _) (tagged.withFlow region)
    rfl).2 has
  exact ⟨edge, goal, leads, labelled⟩

/-- Edges that show ways with different labels are different edges. -/
theorem ne_of_shows {site edge other : Nat} {way way' : Skeleton.Way}
    (shows_ : graph.Shows region site way edge) (shows' : graph.Shows region site way' other)
    (differ : (Control.labelOf way).map Label.text ≠ (Control.labelOf way').map Label.text) :
    edge ≠ other := by
  rintro rfl
  obtain ⟨_, -, arc, held, -, -, -, label⟩ := shows_
  obtain ⟨_, -, arc', held', -, -, -, label'⟩ := shows'
  obtain rfl := Option.some.inj (held.symm.trans held')
  exact differ (label.symm.trans label')

end Graph

namespace Region.Built

variable {graph : Graph} {region : Region} {s : Nat} {statement : Statement}

/-- The labels of the two branches differ unless both go back. -/
theorem labelOf_branch_ne {skeleton : Skeleton}
    (forth : ¬ ∀ side, Skeleton.goesBack (skeleton.branch statement side) = true) :
    (Control.labelOf (skeleton.branch statement true)).map Label.text ≠
      (Control.labelOf (skeleton.branch statement false)).map Label.text := by
  have label : ∀ (landing : Option Landing) (own : Label),
      Control.labelOf (landing, some own) =
        if Skeleton.goesBack (landing, some own) then some .back else some own := by
    intro landing own
    cases landing with
    | none => rfl
    | some landing => rfl
  have sides : ¬ (Skeleton.goesBack (skeleton.branch statement true) = true ∧
      Skeleton.goesBack (skeleton.branch statement false) = true) :=
    fun both => forth fun side => by cases side; exacts [both.2, both.1]
  unfold Skeleton.branch at sides ⊢
  rw [label, label]
  split
  · next back =>
    rw [if_neg fun also => sides ⟨back, also⟩]
    decide
  · split <;> decide

/-- Two branches that both go back are shown by one edge. -/
theorem branches_meet (built : region.Built) (formed : graph.WellFormed) (tagged : graph.Tagged)
    (stood : region.skeleton.statements[s]? = some statement)
    (back : ∀ side, Skeleton.goesBack (region.skeleton.branch statement side) = true)
    {one other : Nat}
    (shows_ : (graph.withFlow region).Shows region statement.site
      (region.skeleton.branch statement true) one)
    (shows' : (graph.withFlow region).Shows region statement.site
      (region.skeleton.branch statement false) other) : one = other := by
  obtain ⟨goal, leads, labelled⟩ := shows_
  obtain ⟨goal', leads', labelled'⟩ := shows'
  have same := built.laid.same_of_goesBack stood back
  have goals : region.goal? (region.skeleton.branch statement true) =
      region.goal? (region.skeleton.branch statement false) := by
    rw [Region.goal?, Region.goal?, same]
  obtain rfl : goal = goal' := Option.some.inj ((leads.symm.trans goals).trans leads')
  have label : ∀ side, Control.labelOf (region.skeleton.branch statement side) = some .back := by
    intro side
    have returns := back side
    unfold Skeleton.goesBack at returns
    obtain ⟨landing, lands, returns⟩ := (Option.any_eq_true _ _).1 returns
    rw [Control.labelOf, lands]
    simp only [returns, if_true]
  rw [label] at labelled labelled'
  exact labelled.unique (formed.connectAll _) (tagged.withFlow region) rfl labelled'

/-- The two branches of a conditional are shown by two edges, unless both go back to a loop. -/
theorem branches_apart (built : region.Built) (formed : graph.WellFormed) (tells : graph.TellsEdges)
    (tagged : graph.Tagged) (placed : region.PlacedIn graph) {owner : Nat}
    (owned : region.owner = some owner) (stood : region.skeleton.statements[s]? = some statement)
    (kind : statement.kind = .conditional) :
    (∃ one other, one ≠ other ∧
        (graph.withFlow region).Shows region statement.site
          (region.skeleton.branch statement true) one ∧
        (graph.withFlow region).Shows region statement.site
          (region.skeleton.branch statement false) other) ↔
      ¬ ∀ side, Skeleton.goesBack (region.skeleton.branch statement side) = true := by
  constructor
  · rintro ⟨one, other, apart, shows_, shows'⟩ back
    exact apart (built.branches_meet formed tagged stood back shows_ shows')
  · intro forth
    have each : ∀ side, ∃ edge, (graph.withFlow region).Shows region statement.site
        (region.skeleton.branch statement side) edge := by
      intro side
      have leads : ∃ goal, region.goal? (region.skeleton.branch statement side) = some goal := by
        unfold Region.goal?
        cases lands : (region.skeleton.branch statement side).1 with
        | none => exact ⟨owner, owned⟩
        | some landing =>
          obtain ⟨there, held⟩ := built.laid.branch_inside stood side landing lands
          exact ⟨there.site, by simp only [siteOf?, held, Option.map_some]⟩
      obtain ⟨goal, leads⟩ := leads
      exact Graph.exists_shows formed tells tagged placed stood
        (Skeleton.mem_ways_branch kind side) leads
    obtain ⟨one, shows_⟩ := each true
    obtain ⟨other, shows'⟩ := each false
    exact ⟨one, other, Graph.ne_of_shows shows_ shows' (labelOf_branch_ne forth), shows_, shows'⟩

/-! ## A conditional at the end of a loop -/

/-- A function and three statements. -/
def functionNodes : Graph :=
  let place (line : Nat) : Location := ⟨⟨"a.ts"⟩, line, 1⟩
  let graph := (Graph.empty.addNode ⟨"f", .func, some "f", place 1, {}⟩).1
  let graph := (graph.addNode ⟨"loop", .stmt, none, place 2, {}⟩).1
  let graph := (graph.addNode ⟨"choice", .stmt, none, place 3, {}⟩).1
  (graph.addNode ⟨"last", .stmt, none, place 4, {}⟩).1

theorem nodes_functionNodes : functionNodes.nodes =
    #[⟨"f", .func, some "f", ⟨⟨"a.ts"⟩, 1, 1⟩, {}⟩, ⟨"loop", .stmt, none, ⟨⟨"a.ts"⟩, 2, 1⟩, {}⟩,
      ⟨"choice", .stmt, none, ⟨⟨"a.ts"⟩, 3, 1⟩, {}⟩, ⟨"last", .stmt, none, ⟨⟨"a.ts"⟩, 4, 1⟩, {}⟩] := by
  simp [functionNodes, Graph.addNode, Graph.empty]

theorem arcs_functionNodes : functionNodes.arcs = #[] := by
  simp [functionNodes, Graph.addNode, Graph.empty]

theorem functionNodes_wellFormed : functionNodes.WellFormed :=
  (((Graph.wellFormed_empty.addNode _).addNode _).addNode _).addNode _

theorem functionNodes_plain : functionNodes.PlainIds := by
  refine Graph.plainIds_of_nodes nodes_functionNodes ?_
  unfold Graph.Plain
  decide

theorem functionNodes_tagged : functionNodes.Tagged := by
  intro handle arc held
  rw [arcs_functionNodes] at held
  cases held

/-- A loop whose body is a conditional with nothing in it. -/
def idling : Region :=
  let region : Region := (Region.push { owner := some 0 } 0 1 .loop).1
  let region := (region.addArm 0 .loopBody).1
  (region.push 1 2 .conditional).1

/-- The same with a statement on one side. -/
def working : Region := ((idling.addArm 1 .whenTrue).1.push 2 3 .simple).1

theorem idling_built : idling.Built := by
  have loop := (Built.start (some 0) #[]).push 0 1 .loop (by decide)
  have body := loop.addArm 0 .loopBody (by decide)
  exact body.push 1 2 .conditional (by decide)

theorem working_built : working.Built :=
  (idling_built.addArm 1 .whenTrue (by decide)).push 2 3 .simple (by decide)

theorem placed_functionNodes {region : Region} (owned : region.owner = some 0)
    (sites : ∀ statement ∈ region.skeleton.statements.toList, statement.site < 4) :
    region.PlacedIn functionNodes := by
  have size : functionNodes.nodes.size = 4 := by rw [nodes_functionNodes]; rfl
  refine ⟨fun owner same => ?_, fun s site found => ?_⟩
  · obtain rfl := Option.some.inj (owned.symm.trans same)
    rw [size]
    decide
  · obtain ⟨statement, stood, rfl⟩ := Option.map_eq_some_iff.1 found
    rw [size]
    exact sites statement (Array.mem_toList_iff.2 (Array.mem_of_getElem? stood))

/-- A branch with a statement and one that goes back are two edges. -/
theorem working_branches : ∃ statement, working.skeleton.statements[1]? = some statement ∧
    statement.kind = .conditional ∧ working.Built ∧ working.PlacedIn functionNodes ∧
    ∃ one other, one ≠ other ∧
      (functionNodes.withFlow working).Shows working statement.site
        (working.skeleton.branch statement true) one ∧
      (functionNodes.withFlow working).Shows working statement.site
        (working.skeleton.branch statement false) other := by
  have placed : working.PlacedIn functionNodes := placed_functionNodes rfl (by decide)
  have stood : working.skeleton.statements[1]? = some ⟨2, .conditional, 1, 0, #[2]⟩ := rfl
  refine ⟨_, stood, rfl, working_built, placed, ?_⟩
  refine (working_built.branches_apart functionNodes_wellFormed
    (functionNodes_wellFormed.tellsEdges_of_plain functionNodes_plain) functionNodes_tagged placed
    rfl stood rfl).2 ?_
  decide +kernel

/-- A conditional with nothing in it, at the end of a loop, has one edge for its two branches. -/
theorem idling_branches : idling.Built ∧ idling.skeleton.ArmsFit ∧ idling.owner = some 0 ∧
    idling.PlacedIn functionNodes ∧ functionNodes.WellFormed ∧ functionNodes.PlainIds ∧
    (idling.skeleton.statements.toList.map Statement.site).Nodup ∧
    (∃ statement, idling.skeleton.statements[1]? = some statement ∧
      statement.site = 2 ∧ statement.kind = .conditional) ∧
    ∀ one other goal goal' label label',
      (functionNodes.withFlow idling).Labelled .successor 2 goal label one →
      (functionNodes.withFlow idling).Labelled .successor 2 goal' label' other → one = other := by
  have fits : idling.skeleton.ArmsFit := by
    unfold Skeleton.ArmsFit
    decide
  have placed : idling.PlacedIn functionNodes := placed_functionNodes rfl (by decide)
  refine ⟨idling_built, fits, rfl, placed, functionNodes_wellFormed, functionNodes_plain, by decide,
    ⟨_, rfl, rfl, rfl⟩, fun one other goal goal' label label' labelled labelled' => ?_⟩
  have tells := functionNodes_wellFormed.tellsEdges_of_plain functionNodes_plain
  have formed : (functionNodes.withFlow idling).WellFormed := functionNodes_wellFormed.connectAll _
  have tagged := functionNodes_tagged.withFlow idling
  have links : ∀ link ∈ (Control.of idling.skeleton).links idling, link.source = 2 →
      link.target = 1 ∧ link.label = some .back := by decide +kernel
  have only : ∀ goal label edge, (functionNodes.withFlow idling).Labelled .successor 2 goal label edge →
      goal = 1 ∧ label = some "back" := by
    intro goal label edge labelled
    have has := (formed.exists_labelled (tells.connectAll _) tagged rfl).1 ⟨edge, labelled⟩
    rcases (functionNodes_wellFormed.hasEdge_connectAll tells (Graph.joins_of_placed placed _)
      _ _ _ _).1 has with ⟨old, inside, -⟩ | ⟨connection, inside, kind, source, target, tag⟩
    · rw [Graph.edges, arcs_functionNodes] at inside
      cases inside
    · obtain ⟨link, listed, there⟩ := List.mem_flatMap.1 inside
      obtain ⟨same, -, ⟨-, sources, targets⟩ | ⟨wrong, -⟩⟩ := Control.Link.mem_connections there
      · obtain ⟨back, named⟩ := links link listed (sources.symm.trans source)
        rw [named] at same
        exact ⟨target.symm.trans (targets.trans back), tag.symm.trans same⟩
      · cases kind.symm.trans wrong
  obtain ⟨rfl, rfl⟩ := only _ _ _ labelled
  obtain ⟨rfl, rfl⟩ := only _ _ _ labelled'
  exact labelled.unique formed tagged rfl labelled'

end Region.Built

end CodeGraph

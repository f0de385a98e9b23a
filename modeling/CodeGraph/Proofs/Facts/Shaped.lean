import CodeGraph.Proofs.Facts.Run
import CodeGraph.Proofs.Flow.Forest

/-!
# The shape of the regions

The walk adds the arms of a statement at once, when it opens the statement, in an order that depends on
the kind of the statement only; what is in the arms comes much later, when the walk may have been in other
regions. So at every moment of the walk the arms of all statements play roles that their kinds take, and
the arm of a handler begins with the clause (`Facts.Shaped`). Every operation keeps this but that of
adding an arm, which is looked at together with the statement that was opened (`Facts.Arms`).

It follows that the regions of a file are forests of statements (`Facts.regions_wellFormed`).
-/

namespace CodeGraph

/-- `region.Handles file graph s arm`: an arm of the statement `s` begins with the clause that handles what
the statement guards. -/
def Region.Handles (region : Region) (file : SourceFile) (graph : Graph) (s arm : Nat) : Prop :=
  ∃ (guarded clause : Cursor) (owner opening : Statement) (first : Nat),
    file.Has guarded ∧ StatementForm.ofKind guarded.kind = .guarded ∧
    guarded.field? "handler" = some clause ∧
    region.skeleton.statements[s]? = some owner ∧
    graph.IdAt owner.site (file.nodeOf guarded .stmt none).id ∧
    region.skeleton.first? arm = some first ∧
    region.skeleton.statements[first]? = some opening ∧ opening.kind = .simple ∧
    graph.IdAt opening.site (file.nodeOf clause .stmt none).id

/-- What holds of the shape of a region at every moment of the walk. -/
structure Region.Shaped (region : Region) (file : SourceFile) (graph : Graph) : Prop where
  laid : region.skeleton.Laid
  takes : ∀ (s : Nat) (statement : Statement), region.skeleton.statements[s]? = some statement →
    statement.kind.Takes (region.skeleton.rolesOf statement)
  handles : ∀ s arm, region.skeleton.ownerOf? arm = some (s, .handler) →
    region.Handles file graph s arm

namespace Skeleton

variable {skeleton : Skeleton} {block : Nat}

theorem first?_push (site : Nat) (kind : StatementKind) {first : Nat}
    (held : skeleton.first? block = some first) (other : Nat) :
    (skeleton.push other site kind).1.first? block = some first := by
  rw [first?, statementsOf_push]
  split
  · have there := (Array.getElem?_eq_some_iff.1 held).1
    rw [Array.getElem?_push, if_neg (Nat.ne_of_lt there)]
    exact held
  · exact held

/-- A statement that is put into an arm right after the arm was added is the first one there. -/
theorem first?_push_addArm (skeleton : Skeleton) (s : Nat) (role : Role) (site : Nat)
    (kind : StatementKind) :
    ((skeleton.addArm s role).1.push skeleton.blocks.size site kind).1.first? skeleton.blocks.size =
        some skeleton.statements.size ∧
      ∃ statement, ((skeleton.addArm s role).1.push skeleton.blocks.size site kind).1.statements[
        skeleton.statements.size]? = some statement ∧ statement.kind = kind ∧
          statement.site = site := by
  have blocks : (skeleton.addArm s role).1.blocks.size = skeleton.blocks.size + 1 :=
    Array.size_push _
  have statements : (skeleton.addArm s role).1.statements.size = skeleton.statements.size :=
    Array.size_modify
  have place : (skeleton.addArm s role).1.blockIn skeleton.blocks.size = skeleton.blocks.size :=
    if_pos (by omega)
  refine ⟨?first, ?stands⟩
  case first =>
    rw [first?, statementsOf_push, if_pos place, statementsOf_addArm, statementsOf,
      Array.getElem?_eq_none (Nat.le_refl _)]
    exact congrArg some statements
  case stands =>
    rw [statements_push, Array.getElem?_push, if_pos statements.symm]
    exact ⟨_, rfl, rfl, rfl⟩

end Skeleton

namespace Region

variable {region : Region} {file : SourceFile} {graph after : Graph} {s arm : Nat}

/-! ## What keeps the shape of a region -/

/-- What was there stays in place. -/
theorem Handles.later {other : Region} (handles : region.Handles file graph s arm)
    (kept : graph.Kept after)
    (statements : ∀ (number : Nat) (statement : Statement),
      region.skeleton.statements[number]? = some statement →
        ∃ statement', other.skeleton.statements[number]? = some statement' ∧
          statement'.kind = statement.kind ∧ statement'.site = statement.site)
    (first : ∀ number, region.skeleton.first? arm = some number →
      other.skeleton.first? arm = some number) : other.Handles file after s arm := by
  obtain ⟨guarded, clause, owner, opening, number, has, form, handler, stood, site, held, stands,
    simple, node⟩ := handles
  obtain ⟨owner', stood', -, site'⟩ := statements s owner stood
  obtain ⟨opening', stands', kind', node'⟩ := statements number opening stands
  exact ⟨guarded, clause, owner', opening', number, has, form, handler, stood',
    site' ▸ site.kept kept, first number held, stands', kind'.trans simple, node' ▸ node.kept kept⟩

theorem Handles.push (handles : region.Handles file graph s arm) (block site : Nat)
    (kind : StatementKind) : (region.push block site kind).1.Handles file graph s arm :=
  handles.later (.refl graph)
    (fun _ statement stood => ⟨statement, Skeleton.kept_push _ block site kind stood, rfl, rfl⟩)
    fun _ held => Skeleton.first?_push site kind held block

theorem Handles.addArm (handles : region.Handles file graph s arm) (statement : Nat) (role : Role) :
    (region.addArm statement role).1.Handles file graph s arm :=
  handles.later (.refl graph) (fun _ _ stood => Skeleton.kept_addArm _ statement role stood)
    fun _ held => by rw [Region.addArm, Skeleton.first?, Skeleton.statementsOf_addArm]; exact held

namespace Shaped

theorem empty (file : SourceFile) (graph : Graph) (owner : Option Nat) (params : Array Nat) :
    ({ owner, params } : Region).Shaped file graph := by
  refine ⟨Skeleton.laid_empty, fun _ _ none => (nomatch none), fun s arm owned => ?_⟩
  cases arm <;> cases owned

theorem kept (shaped : region.Shaped file graph) (kept : graph.Kept after) :
    region.Shaped file after :=
  ⟨shaped.laid, shaped.takes, fun s arm owned => (shaped.handles s arm owned).later kept
    (fun _ statement stood => ⟨statement, stood, rfl, rfl⟩) fun _ held => held⟩

/-- Only the skeleton matters. -/
theorem of_skeleton {other : Region} (shaped : region.Shaped file graph)
    (same : other.skeleton = region.skeleton) : other.Shaped file graph := by
  refine ⟨same ▸ shaped.laid, same ▸ shaped.takes, fun s arm owned => ?_⟩
  refine (shaped.handles s arm (same ▸ owned)).later (.refl graph) ?_ ?_
  · exact fun _ statement stood => ⟨statement, same ▸ stood, rfl, rfl⟩
  · exact fun _ held => same ▸ held

/-- A new statement has no arms, and stands behind those that are there. -/
theorem push (shaped : region.Shaped file graph) (block site : Nat) (kind : StatementKind) :
    (region.push block site kind).1.Shaped file graph := by
  refine ⟨shaped.laid.push block site kind, fun s statement stood => ?_, fun s arm owned => ?_⟩
  · rw [Region.push, Skeleton.rolesOf_push]
    rcases Skeleton.statement_of_push stood with old | ⟨rfl, rfl⟩
    · exact shaped.takes s statement old
    · exact kind.takes_nil
  · rw [Region.push, Skeleton.ownerOf?_push] at owned
    exact (shaped.handles s arm owned).push block site kind

/-- The roles of the arms fit if the role of the arm that is added does. -/
theorem takes_addArm (shaped : region.Shaped file graph) {role : Role} {statement : Statement}
    (stood : region.skeleton.statements[s]? = some statement)
    (fits : statement.kind.Takes (region.skeleton.rolesOf statement ++ [role])) (number : Nat)
    (changed : Statement)
    (found : (region.addArm s role).1.skeleton.statements[number]? = some changed) :
    changed.kind.Takes ((region.addArm s role).1.skeleton.rolesOf changed) := by
  have there := (Array.getElem?_eq_some_iff.1 stood).1
  obtain ⟨before, held, rfl⟩ := Skeleton.statement_of_addArm found
  rw [Region.addArm, shaped.laid.rolesOf_addArm there role held]
  split
  · next same =>
    subst same
    obtain rfl := Option.some.inj (stood.symm.trans held)
    exact fits
  · rw [List.append_nil]
    exact shaped.takes number before held

/-- An arm may be added that is no handler. -/
theorem addArm (shaped : region.Shaped file graph) {role : Role} {statement : Statement}
    (stood : region.skeleton.statements[s]? = some statement)
    (fits : statement.kind.Takes (region.skeleton.rolesOf statement ++ [role]))
    (plain : role ≠ .handler) : (region.addArm s role).1.Shaped file graph := by
  have there := (Array.getElem?_eq_some_iff.1 stood).1
  refine ⟨shaped.laid.addArm there role, shaped.takes_addArm stood fits, fun other arm owned => ?_⟩
  rw [Region.addArm, Skeleton.ownerOf?_addArm _ there] at owned
  split at owned
  · exact absurd (Prod.mk.inj (Option.some.inj owned)).2 plain
  · exact (shaped.handles other arm owned).addArm s role

/-- A handler is added together with its clause. -/
theorem addHandler (shaped : region.Shaped file graph) {statement : Statement}
    (stood : region.skeleton.statements[s]? = some statement)
    (fits : statement.kind.Takes (region.skeleton.rolesOf statement ++ [.handler]))
    {guarded clause : Cursor} {site : Nat} (has : file.Has guarded)
    (form : StatementForm.ofKind guarded.kind = .guarded)
    (handler : guarded.field? "handler" = some clause)
    (owner : graph.IdAt statement.site (file.nodeOf guarded .stmt none).id)
    (opening : graph.IdAt site (file.nodeOf clause .stmt none).id) :
    ((region.addArm s .handler).1.push region.skeleton.blocks.size site .simple).1.Shaped file
      graph := by
  have there := (Array.getElem?_eq_some_iff.1 stood).1
  have armed : (region.addArm s .handler).1.skeleton.Laid := shaped.laid.addArm there .handler
  refine ⟨armed.push _ site .simple, fun number after found => ?takes, fun other arm owned => ?handles⟩
  case takes =>
    rw [Region.push, Skeleton.rolesOf_push]
    rcases Skeleton.statement_of_push found with old | ⟨rfl, rfl⟩
    · exact shaped.takes_addArm stood fits number after old
    · exact StatementKind.takes_nil _
  case handles =>
    rw [Region.push, Skeleton.ownerOf?_push, Region.addArm, Skeleton.ownerOf?_addArm _ there] at owned
    split at owned
    · next new =>
      obtain ⟨rfl, -⟩ := Prod.mk.inj (Option.some.inj owned)
      obtain ⟨after, held, -, same⟩ := Skeleton.kept_addArm _ s .handler stood
      obtain ⟨first, opened, stands, simple, node⟩ :=
        region.skeleton.first?_push_addArm s .handler site .simple
      exact ⟨guarded, clause, after, opened, _, has, form, handler,
        Skeleton.kept_push _ _ site .simple held, same ▸ owner, new ▸ first, stands, simple,
        node ▸ opening⟩
    · exact ((shaped.handles other arm owned).addArm s .handler).push _ site .simple

end Shaped

end Region

namespace Facts

variable {file : SourceFile} {facts : Facts} {cursor : Cursor} {context : Context}

/-- What holds of the shape of the regions at every moment of the walk. -/
structure Shaped (file : SourceFile) (facts : Facts) : Prop where
  formed : facts.graph.WellFormed
  regions : ∀ (number : Nat) (region : Region), facts.regions[number]? = some region →
    region.Shaped file facts.graph

/-- A statement of a region has a site and a kind, and some arms that play some of the roles of a list. -/
def StandsAt (facts : Facts) (number s site : Nat) (kind : StatementKind) (among : List Role) : Prop :=
  ∀ region, facts.regions[number]? = some region →
    ∃ statement, region.skeleton.statements[s]? = some statement ∧ statement.site = site ∧
      statement.kind = kind ∧ (region.skeleton.rolesOf statement).Sublist among

/-- A statement was opened at a node, and some arms were added to it. -/
structure Arms (file : SourceFile) (cursor : Cursor) (context : Context) (kind : StatementKind)
    (s site : Nat) (among : List Role) (facts : Facts) : Prop where
  shaped : Shaped file facts
  stands : facts.StandsAt context.region s site kind among
  node : facts.graph.IdAt site (file.nodeOf cursor .stmt none).id

/-! ## The operations of the walk -/

namespace Shaped

theorem start (file : SourceFile) : Shaped file {} := by
  refine ⟨Graph.wellFormed_empty, fun number region found => ?_⟩
  cases number with
  | zero =>
    obtain rfl := Option.some.inj found
    exact .empty file _ none #[]
  | succ number => simp at found

theorem place (shaped : Shaped file facts) (node : Node) (parent : Option Nat) :
    Shaped file (facts.place node parent).1 :=
  ⟨wellFormed_place shaped.formed node parent, fun number region found =>
    (shaped.regions number region found).kept (extends_place facts node parent).graph⟩

theorem record (shaped : Shaped file facts) (context : Context) (access : Access) :
    Shaped file (facts.record context access) :=
  ⟨shaped.formed, each_modified (getElem?_record facts context access) shaped.regions
    fun region _ fits => fits.of_skeleton (Region.skeleton_record region _ access)⟩

theorem pushScope (shaped : Shaped file facts) (parent : Nat) (hoists : Bool) :
    Shaped file (facts.pushScope parent hoists).1 :=
  ⟨shaped.formed, shaped.regions⟩

theorem pushStatement (shaped : Shaped file facts) (context : Context) (site : Nat)
    (kind : StatementKind) : Shaped file (facts.pushStatement context site kind).1 := by
  rw [pushStatement_eq]
  exact ⟨shaped.formed, each_modified (fun _ => Array.getElem?_modify) shaped.regions
    fun _ _ fits => fits.push context.block site kind⟩

theorem recordReturn (shaped : Shaped file facts) (function : Option Nat) (site : Nat) :
    Shaped file (facts.recordReturn function site) := by
  cases function with
  | none => exact shaped
  | some number => exact ⟨shaped.formed, shaped.regions⟩

theorem enterFunction (shaped : Shaped file facts) (cursor : Cursor) (context : Context)
    (hint : Option Hint) (isMethod : Bool) :
    Shaped file (facts.enterFunction file cursor context hint isMethod).facts := by
  have placed := shaped.place (functionNode file cursor (givenName file cursor hint) isMethod
    (Parameter.ofFunction cursor).length) context.parent
  rw [enterFunction_eq]
  exact ⟨placed.formed, each_pushed placed.regions (.empty file _ _ #[])⟩

/-- A statement that is opened has no arms yet. -/
theorem openStatement (shaped : Shaped file facts) (cursor : Cursor) (context : Context)
    (kind : StatementKind) :
    Arms file cursor context kind (facts.openStatement file cursor context kind).statement
      (facts.openStatement file cursor context kind).site []
      (facts.openStatement file cursor context kind).facts := by
  have placed := shaped.place ((file.nodeOf cursor .stmt none).set "kind" (.text cursor.kind))
    context.parent
  refine ⟨placed.pushStatement context _ kind, fun region found => ?stands, ?node⟩
  case node =>
    obtain ⟨held, found, same⟩ := handle_place shaped.formed
      ((file.nodeOf cursor .stmt none).set "kind" (.text cursor.kind)) context.parent
    refine ⟨held, ?_, same⟩
    rw [← graph_pushStatement _ context _ kind] at found
    exact found
  case stands =>
    have pushed := getElem?_pushStatement (facts.place
      ((file.nodeOf cursor .stmt none).set "kind" (.text cursor.kind)) context.parent).1 context
        (facts.openStatement file cursor context kind).site kind context.region
    rw [if_pos rfl] at pushed
    obtain ⟨before, held, rfl⟩ := Option.map_eq_some_iff.1 (pushed.symm.trans found)
    have number : (facts.openStatement file cursor context kind).statement =
        before.skeleton.statements.size := number_of_pushStatement held _ kind
    rw [number, Region.push, Skeleton.statements_push]
    exact ⟨_, Array.getElem?_push_size, rfl, rfl, List.Sublist.refl []⟩

end Shaped

namespace Arms

variable {kind : StatementKind} {s site : Nat} {among : List Role}

/-- An arm that could have been added is left out. -/
theorem without (arms : Arms file cursor context kind s site among facts) (role : Role) :
    Arms file cursor context kind s site (among ++ [role]) facts := by
  refine ⟨arms.shaped, fun region found => ?_, arms.node⟩
  obtain ⟨statement, stood, node, same, part⟩ := arms.stands region found
  exact ⟨statement, stood, node, same, part.trans (List.sublist_append_left among [role])⟩

theorem pushScope (arms : Arms file cursor context kind s site among facts) (parent : Nat)
    (hoists : Bool) :
    Arms file cursor context kind s site among (facts.pushScope parent hoists).1 :=
  ⟨⟨arms.shaped.formed, arms.shaped.regions⟩, arms.stands, arms.node⟩

/-- What a statement is after an arm was added to it. -/
theorem stands_addArm {region : Region} {statement : Statement} (role : Role)
    (shaped : region.Shaped file facts.graph)
    (stood : region.skeleton.statements[s]? = some statement)
    (part : (region.skeleton.rolesOf statement).Sublist among) :
    ∃ after, (region.addArm s role).1.skeleton.statements[s]? = some after ∧
      after.site = statement.site ∧ after.kind = statement.kind ∧
      ((region.addArm s role).1.skeleton.rolesOf after).Sublist (among ++ [role]) := by
  have there := (Array.getElem?_eq_some_iff.1 stood).1
  obtain ⟨after, held, same, node⟩ := Skeleton.kept_addArm region.skeleton s role stood
  refine ⟨after, held, node, same, ?_⟩
  obtain ⟨before, found, rfl⟩ := Skeleton.statement_of_addArm held
  rw [Region.addArm, shaped.laid.rolesOf_addArm there role found, if_pos rfl]
  obtain rfl := Option.some.inj (stood.symm.trans found)
  exact part.append (.refl _)

/-- An arm is added that is no handler. -/
theorem arm (arms : Arms file cursor context kind s site among facts) {role : Role}
    (fits : kind.Takes (among ++ [role])) (plain : role ≠ .handler) :
    Arms file cursor context kind s site (among ++ [role]) (facts.pushArm context s role).1 := by
  have pushed := getElem?_pushArm facts context s role
  rw [pushArm_eq] at pushed ⊢
  refine ⟨⟨arms.shaped.formed, each_modified pushed arms.shaped.regions
    fun region found shaped => ?_⟩, fun region found => ?_, arms.node⟩
  · obtain ⟨statement, stood, -, rfl, part⟩ := arms.stands region found
    exact shaped.addArm stood (fits.sublist (part.append (.refl [role]))) plain
  · obtain ⟨before, held, rfl⟩ := Option.map_eq_some_iff.1
      (((pushed context.region).trans (if_pos rfl)).symm.trans found)
    obtain ⟨statement, stood, node, same, part⟩ := arms.stands before held
    obtain ⟨after, stood', node', same', part'⟩ :=
      stands_addArm role (arms.shaped.regions _ before held) stood part
    exact ⟨after, stood', node'.trans node, same'.trans same, part'⟩

/-- An arm is added for a handler, and the clause as the first statement in it. -/
theorem clause {after : Facts} {clause : Cursor} {node : Nat}
    (arms : Arms file cursor context .guarded s site among facts)
    (fits : StatementKind.guarded.Takes (among ++ [.handler])) (has : file.Has cursor)
    (form : StatementForm.ofKind cursor.kind = .guarded)
    (held : cursor.field? "handler" = some clause) (formed : after.graph.WellFormed)
    (kept : facts.graph.Kept after.graph)
    (opening : after.graph.IdAt node (file.nodeOf clause .stmt none).id)
    (changed : ∀ number : Nat, after.regions[number]? = if context.region = number then
      facts.regions[number]?.map fun region => ((region.addArm s .handler).1.push
        region.skeleton.blocks.size node .simple).1
      else facts.regions[number]?) :
    Arms file cursor context .guarded s site (among ++ [.handler]) after := by
  refine ⟨⟨formed, each_modified changed
    (fun number region found => (arms.shaped.regions number region found).kept kept)
      fun region found shaped => ?_⟩, fun region found => ?_, arms.node.kept kept⟩
  · obtain ⟨statement, stood, owner, kinds, part⟩ := arms.stands region found
    refine shaped.addHandler stood ?_ has form held (owner ▸ arms.node.kept kept) opening
    exact kinds ▸ fits.sublist (part.append (.refl [Role.handler]))
  · obtain ⟨before, there, rfl⟩ := Option.map_eq_some_iff.1
      (((changed context.region).trans (if_pos rfl)).symm.trans found)
    obtain ⟨statement, stood, owner, kinds, part⟩ := arms.stands before there
    obtain ⟨armed, stood', owner', kinds', part'⟩ :=
      stands_addArm Role.handler (arms.shaped.regions _ before there) stood part
    refine ⟨armed, Skeleton.kept_push _ _ _ .simple stood', owner'.trans owner,
      kinds'.trans kinds, ?_⟩
    rw [Region.push, Skeleton.rolesOf_push]
    exact part'

theorem handler (arms : Arms file cursor context .guarded s site among facts)
    (fits : StatementKind.guarded.Takes (among ++ [.handler])) (has : file.Has cursor)
    (form : StatementForm.ofKind cursor.kind = .guarded) :
    Arms file cursor context .guarded s site (among ++ [.handler])
      (facts.addHandler file cursor context s site).1 := by
  unfold addHandler
  split
  · exact arms.without .handler
  · next clause held =>
    let arm := facts.pushArm context s .handler
    let scope := arm.1.pushScope context.scope false
    let inner := { context with scope := scope.2 }.enter arm.2 site
    let node := (file.nodeOf clause .stmt none).set "kind" (.text clause.kind)
    let placed := scope.1.place node inner.parent
    have graph : scope.1.graph = facts.graph := by
      show (facts.pushArm context s .handler).1.graph = _
      rw [pushArm_eq]
    have formed : scope.1.graph.WellFormed := graph ▸ arms.shaped.formed
    have after : (placed.1.pushStatement inner placed.2 .simple).1.graph = placed.1.graph :=
      graph_pushStatement _ inner _ .simple
    refine arms.clause fits has form held (after ▸ wellFormed_place formed node inner.parent)
      (after ▸ graph ▸ (extends_place scope.1 node inner.parent).graph)
      (after ▸ handle_place formed node inner.parent) fun number => ?_
    -- The region got the arm first, and then the clause.
    have pushed := getElem?_pushStatement placed.1 inner placed.2 .simple number
    have armed : placed.1.regions[number]? = _ := getElem?_pushArm facts context s .handler number
    rw [armed] at pushed
    refine pushed.trans ?_
    show (if context.region = number then _ else _) = _
    split
    · next here =>
      subst here
      cases found : facts.regions[context.region]? with
      | none => rfl
      | some region =>
        have block : arm.2 = region.skeleton.blocks.size := number_of_pushArm found s .handler
        rw [Option.map_some, Option.map_some, Option.map_some, ← block]
        rfl
    · rfl

end Arms

/-! ## Steps -/

namespace Shaped

theorem functionBody (shaped : Shaped file facts) (cursor : Cursor) (inner : Context) :
    Shaped file (facts.functionBody file cursor inner).1 := by
  unfold Facts.functionBody
  split
  · exact shaped
  · split
    · exact shaped
    · exact ((shaped.place _ _).pushStatement _ _ _).recordReturn _ _

theorem addFunction (shaped : Shaped file facts) (cursor : Cursor) (context : Context)
    (hint : Option Hint) (isMethod : Bool) :
    Shaped file (facts.addFunction file cursor context hint isMethod).facts :=
  (shaped.enterFunction cursor context hint isMethod).functionBody cursor _

theorem member {adding : Adding} (shaped : Shaped file adding.facts) (context : Context)
    (number node : Nat) (member : Cursor) :
    Shaped file (adding.member file context number node member).facts := by
  have method : ∀ cursor hint, Shaped file (adding.method file cursor context hint number).facts := by
    intro cursor hint
    have added := shaped.addFunction cursor context hint true
    exact ⟨added.formed, added.regions⟩
  have field : ∀ name value, Shaped file (adding.field file name value context node).facts := by
    intro name value
    have placed := fun drawn => shaped.place drawn (some node)
    refine Shaped.record ?_ context _
    exact ⟨(placed _).formed, (placed _).regions⟩
  unfold Adding.member
  split
  · exact method member none
  · split
    · split
      · exact shaped
      · split
        · exact field _ none
        · split
          · exact method _ _
          · exact field _ _
    · exact shaped

theorem addClass (shaped : Shaped file facts) (cursor : Cursor) (context : Context)
    (hint : Option Hint) : Shaped file (facts.addClass file cursor context hint).1 := by
  have members : ∀ (list : List Cursor) (adding : Adding) (inner : Context) (number node : Nat),
      Shaped file adding.facts →
        Shaped file (list.foldl (Adding.member file inner number node) adding).facts := by
    intro list
    induction list with
    | nil => exact fun _ _ _ _ shaped => shaped
    | cons head rest ih =>
      exact fun _ inner number node shaped => ih _ _ _ _ (shaped.member inner number node head)
  have placed := shaped.place (classNode file cursor (givenName file cursor hint)) context.parent
  have noted : ∀ classes, Shaped file { (facts.place (classNode file cursor
      (givenName file cursor hint)) context.parent).1 with classes } :=
    fun _ => ⟨placed.formed, placed.regions⟩
  unfold Facts.addClass
  simp only
  split
  · exact noted _
  · exact members _ _ _ _ _ (noted _)

theorem bind (shaped : Shaped file facts) (cursor : Cursor) (context : Context) (mode : BindMode) :
    Shaped file (facts.bind file cursor context mode).1 := by
  have placed := fun node => shaped.place node context.parent
  unfold Facts.bind
  split
  · cases mode with
    | assign site => exact shaped.record context _
    | declare word site =>
      refine Shaped.record ?_ context _
      exact ⟨(placed _).formed, (placed _).regions⟩
    | param position rest optional hasDefault =>
      exact ⟨(placed _).formed, each_modified (fun _ => Array.getElem?_modify) (placed _).regions
        fun region _ fits => fits.of_skeleton rfl⟩
  · exact shaped

theorem expression (shaped : Shaped file facts) (cursor : Cursor) (context : Context)
    (hint : Option Hint) : Shaped file (facts.expression file cursor context hint).1 := by
  have assignment : ∀ augmented, Shaped file (facts.addAssignment file cursor context augmented).1 := by
    intro augmented
    unfold Facts.addAssignment
    split
    · exact shaped.place _ _
    · exact shaped
  unfold Facts.expression
  split
  · show Shaped file (facts.addReference file cursor context)
    unfold Facts.addReference
    split
    · exact shaped.record context _
    · exact shaped
  · exact shaped.addFunction cursor context hint false
  · exact shaped.addFunction cursor context none true
  · exact shaped.addClass cursor context hint
  · have placed := shaped.place (callNode file cursor (callSyntax file cursor)) context.parent
    exact ⟨placed.formed, placed.regions⟩
  · exact assignment false
  · exact assignment true
  · show Shaped file (facts.addUpdate file cursor context).1
    unfold Facts.addUpdate
    split
    · exact shaped.place _ _
    · exact shaped
  · exact shaped
  · exact shaped
  · exact shaped

end Shaped

namespace Arms

variable {kind : StatementKind} {s site : Nat} {among : List Role}

theorem loopBody (arms : Arms file cursor context .loop s site [] facts) (node : Cursor) :
    Shaped file (facts.addLoopBody node context s site).1 := by
  unfold addLoopBody
  split
  · exact arms.shaped
  · exact (arms.arm (List.Sublist.refl [Role.loopBody]) (by decide)).shaped

theorem cleanup (arms : Arms file cursor context .guarded s site among facts)
    (fits : StatementKind.guarded.Takes (among ++ [.cleanup])) (node : Cursor) :
    Shaped file (facts.addCleanup node context s site).1 := by
  unfold addCleanup
  split
  · exact arms.shaped
  · exact (arms.arm fits (by decide)).shaped

/-- Each case is an arm of the switch. -/
theorem cases {opened : Opened} {body : Context} (entries : List Cursor)
    (state : Facts × List Task) (only : StatementKind.switch.Takes among)
    (arms : Arms file cursor context .switch opened.statement site among state.1) :
    Shaped file (entries.foldl (addCase opened context body) state).1 := by
  induction entries generalizing state among with
  | nil => exact arms.shaped
  | cons entry rest ih =>
    rw [List.foldl_cons]
    unfold addCase
    simp only
    split
    · exact ih state only arms
    · next isDefault _ =>
      have fits : StatementKind.switch.Takes (among ++ [.case isDefault]) := by
        intro role inside
        rcases List.mem_append.1 inside with old | new
        · exact only role old
        · exact ⟨isDefault, List.mem_singleton.1 new⟩
      exact ih _ fits (arms.arm fits (by simp))

end Arms

namespace Shaped

theorem addConditional (shaped : Shaped file facts) (cursor : Cursor) (context : Context) :
    Shaped file (facts.addConditional file cursor context).1 := by
  have opened := shaped.openStatement cursor context .conditional
  have last : StatementKind.conditional.Takes ([.whenTrue] ++ [.whenFalse]) := List.Sublist.refl _
  have first : StatementKind.conditional.Takes ([] ++ [.whenTrue]) :=
    List.sublist_append_left [Role.whenTrue] [.whenFalse]
  unfold Facts.addConditional
  cases cursor.field? "consequence" with
  | none =>
    cases cursor.field? "alternative" with
    | none => exact opened.shaped
    | some alternative => exact ((opened.without .whenTrue).arm last (by decide)).shaped
  | some consequence =>
    have armed := opened.arm first (by decide)
    cases cursor.field? "alternative" with
    | none => exact armed.shaped
    | some alternative => exact (armed.arm last (by decide)).shaped

theorem addGuarded (shaped : Shaped file facts) {cursor : Cursor} (has : file.Has cursor)
    (form : StatementForm.ofKind cursor.kind = .guarded) (context : Context) :
    Shaped file (facts.addGuarded file cursor context).1 := by
  have opened := shaped.openStatement cursor context .guarded
  have last : StatementKind.guarded.Takes ([.guardedBody, .handler] ++ [.cleanup]) :=
    List.Sublist.refl _
  have middle : StatementKind.guarded.Takes ([.guardedBody] ++ [.handler]) :=
    List.sublist_append_left [Role.guardedBody, .handler] [.cleanup]
  have first : StatementKind.guarded.Takes ([] ++ [.guardedBody]) :=
    List.sublist_append_left [Role.guardedBody] [.handler, .cleanup]
  unfold Facts.addGuarded
  cases cursor.field? "body" with
  | none => exact ((opened.without .guardedBody).handler middle has form).cleanup last cursor
  | some body => exact ((opened.arm first (by decide)).handler middle has form).cleanup last cursor

theorem statement (shaped : Shaped file facts) {cursor : Cursor} (has : file.Has cursor)
    (context : Context) : Shaped file (facts.statement file cursor context).1 := by
  have opens : ∀ (cursor : Cursor) kind, Shaped file
      (facts.openStatement file cursor context kind).facts :=
    fun cursor kind => (shaped.openStatement cursor context kind).shaped
  unfold Facts.statement
  cases form : StatementForm.ofKind cursor.kind with
  | block => exact shaped.pushScope _ _
  | declaration => exact opens cursor .simple
  | expression =>
    show Shaped file (facts.addExpressionStatement file cursor context).1
    unfold Facts.addExpressionStatement
    split
    · exact shaped
    · split
      · exact shaped
      · exact opens cursor .simple
  | returns => exact (opens cursor .returns).recordReturn _ _
  | throws => exact opens cursor .throws
  | conditional => exact shaped.addConditional cursor context
  | forLoop => exact shaped.pushScope _ _
  | forEach => exact ((shaped.pushScope _ _).openStatement cursor _ .loop).loopBody cursor
  | loop => exact (shaped.openStatement cursor context .loop).loopBody cursor
  | switch =>
    exact ((shaped.openStatement cursor context .switch).pushScope _ _).cases _ (_, [])
      (StatementKind.takes_nil _)
  | guarded => exact shaped.addGuarded has form context
  | breaks => exact opens cursor .breaks
  | continues => exact opens cursor .continues
  | labelled => exact shaped
  | exported =>
    show Shaped file (facts.addExport file cursor context).1
    unfold Facts.addExport
    split
    · exact shaped
    · exact opens cursor .simple
    · exact shaped
  | function => exact shaped.addFunction cursor context none false
  | classLike => exact shaped.addClass cursor context none
  | module => exact shaped
  | faulty => exact shaped
  | inert => exact shaped
  | plain => exact opens cursor .simple

theorem step (shaped : Shaped file facts) {task : Task} (has : file.Has task.cursor) :
    Shaped file (facts.step file task).1 := by
  cases task with
  | statement cursor context => exact shaped.statement has context
  | loopHeader cursor context => exact (shaped.openStatement cursor context .loop).loopBody cursor
  | bind cursor context mode => exact shaped.bind cursor context mode
  | expression cursor context hint => exact shaped.expression cursor context hint

end Shaped

/-- At every moment of the walk the regions have their shape. -/
theorem Visits.shaped {tasks : List Task} (visits : Visits file facts tasks) :
    Shaped file facts := by
  induction visits with
  | start => exact .start file
  | step visits ih => exact ih.step (visits.sound.2 _ List.mem_cons_self).2

theorem shaped_of (file : SourceFile) : Shaped file (Facts.of file) := by
  have shaped := (Visits.last file).shaped
  refine ⟨shaped.formed, fun number region found => ?_⟩
  obtain ⟨before, held, rfl⟩ := Option.map_eq_some_iff.1 (Array.getElem?_map.symm.trans found)
  exact (shaped.regions number before held).of_skeleton rfl

end Facts

/-! ## The regions of a file -/

/-- A region of a file is well-formed: its statements make a forest, the arm of a handler begins with the
clause, and all accesses are known to refer to variables and parameters of the graph. -/
structure Region.WellFormed (region : Region) (file : SourceFile) (graph : Graph) : Prop where
  forest : region.skeleton.Forest
  handles : ∀ (s : Nat) (statement : Statement), region.skeleton.statements[s]? = some statement →
    ∀ arm ∈ statement.arms.toList, region.skeleton.role? arm = some .handler →
      region.Handles file graph s arm
  accesses : ∀ access ∈ region.allAccesses, ∃ handle, access.binding = .node handle ∧
    graph.KindIn handle [.var, .param]

namespace Facts

/-- The regions of a file are well-formed. -/
theorem regions_wellFormed (file : SourceFile) {region : Region}
    (inside : region ∈ (Facts.of file).regions) : region.WellFormed file (Facts.of file).graph := by
  obtain ⟨number, found⟩ := Array.mem_iff_getElem?.1 inside
  have sound := (sound_of file).regions number region found
  have shaped := (shaped_of file).regions number region found
  refine ⟨sound.built.forest shaped.takes, ?handles, ?accesses⟩
  case handles =>
    intro s statement stood arm there role
    obtain ⟨other, owned⟩ := shaped.laid.owned stood there
    rw [Skeleton.role?_eq, owned] at role
    exact shaped.handles s arm (Option.some.inj role ▸ owned)
  case accesses =>
    intro access there
    obtain ⟨before, -, rfl⟩ := Option.map_eq_some_iff.1 (Array.getElem?_map.symm.trans found)
    obtain ⟨old, -, known⟩ := Region.mem_allAccesses_resolve there
    have named : ∃ handle, access.binding = .node handle := by
      unfold Access.resolve at known
      split at known
      · next handle named => exact ⟨handle, Option.some.inj known ▸ named⟩
      · obtain ⟨handle, -, rfl⟩ := Option.map_eq_some_iff.1 known
        exact ⟨handle, rfl⟩
    obtain ⟨handle, named⟩ := named
    exact ⟨handle, named, (sound.accesses access there).node handle (by rw [Access.handle?, named])⟩

/-- A file with the tree of `try {} catch (e) {}`. -/
def catching : SourceFile where
  path := ⟨"a.ts"⟩
  source := .ofString "try \x7b\x7d catch (e) \x7b\x7d"
  tree :=
    let node (kind : String) (field : Option String) (start stop : Nat) (children : List Tree) :=
      Tree.node { kind, field, start, stop, named := true } children
    node "program" none 0 19 [node "try_statement" none 0 19 [
      node "statement_block" (some "body") 4 6 [],
      node "catch_clause" (some "handler") 7 19 [
        node "identifier" (some "parameter") 14 15 [],
        node "statement_block" (some "body") 17 19 []]]]

/-- The region of a file with a guarded statement: its second arm begins with the clause. -/
theorem catching_wellFormed : ∃ region ∈ (Facts.of catching).regions,
    region.WellFormed catching (Facts.of catching).graph ∧
    region.Handles catching (Facts.of catching).graph 0 2 := by
  have shape : (Facts.of catching).regions[0]?.map (fun region =>
      (region.skeleton.statements[0]?.map fun statement => statement.arms.toList,
        region.skeleton.role? 2)) = some (some [1, 2], some .handler) := by decide +kernel
  obtain ⟨region, found, shape⟩ := Option.map_eq_some_iff.1 shape
  obtain ⟨arms, role⟩ := Prod.mk.inj shape
  obtain ⟨statement, stood, arms⟩ := Option.map_eq_some_iff.1 arms
  have inside := Array.mem_of_getElem? found
  have formed := regions_wellFormed catching inside
  exact ⟨region, inside, formed, formed.handles 0 statement stood 2 (by rw [arms]; decide) role⟩

/-- What the laws of control and data flow take for granted holds of the regions of a file. -/
theorem built_armsFit_of_mem (file : SourceFile) {region : Region}
    (inside : region ∈ (Facts.of file).regions) : region.Built ∧ region.skeleton.ArmsFit := by
  obtain ⟨number, found⟩ := Array.mem_iff_getElem?.1 inside
  have built := ((sound_of file).regions number region found).built
  exact ⟨built, (built.forest ((shaped_of file).regions number region found).takes).armsFit⟩

end Facts

end CodeGraph

import CodeGraph.Proofs.Facts.Mention
import CodeGraph.Proofs.Facts.Seated
import CodeGraph.Proofs.Flow.Straight

/-!
# Regions that recite a script

A region recites a script if its accesses show what the script mentions, one by one, and its statements stand
one behind the other (`Region.Recites`). A step at a simple look leaves the region with what the look
mentions by itself (`Facts.Charted.recites`), and regions of functions that are entered with nothing
(`Facts.Begins`).
-/

namespace CodeGraph

/-- A binding is what a subject says, where names are looked up in a scope. -/
inductive Subject.Shows (graph : Graph) (scope : Nat) : Subject → Binding → Prop
  | name (text : String) : Shows graph scope (.name text) (.name text scope)
  | node {id : String} {handle : Nat} : graph.IdAt handle id →
      Shows graph scope (.node id) (.node handle)

/-- An access is what a mention says, where names are looked up in a scope. -/
structure Mention.Shows (graph : Graph) (scope : Nat) (mention : Mention) (access : Access) : Prop where
  kind : access.kind = mention.kind
  subject : mention.subject.Shows graph scope access.binding
  site : ∃ id, mention.site = some id ∧ graph.IdAt access.site id

theorem Mention.Shows.kept {before after : Graph} {scope : Nat} {mention : Mention} {access : Access}
    (shows : mention.Shows before scope access) (kept : before.Kept after) :
    mention.Shows after scope access := by
  obtain ⟨kind, subject, id, site, spot⟩ := shows
  refine ⟨kind, ?_, id, site, spot.kept kept⟩
  generalize mention.subject = told at subject ⊢
  generalize access.binding = binding at subject ⊢
  cases subject with
  | name text => exact .name text
  | node there => exact .node (there.kept kept)

/-- Accesses are what mentions say, one by one. -/
def AllShow (graph : Graph) (scope : Nat) : List Mention → List Access → Prop :=
  List.Forall₂ (Mention.Shows graph scope)

/-- The accesses of a region are what a script mentions, and its statements stand one behind the other. -/
structure Region.Recites (region : Region) (graph : Graph) (scope : Nat) (script : Script) : Prop where
  straight : ∃ sites, region.skeleton.Straight sites ∧ sites.length = region.accesses.size
  entry : AllShow graph scope script.entry region.entryAccesses.toList
  statements : List.Forall₂ (fun mentions accesses => AllShow graph scope mentions (Array.toList accesses))
    script.statements region.accesses.toList

/-- What is related element by element stays so when elements at one place are changed alike. -/
theorem forall₂_modify {α β : Type} {R : α → β → Prop} {f : α → α} {g : β → β}
    (alike : ∀ a b, R a b → R (f a) (g b)) {left : List α} {right : List β}
    (all : List.Forall₂ R left right) (number : Nat) :
    List.Forall₂ R (left.modify number f) (right.modify number g) := by
  induction all generalizing number with
  | nil => cases number <;> exact .nil
  | cons first rest ih =>
    cases number with
    | zero => exact .cons (alike _ _ first) rest
    | succ number => exact .cons first (ih number)

namespace Region

theorem recites_empty {region : Region} {graph : Graph} {scope : Nat}
    (skeleton : region.skeleton = .empty) (entry : region.entryAccesses = #[])
    (accesses : region.accesses = #[]) : region.Recites graph scope {} where
  straight := ⟨[], skeleton ▸ Skeleton.straight_empty, by rw [accesses]; rfl⟩
  entry := by
    rw [entry]
    exact .nil
  statements := by
    rw [accesses]
    exact .nil

namespace Recites

variable {region : Region} {graph : Graph} {scope : Nat} {script : Script}

theorem kept (recites : region.Recites graph scope script) {after : Graph} (kept : graph.Kept after) :
    region.Recites after scope script where
  straight := recites.straight
  entry := recites.entry.imp fun _ _ shows => shows.kept kept
  statements := recites.statements.imp fun _ _ all => all.imp fun _ _ shows => shows.kept kept

/-- An access is recorded that a mention shows. -/
theorem record (recites : region.Recites graph scope script) {mention : Mention} {access : Access}
    (shows : mention.Shows graph scope access) (statement : Option Nat) :
    (region.record statement access).Recites graph scope (script.record statement [mention]) := by
  cases statement with
  | none =>
    refine ⟨recites.straight, ?_, recites.statements⟩
    rw [Region.record, Array.toList_push]
    exact List.rel_append recites.entry (.cons shows .nil)
  | some number =>
    refine ⟨by simpa [Region.record] using recites.straight, recites.entry, ?_⟩
    rw [Region.record, Array.toList_modify]
    refine forall₂_modify (fun mentions accesses all => ?_) recites.statements number
    rw [Array.toList_push]
    exact List.rel_append all (.cons shows .nil)

/-- A simple statement is added behind the others. -/
theorem push (recites : region.Recites graph scope script) (site : Nat) :
    (region.push Skeleton.root site .simple).1.Recites graph scope script.push := by
  obtain ⟨sites, straight, size⟩ := recites.straight
  refine ⟨⟨sites ++ [site], straight.push site, ?_⟩, recites.entry, ?_⟩
  · simp [Region.push, size]
  · rw [Region.push, Array.toList_push]
    exact List.rel_append recites.statements (.cons .nil .nil)

/-- Whether a region recites a script is a matter of its statements and accesses. -/
theorem congr (recites : region.Recites graph scope script) {other : Region}
    (skeleton : other.skeleton = region.skeleton) (entry : other.entryAccesses = region.entryAccesses)
    (accesses : other.accesses = region.accesses) : other.Recites graph scope script :=
  ⟨by rw [skeleton, accesses]; exact recites.straight, by rw [entry]; exact recites.entry,
    by rw [accesses]; exact recites.statements⟩

end Recites

end Region

namespace Facts

variable {file : SourceFile} {facts : Facts} {context : Context} {home : Home} {number scope : Nat}
  {script : Script}

/-- A region recites a script, where names are looked up in a scope. -/
def Recites (facts : Facts) (number scope : Nat) (script : Script) : Prop :=
  ∃ region, facts.regions[number]? = some region ∧ region.Recites facts.graph scope script

/-- A region that is the same recites the same. -/
theorem Recites.later (recites : facts.Recites number scope script) {after : Facts}
    (kept : facts.graph.Kept after.graph) (same : after.regions[number]? = facts.regions[number]?) :
    after.Recites number scope script := by
  obtain ⟨region, found, whole⟩ := recites
  exact ⟨region, same.trans found, whole.kept kept⟩

/-! ## Operations -/

/-- An access is recorded right below a node, at that node. -/
theorem Recites.record (recites : facts.Recites context.region scope script) {chart : List Yield}
    (stands : context.At chart facts home) {kind : AccessKind} {subject : Subject} {binding : Binding}
    {site : Nat} (shows : subject.Shows facts.graph scope binding)
    (seat : context.parent = some site) :
    (facts.record context { kind, binding, site }).Recites context.region scope
      (script.record context.statement [{ kind, subject, site := home.container }]) := by
  obtain ⟨region, found, whole⟩ := recites
  refine ⟨region.record context.statement { kind, binding, site }, ?_, ?_⟩
  · rw [getElem?_record, if_pos rfl, found]
    rfl
  · exact whole.record ⟨rfl, shows, stands.below seat⟩ _

/-- A statement is opened at the root of the body. -/
theorem Recites.openStatement (recites : facts.Recites context.region scope script)
    (root : context.block = Skeleton.root) (file : SourceFile) (cursor : Cursor) :
    (facts.openStatement file cursor context .simple).facts.Recites context.region scope
      script.push := by
  obtain ⟨region, found, whole⟩ := recites
  let placed := facts.place ((file.nodeOf cursor .stmt none).set "kind" (.text cursor.kind))
    context.parent
  have grown : facts.graph.Kept placed.1.graph := (extends_place facts _ _).graph
  refine ⟨(region.push context.block placed.2 .simple).1, ?_, ?_⟩
  · show (placed.1.pushStatement context placed.2 .simple).1.regions[context.region]? = _
    rw [getElem?_pushStatement, if_pos rfl]
    show facts.regions[context.region]?.map _ = _
    rw [found]
    rfl
  · show Region.Recites _ (placed.1.pushStatement context placed.2 .simple).1.graph _ _
    rw [graph_pushStatement, root]
    exact (whole.kept grown).push placed.2

/-- Old regions are where they were when a function has been added. -/
theorem getElem?_addFunction (facts : Facts) (file : SourceFile) (cursor : Cursor) (context : Context)
    (hint : Option Hint) (isMethod : Bool) {number : Nat} (old : number < facts.regions.size) :
    (facts.addFunction file cursor context hint isMethod).facts.regions[number]? =
      facts.regions[number]? := by
  let entered := facts.enterFunction file cursor context hint isMethod
  have inner : entered.inner.region = facts.regions.size :=
    congrArg Context.region (inner_enterFunction facts file cursor context hint isMethod)
  have same : entered.facts.regions[number]? = facts.regions[number]? :=
    getElem?_enterFunction facts context file cursor hint isMethod old
  show (entered.facts.functionBody file cursor entered.inner).1.regions[number]? = _
  unfold functionBody
  split
  · exact same
  · split
    · exact same
    · simp only
      have unchanged : ∀ (facts : Facts) (function : Option Nat) (site : Nat),
          (facts.recordReturn function site).regions = facts.regions := fun _ function _ => by
        cases function <;> rfl
      rw [unchanged, getElem?_pushStatement, if_neg (by omega)]
      exact same

theorem Recites.addFunction (recites : facts.Recites number scope script) (cursor : Cursor)
    (context : Context) (hint : Option Hint) (isMethod : Bool) :
    (facts.addFunction file cursor context hint isMethod).facts.Recites number scope script := by
  obtain ⟨region, found, -⟩ := id recites
  exact recites.later (extends_addFunction facts file cursor context hint isMethod).graph
    (getElem?_addFunction facts file cursor context hint isMethod
      (Array.getElem?_eq_some_iff.1 found).1)

/-! ## Classes -/

theorem fields_append (yields others : List Yield) :
    Mention.fields (yields ++ others) = Mention.fields yields ++ Mention.fields others := by
  simp [Mention.fields]

section Members

variable {chart : List Yield} {begun : Facts} {adding : Adding} {yields : List Yield} {own : List Look}
  {functions : List Entry}

/-- The members of a class write the fields among them. -/
theorem Gathers.recites_members (cursors : List Cursor)
    (gathers : Gathers file chart begun context home adding yields own functions)
    (within : ∀ cursor ∈ cursors, (Scheme.member file cursor home).puts file ⊆ chart) {node : Nat}
    (parent : context.parent = some node) (number : Nat)
    (recites : adding.facts.Recites context.region scope script) :
    (cursors.foldl (Adding.member file context number node) adding).facts.Recites context.region scope
      (script.record context.statement (Mention.fields
        ((cursors.map fun cursor => Scheme.member file cursor home).flatMap
          Scheme.Member.yields))) := by
  refine Gathers.relate_members (fun before after yields _ => ∀ script,
      before.facts.Recites context.region scope script → after.facts.Recites context.region scope
        (script.record context.statement (Mention.fields yields)))
    (fun adding script recites => ?_) (fun first second script recites => ?_)
    (fun {adding} _ _ _ gathers cursor hint script recites => ?_)
    (fun {adding} _ _ _ gathers name value script recites => ?_) cursors gathers within parent script
    recites
  · rw [Mention.fields, List.filter_nil, List.map_nil, Script.record_nil]
    exact recites
  · rw [fields_append, ← Script.record_record]
    exact second _ (first _ recites)
  · have none : Mention.fields (Scheme.method file cursor home hint).yields = [] := by
      simp [Mention.fields, Scheme.method, Scheme.function, Home.puts, kind_functionNode]
    rw [none, Script.record_nil]
    exact recites.addFunction cursor context hint true
  · have spot := handle_place gathers.on.charts.formed.wellFormed (fieldNode file name) (some node)
    have grown := extends_place adding.facts (fieldNode file name) (some node)
    have placed : Recites
        { (adding.facts.place (fieldNode file name) (some node)).1 with
          regionOf := (adding.facts.place (fieldNode file name) (some node)).1.regionOf.insert
            (adding.facts.place (fieldNode file name) (some node)).2 context.region }
        context.region scope script := recites.later grown.graph rfl
    exact placed.record (gathers.on.stands.later (grown.trans (extends_declareIn _ _ _))) (.node spot)
      parent

end Members

/-- A class writes its fields. -/
theorem Recites.addClass {chart : List Yield} (on : On file chart facts 0 facts context home)
    {cursor : Cursor} {hint : Option Hint}
    (within : (Scheme.classLike file cursor home hint).puts file ⊆ chart)
    (recites : facts.Recites context.region scope script) :
    (facts.addClass file cursor context hint).1.Recites context.region scope
      (script.record context.statement
        (Mention.fields (Scheme.classLike file cursor home hint).yields)) := by
  let node := classNode file cursor (givenName file cursor hint)
  have opening := on.openClass within
  have members := fun plain : cursor.kind ≠ "enum_declaration" => subset_of_members plain within
  have opened : Recites
      { (facts.place node context.parent).1 with
        classes := facts.classes.push { name := givenName file cursor hint } }
      context.region scope script := recites.later (extends_place _ _ _).graph rfl
  have itself : Mention.fields (home.puts cursor node) = [] := by
    have kind : node.kind = .cls := kind_classNode _ _ _
    simp [Mention.fields, Home.puts, kind]
  unfold Facts.addClass Scheme.classLike
  by_cases enumeration : cursor.kind = "enum_declaration"
  · simp only [if_pos enumeration]
    rw [itself, Script.record_nil]
    exact opened
  · simp only [if_neg enumeration]
    rw [fields_append, itself, List.nil_append]
    have start := opening.gathers (List.forall_mem_nil _)
    exact start.recites_members _ (members enumeration) rfl _ opened

/-! ## Steps -/

section Steps

variable (on : On file file.yields facts 0 facts context home) {cursor : Cursor}
include on

/-- A simple statement is opened, or is a function, a class or nothing. -/
theorem Recites.statement (recites : facts.Recites context.region scope script)
    (within : (Scheme.statement file cursor home).puts file ⊆ file.yields)
    (simple : cursor.isSimple = true) (root : context.block = Skeleton.root) :
    (facts.statement file cursor context).1.Recites context.region scope
      (script.enter file (context.statement, .statement cursor home)) := by
  have opened := recites.openStatement root file cursor
  unfold Script.enter Look.mentioned Look.opens Cursor.opens Facts.statement
  unfold Cursor.isSimple at simple
  unfold Scheme.statement at within
  cases form : StatementForm.ofKind cursor.kind <;> simp only [form] at simple within ⊢ <;>
    try contradiction
  case declaration => exact opened
  case expression =>
    unfold addExpressionStatement
    cases found : cursor.firstNamed? with
    | none =>
      simp only [Option.isSome_none, Bool.false_eq_true, if_false, reduceCtorEq]
      rw [Script.record_nil]
      exact recites
    | some inner =>
      have plain : ¬(inner.kind = "internal_module" ∨ inner.kind = "module") := by
        rw [found] at simple
        simpa [not_or] using simple
      simp only [if_neg plain, Option.isSome_some, if_true]
      exact opened
  case function =>
    simp only [Bool.false_eq_true, if_false, reduceCtorEq]
    rw [Script.record_nil]
    exact recites.addFunction cursor context none false
  case classLike =>
    simp only [Bool.false_eq_true, if_false, if_true]
    exact recites.addClass on within
  case inert =>
    simp only [Bool.false_eq_true, if_false, reduceCtorEq]
    rw [Script.record_nil]
    exact recites
  case plain => exact opened

/-- A name that is bound is written, unless it is that of a parameter. -/
theorem Recites.bind (recites : facts.Recites context.region context.scope script) {mode : BindMode}
    (seat : ∀ site, mode.site? = some site → context.parent = some site) :
    (facts.bind file cursor context mode).1.Recites context.region context.scope
      (script.record context.statement ((Look.bind cursor home mode.plain).mentioned file)) := by
  unfold Facts.bind Look.mentioned
  by_cases form : PatternForm.ofKind cursor.kind = .name
  swap
  · simp only [if_neg form]
    rw [Script.record_nil]
    exact recites
  simp only [if_pos form]
  cases mode with
  | assign site => exact recites.record on.stands (.name (file.textOf cursor)) (seat site rfl)
  | declare word site =>
    let node := variableNode file cursor word
    have grown := extends_place facts node context.parent
    have spot := handle_place on.charts.formed.wellFormed node context.parent
    have extend := (grown.trans (extends_declareVariable _
        (if word = "var" then (facts.place node context.parent).1.scopes.hoistTarget context.scope
          else context.scope) (file.textOf cursor) (facts.place node context.parent).2)).trans
      (extends_declareIn _ (facts.place node context.parent).2 context.region)
    exact (recites.later extend.graph rfl).record (on.stands.later extend) (.node spot) (seat site rfl)
  | param position rest optional hasDefault =>
    obtain ⟨region, found, whole⟩ := recites
    let node := paramNode file cursor position rest optional hasDefault
    have grown := (extends_place facts node context.parent).graph
    refine ⟨{ region with params := region.params.push (facts.place node context.parent).2 }, ?_, ?_⟩
    · simp only [bindName, declareParam, Array.getElem?_modify, if_true]
      show facts.regions[context.region]?.map _ = _
      rw [found]
      rfl
    · show Region.Recites _ _ _ (script.record context.statement [])
      rw [Script.record_nil]
      exact (whole.kept grown).congr rfl rfl rfl

/-- An expression that is a name is read, and a class writes its fields. -/
theorem Recites.expression (recites : facts.Recites context.region context.scope script)
    (sited : context.Sited) (seat : ∀ site, context.site = some site → context.parent = some site)
    {hint : Option Hint}
    (within : (Scheme.expression file cursor home hint).puts file ⊆ file.yields) :
    (facts.expression file cursor context hint).1.Recites context.region context.scope
      (script.record context.statement ((Look.expression cursor home hint).mentioned file)) := by
  have place : ∀ node, (facts.place node context.parent).1.Recites context.region context.scope script :=
    fun node => recites.later (extends_place facts node context.parent).graph rfl
  unfold Look.mentioned Facts.expression
  unfold Scheme.expression at within
  cases form : ExpressionForm.ofKind cursor.kind <;> simp only [form] at within ⊢ <;>
    try rw [Script.record_nil]
  case reference =>
    obtain ⟨site, given⟩ := Option.isSome_iff_exists.1 sited
    simp only [addReference, given]
    exact recites.record on.stands (.name (file.textOf cursor)) (seat site given)
  case function => exact recites.addFunction cursor context hint false
  case method => exact recites.addFunction cursor context none true
  case classLike => exact recites.addClass on within
  case call => exact (place (callNode file cursor (callSyntax file cursor))).later (.refl _) rfl
  case assignment =>
    unfold addAssignment
    split
    · exact place _
    · exact recites
  case augmented =>
    unfold addAssignment
    split
    · exact place _
    · exact recites
  case update =>
    unfold addUpdate
    split
    · exact place _
    · exact recites
  case pair => exact recites
  case type => exact recites
  case compound => exact recites

end Steps

variable {task : Task} {rest : List Task} {sight : Sight} {ahead : List Sight}

/-- A step at a simple look leaves the region with what the look mentions by itself. -/
theorem Charted.recites (charted : Charted file facts (task :: rest) (sight :: ahead))
    (known : task.Known facts) (simple : sight.look.isSimple = true)
    (root : task.adds = true → task.context.block = Skeleton.root)
    (recites : facts.Recites task.context.region task.context.scope script) :
    (facts.step file task).1.Recites task.context.region task.context.scope
      (script.enter file (task.context.statement, sight.look)) := by
  have within := charted.puts_subset
  have on := charted.on
  rw [← charted.head.same] at within simple ⊢
  generalize sight.look.home = home at within simple on ⊢
  cases task with
  | statement cursor context => exact recites.statement on within simple (root rfl)
  | loopHeader cursor context => cases simple
  | bind cursor context mode => exact recites.bind on fun site given => (known.binds site given).2
  | expression cursor context hint =>
    exact recites.expression on (known.sited rfl) known.context.seat within

end Facts

end CodeGraph

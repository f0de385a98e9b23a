import CodeGraph.Proofs.Facts.Inside

/-!
# Steps of expressions and patterns

What one step of the walk does at a pattern, a function, a class or another expression: it proceeds
by the operations within its context, and the tasks that it leaves fit (`Facts.Proceeds`). Expressions
and patterns add no statements where they are; only the bodies of functions do, in regions of their
own.
-/

namespace CodeGraph

namespace Facts

variable {file : SourceFile} {base begun facts : Facts} {outer context : Context} {adds : Bool}

/-! ## Patterns -/

theorem Inside.declare (inside : Inside file base outer adds begun facts context) (cursor : Cursor)
    (kind : String) {site : Nat} (there : facts.graph.KindIn site NodeKind.writers) :
    Inside file base outer adds begun (facts.declare file cursor context kind site) context := by
  have draws : file.Draws ((file.nodeOf cursor .var (some (file.textOf cursor))).set
      "declarationKind" (.text kind)) :=
    (file.draws_nodeOf cursor fun _ => rfl).set _ _
  obtain ⟨placed, handle⟩ := inside.place .var draws rfl (by decide) inside.known.parent
  have grown := (extends_place facts ((file.nodeOf cursor .var (some (file.textOf cursor))).set
    "declarationKind" (.text kind)) context.parent).graph
  have binding := handle.mono (by decide : ∀ kind ∈ [NodeKind.var], kind ∈ NodeKind.bindings)
  have scope : (if kind = "var" then facts.scopes.hoistTarget context.scope else context.scope) <
      facts.scopes.list.size := by
    split
    · exact Scopes.hoistTarget_lt inside.known.scope
    · exact inside.known.scope
  exact ((placed.declareVariable scope (file.textOf cursor) binding).declareIn binding).define binding
    (there.kept grown)

theorem Inside.declareParam (inside : Inside file base outer adds begun facts context)
    (cursor : Cursor) (position : Nat) (rest optional hasDefault : Bool) :
    Inside file base outer adds begun
      (facts.declareParam file cursor context position rest optional hasDefault) context := by
  have draws : file.Draws (((((file.nodeOf cursor .param (some (file.textOf cursor))).set "index"
      (.ofNat position)).set "isRest" (.flag rest)).set "isOptional" (.flag optional)).set
      "hasDefault" (.flag hasDefault)) :=
    file.draws_nodeOf cursor fun _ => rfl
  obtain ⟨placed, handle⟩ := inside.place .param draws rfl (by decide) inside.known.parent
  have binding := handle.mono (by decide : ∀ kind ∈ [NodeKind.param], kind ∈ NodeKind.bindings)
  have added := ((placed.declareVariable placed.known.scope (file.textOf cursor) binding).declareIn
    binding).addParam handle
  unfold Facts.declareParam
  cases given : context.function with
  | none => exact added
  | some number => exact added.noteParam (added.known.function_lt given) position handle

theorem Inside.bindName (inside : Inside file base outer adds begun facts context) (cursor : Cursor)
    {mode : BindMode}
    (there : ∀ site, mode.site? = some site → facts.graph.KindIn site NodeKind.writers) :
    Inside file base outer adds begun (facts.bindName file cursor context mode) context := by
  cases mode with
  | declare kind site => exact inside.declare cursor kind (there site rfl)
  | assign site => exact inside.mention (there site rfl) (file.textOf cursor)
  | param position rest optional hasDefault =>
    exact inside.declareParam cursor position rest optional hasDefault

theorem proceeds_bind (inside : Inside file base outer adds begun facts context)
    (sited : context.Sited) (cursor : Cursor) {mode : BindMode}
    (there : ∀ site, mode.site? = some site →
      facts.graph.KindIn site NodeKind.writers ∧ context.parent = some site) :
    Proceeds file base outer adds begun (facts.bind file cursor context mode) := by
  unfold bind
  split
  · exact (inside.bindName cursor fun site given => (there site given).1).stop
  · refine inside.leave ?_
    unfold patternTasks
    split
    · intro task below
      obtain ⟨child, -, rfl⟩ := List.mem_map.1 below
      exact inside.bind sited child mode there
    · exact inside.bind? sited _ there
    · exact fits_append (inside.expression? sited _ none) (inside.bind? sited _ there)
    · exact inside.bind? sited _ there
    · exact fits_one (inside.expression sited cursor none)
    · exact fits_none
    · exact fits_none

/-! ## Functions -/

theorem Inside.openExpression (inside : Inside file base outer adds begun facts context)
    (cursor : Cursor) :
    Inside file base outer adds begun (facts.openExpression file cursor context).1 context ∧
      (facts.openExpression file cursor context).1.graph.KindIn
        (facts.openExpression file cursor context).2 [.expr] ∧
      context.Around (facts.openExpression file cursor context).1
        (facts.openExpression file cursor context).2 := by
  have draws : file.Draws ((file.nodeOf cursor .expr none).set "kind" (.text cursor.kind)) :=
    (file.draws_nodeOf cursor fun binding => by cases binding).set _ _
  obtain ⟨placed, handle⟩ := inside.place .expr draws rfl (by decide) inside.known.parent
  exact ⟨placed, handle, inside.sound.around_place inside.known .expr draws rfl (by decide)⟩

theorem proceeds_functionBody (inside : Inside file base outer adds begun facts context)
    (new : base.regions.size ≤ context.region) (cursor : Cursor) :
    Proceeds file base outer adds begun (facts.functionBody file cursor context) := by
  unfold functionBody
  split
  · exact inside.stop
  · next body _ =>
    split
    · exact inside.leave (inside.statements (.inl new) _)
    · obtain ⟨placed, handle, around⟩ := inside.openExpression body
      obtain ⟨pushed, fresh⟩ := placed.pushStatement (.inl new) (handle.mono (by decide)) .returns
      have still := handle
      rw [← graph_pushStatement _ context _ .returns] at still
      have holds := around.later (extends_pushStatement _ context
        (facts.openExpression file body context).2 .returns)
      have there := (pushed.atSite (still.mono (by decide)) holds).atStatement fresh
      have step := still.mono (by decide : ∀ kind ∈ [NodeKind.expr], kind ∈ NodeKind.steps)
      exact (pushed.recordReturn step context.function).leave
        (fits_one ((there.recordReturn step context.function).expression rfl body none))

theorem Inside.params (inside : Inside file base outer adds begun facts context)
    (sited : context.Sited) (params : List Parameter) :
    ∀ task ∈ params.zipIdx.flatMap (fun entry => entry.1.tasks context entry.2),
      task.Fits base outer adds facts := by
  intro task there
  obtain ⟨⟨param, position⟩, -, here⟩ := List.mem_flatMap.1 there
  exact fits_append (inside.expression? sited _ none)
    (fits_one (inside.bind sited _ (.param _ _ _ _) fun _ given => by cases given)) task here

theorem proceeds_addFunction (inside : Inside file base outer adds begun facts context)
    (cursor : Cursor) (hint : Option Hint) {isMethod : Bool}
    (plain : isMethod = true → StatementForm.ofKind cursor.kind ≠ .function) :
    Proceeds file base outer adds begun ((facts.addFunction file cursor context hint isMethod).facts,
      (facts.addFunction file cursor context hint isMethod).tasks) := by
  obtain ⟨-, entered⟩ := inside.enterFunction cursor hint plain
  have new : base.regions.size ≤
      (facts.enterFunction file cursor context hint isMethod).inner.region := by
    rw [inner_enterFunction]
    exact inside.made.extends.regions
  have body := proceeds_functionBody entered.restart new cursor
  have whole := entered.past body
  exact ⟨body.made, whole.extend, fits_append (whole.params rfl _) body.fits⟩

theorem signatures_functionBody (facts : Facts) (cursor : Cursor) (inner : Context) :
    (facts.functionBody file cursor inner).1.signatures = facts.signatures := by
  unfold functionBody
  split
  · rfl
  · split
    · rfl
    · rw [signatures_recordReturn, pushStatement_eq]
      rfl

/-- A function that was added has a signature. -/
theorem signature_addFunction (facts : Facts) (cursor : Cursor) (context : Context)
    (hint : Option Hint) (isMethod : Bool) :
    ∃ signature ∈ (facts.addFunction file cursor context hint isMethod).facts.signatures,
      signature.node = (facts.addFunction file cursor context hint isMethod).node := by
  simp only [addFunction, signatures_functionBody, signatures_enterFunction]
  exact ⟨_, List.mem_append_right _ List.mem_cons_self, rfl⟩

/-! ## Classes -/

theorem draws_classNode (file : SourceFile) (cursor : Cursor) (name : Option String) :
    file.Draws (classNode file cursor name) := by
  have draws : file.Draws (file.nodeOf cursor .cls name) :=
    file.draws_nodeOf cursor fun binding => by cases binding
  unfold classNode
  simp only
  split
  · exact draws
  · exact draws

theorem kind_classNode (file : SourceFile) (cursor : Cursor) (name : Option String) :
    (classNode file cursor name).kind = .cls := by
  unfold classNode
  simp only
  split <;> rfl

/-- A class is being added: what has been made so far, and the tasks that are left so far. -/
structure AddsTo (file : SourceFile) (base : Facts) (outer : Context) (adds : Bool) (begun : Facts)
    (context : Context) (number : Nat) (adding : Adding) : Prop where
  inside : Inside file base outer adds begun adding.facts context
  class_lt : number < adding.facts.classes.size
  own : ∀ task ∈ adding.own, task.Fits base outer adds adding.facts
  methods : ∀ task ∈ adding.methods, task.Fits base outer adds adding.facts

namespace AddsTo

variable {number node : Nat} {adding : Adding}

theorem method (added : AddsTo file base outer adds begun context number adding) (member : Cursor)
    (hint : Option Hint) (plain : StatementForm.ofKind member.kind ≠ .function) :
    AddsTo file base outer adds begun context number
      (adding.method file member context hint number) := by
  have proceeds : Proceeds file base outer adds adding.facts
      ((adding.facts.addFunction file member context hint true).facts, _) :=
    proceeds_addFunction added.inside.restart member hint fun _ => plain
  have number_lt := Nat.lt_of_lt_of_le added.class_lt proceeds.extend.classes
  have noted := (added.inside.past proceeds).restart.noteMethod number_lt
    (signature_addFunction adding.facts member context hint true)
  have extend := proceeds.extend.trans noted.extend
  refine ⟨added.inside.later noted.made extend, ?_, ?_, ?_⟩
  · exact Nat.lt_of_lt_of_le added.class_lt extend.classes
  · exact fun task there => (added.own task there).later extend
  · exact fits_append (fun task there => (proceeds.fits task there).later noted.extend)
      fun task there => (added.methods task there).later extend

theorem field (added : AddsTo file base outer adds begun context number adding)
    (sited : context.Sited) (name : Cursor) (value : Option Cursor)
    (there : adding.facts.graph.KindIn node [.cls]) :
    AddsTo file base outer adds begun context number
      (adding.field file name value context node) := by
  have draws : file.Draws (((file.nodeOf name .var (some (file.textOf name))).set "declarationKind"
      (.text "field")).set "isField" (.flag true)) :=
    file.draws_nodeOf name fun _ => rfl
  obtain ⟨placed, handle⟩ := added.inside.restart.place .var draws rfl
    (by decide) fun _ given => Option.some.inj given ▸ there.lt
  have grown := (extends_place adding.facts (((file.nodeOf name .var (some (file.textOf name))).set
    "declarationKind" (.text "field")).set "isField" (.flag true)) (some node)).graph
  have binding := handle.mono (by decide : ∀ kind ∈ [NodeKind.var], kind ∈ NodeKind.bindings)
  have recorded := (placed.declareIn binding).define binding ((there.kept grown).mono (by decide))
  refine ⟨added.inside.later recorded.made recorded.extend, ?_, ?_, ?_⟩
  · exact Nat.lt_of_lt_of_le added.class_lt recorded.extend.classes
  · exact fits_append (fun task there => (added.own task there).later recorded.extend)
      (recorded.expression? sited _ none)
  · exact fun task there => (added.methods task there).later recorded.extend

theorem member (added : AddsTo file base outer adds begun context number adding)
    (sited : context.Sited) (cursor : Cursor)
    (there : adding.facts.graph.KindIn node [.cls]) :
    AddsTo file base outer adds begun context number
      (adding.member file context number node cursor) := by
  unfold Adding.member
  split
  · next kind =>
    exact added.method cursor none (form_of_methodKind kind)
  · split
    · split
      · exact added
      · split
        · exact added.field sited _ none there
        · next value _ =>
          split
          · next function => exact added.method value _ (form_of_isFieldFunction function)
          · exact added.field sited _ _ there
    · exact added

theorem members (cursors : List Cursor)
    (added : AddsTo file base outer adds begun context number adding) (sited : context.Sited)
    (there : adding.facts.graph.KindIn node [.cls]) :
    AddsTo file base outer adds begun context number
      (cursors.foldl (Adding.member file context number node) adding) := by
  induction cursors generalizing adding begun with
  | nil => exact added
  | cons cursor rest ih =>
    -- The node of the class stays while one member after the other is added.
    have next := AddsTo.member ⟨added.inside.restart, added.class_lt, added.own, added.methods⟩
      sited cursor there
    have done := ih next (there.kept next.inside.extend.graph)
    exact ⟨⟨done.inside.begins, done.inside.made, added.inside.extend.trans done.inside.extend,
      done.inside.within, done.inside.known⟩, done.class_lt, done.own, done.methods⟩

end AddsTo

theorem proceeds_addClass (inside : Inside file base outer adds begun facts context)
    (cursor : Cursor) (hint : Option Hint) :
    Proceeds file base outer adds begun (facts.addClass file cursor context hint) := by
  have kind := kind_classNode file cursor
    (givenName file cursor hint)
  obtain ⟨placed, handle⟩ := inside.place .cls (draws_classNode file cursor
    (givenName file cursor hint))
    kind (by decide) inside.known.parent
  have around := inside.sound.around_place inside.known .cls (draws_classNode file cursor
    (givenName file cursor hint))
    kind (by decide)
  obtain ⟨opened, number_lt⟩ := placed.pushClass
    (givenName file cursor hint)
  unfold addClass
  simp only
  split
  · exact opened.stop
  · have within := opened.atSite (handle.mono (by decide)) (around.later (extends_pushClass _ _))
    have start : AddsTo file base outer adds begun _ _ { facts := _ } :=
      ⟨within, number_lt, fits_none, fits_none⟩
    have added := start.members (((cursor.field? "body").map Cursor.named).getD []) rfl handle
    exact ⟨added.inside.made, added.inside.extend,
      fits_append (fits_append (added.inside.expression? rfl _ none) added.own) added.methods⟩

/-! ## Other expressions -/

theorem proceeds_addCall (inside : Inside file base outer adds begun facts context)
    (sited : context.Sited) {cursor : Cursor} (has : file.Has cursor)
    (form : ExpressionForm.ofKind cursor.kind = .call) :
    Proceeds file base outer adds begun (facts.addCall file cursor context) := by
  have called := inside.later (inside.made.enterCall cursor context inside.known sited has form)
    (extends_addCall facts file cursor context)
  have site := inside.sound.kind_place (draws_callNode file cursor (callSyntax file cursor))
    context.parent
  obtain ⟨name, -, kind, -⟩ := sameNode_callNode file cursor (callSyntax file cursor)
  rw [kind] at site
  have around : context.Around (facts.addCall file cursor context).1
      (facts.place (callNode file cursor (callSyntax file cursor)) context.parent).2 :=
    (inside.sound.around_place inside.known .call
      (draws_callNode file cursor (callSyntax file cursor)) kind (by decide)).later
        (extends_pushCall _ _)
  have within := called.atSite (site.mono (by simp [SourceFile.nodeOf, NodeKind.sites])) around
  exact within.leave (fits_append (within.expression? rfl _ none) (within.expressions rfl _))

theorem proceeds_descend (inside : Inside file base outer adds begun facts context)
    (sited : context.Sited) (cursor : Cursor) :
    Proceeds file base outer adds begun (facts, descend cursor context) :=
  inside.leave (inside.expressions sited _)

theorem proceeds_addAssignment (inside : Inside file base outer adds begun facts context)
    (sited : context.Sited) (cursor : Cursor) (augmented : Bool) :
    Proceeds file base outer adds begun (facts.addAssignment file cursor context augmented) := by
  unfold addAssignment
  split
  · next left right _ _ =>
    obtain ⟨placed, handle, around⟩ := inside.openExpression cursor
    have within := placed.atSite (handle.mono (by decide)) around
    have assign := within.bind rfl left (.assign (facts.openExpression file cursor context).2)
      fun _ given => Option.some.inj given ▸ ⟨handle.mono (by decide), rfl⟩
    refine within.leave ?_
    split
    · exact fits_cons (within.expression rfl left none)
        (fits_cons (within.expression rfl right none) (fits_one assign))
    · exact fits_cons (within.expression rfl right _) (fits_one assign)
  · exact proceeds_descend inside sited cursor

theorem proceeds_addUpdate (inside : Inside file base outer adds begun facts context)
    (sited : context.Sited) (cursor : Cursor) :
    Proceeds file base outer adds begun (facts.addUpdate file cursor context) := by
  unfold addUpdate
  split
  · next argument _ =>
    obtain ⟨placed, handle, around⟩ := inside.openExpression cursor
    have within := placed.atSite (handle.mono (by decide)) around
    exact within.leave (fits_cons (within.expression rfl argument none)
      (fits_one (within.bind rfl argument (.assign _) fun _ given =>
        Option.some.inj given ▸ ⟨handle.mono (by decide), rfl⟩)))
  · exact proceeds_descend inside sited cursor

theorem Inside.reference (inside : Inside file base outer adds begun facts context)
    (cursor : Cursor) :
    Inside file base outer adds begun (facts.addReference file cursor context) context := by
  unfold addReference
  split
  · next site given => exact inside.mention (inside.known.site site given) _
  · exact inside

/-- A step at an expression. -/
theorem proceeds_expression (inside : Inside file base outer adds begun facts context)
    (sited : context.Sited) {cursor : Cursor} (has : file.Has cursor) (hint : Option Hint) :
    Proceeds file base outer adds begun (facts.expression file cursor context hint) := by
  unfold Facts.expression
  split
  · exact (inside.reference cursor).stop
  · exact proceeds_addFunction inside cursor hint fun no => nomatch no
  · next form => exact proceeds_addFunction inside cursor none fun _ => form_of_method form
  · exact proceeds_addClass inside cursor hint
  · next form => exact proceeds_addCall inside sited has form
  · exact proceeds_addAssignment inside sited cursor false
  · exact proceeds_addAssignment inside sited cursor true
  · exact proceeds_addUpdate inside sited cursor
  · exact inside.leave (fits_append (inside.expression? sited _ none) (inside.expression? sited _ _))
  · exact inside.stop
  · exact proceeds_descend inside sited cursor

end Facts

end CodeGraph

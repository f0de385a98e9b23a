import CodeGraph.Proofs.Facts.Sound

/-!
# What most steps leave alone

Most steps of the walk are made of six operations: they place a node, record an access, add a scope, a
statement or an arm, and note a return. A part of the facts that none of these changes (`Facts.Steady`) is
changed only where the walk comes to a name that is bound, to a function, to a class or to a call
(`Facts.Steady.step`). Accesses are recorded where a name is read, and else only there; so a part that
may change with them (`Facts.Still`) changes nowhere else (`Facts.Still.step`). Scopes are added by some
statements only; a part that may change with them too (`Facts.Firm`) changes with no other statement
(`Facts.Firm.statement`).
-/

namespace CodeGraph

/-- A task that does more than to open statements and expressions: the walk comes to a name that is bound,
to a function, to a class or to a call. -/
def Task.Enters : Task → Prop
  | statement cursor _ => StatementForm.ofKind cursor.kind ∈ [.function, .classLike]
  | loopHeader _ _ => False
  | bind cursor _ _ => PatternForm.ofKind cursor.kind = .name
  | expression cursor _ _ => ExpressionForm.ofKind cursor.kind ∈ [.function, .method, .classLike, .call]

/-- The forms of statements that open a scope. -/
def StatementForm.opening : List StatementForm := [.block, .forLoop, .forEach, .switch, .guarded]

/-- A task that reads a name. -/
def Task.Reads : Task → Prop
  | expression cursor _ _ => ExpressionForm.ofKind cursor.kind = .reference
  | _ => False

namespace Facts

/-- A part of the facts that the common operations leave alone, but for the recording of accesses and the
adding of scopes. -/
structure Firm {α : Type} (part : Facts → α) : Prop where
  place : ∀ facts node parent, part (facts.place node parent).1 = part facts
  pushStatement : ∀ facts context site kind,
    part (facts.pushStatement context site kind).1 = part facts
  pushArm : ∀ facts context statement role,
    part (facts.pushArm context statement role).1 = part facts
  recordReturn : ∀ facts function site, part (facts.recordReturn function site) = part facts

/-- A part of the facts that the common operations leave alone, but for the recording of accesses. -/
structure Still {α : Type} (part : Facts → α) : Prop extends Firm part where
  pushScope : ∀ facts parent hoists, part (facts.pushScope parent hoists).1 = part facts

/-- A part of the facts that the common operations leave alone. -/
structure Steady {α : Type} (part : Facts → α) : Prop extends Still part where
  record : ∀ facts context access, part (facts.record context access) = part facts

namespace Firm

variable {α : Type} {part : Facts → α} (firm : Firm part) (file : SourceFile) (facts : Facts)
  (cursor : Cursor) (context : Context)
include firm

theorem openStatement (kind : StatementKind) :
    part (facts.openStatement file cursor context kind).facts = part facts :=
  (firm.pushStatement _ _ _ _).trans (firm.place _ _ _)

theorem openExpression : part (facts.openExpression file cursor context).1 = part facts :=
  firm.place _ _ _

theorem functionBody : part (facts.functionBody file cursor context).1 = part facts := by
  unfold Facts.functionBody
  split
  · rfl
  · split
    · rfl
    · exact (firm.recordReturn _ _ _).trans
        ((firm.pushStatement _ _ _ _).trans (firm.openExpression file facts _ context))

/-- Looking at a function changes as much as entering it. -/
theorem addFunction (hint : Option Hint) (isMethod : Bool) :
    part (facts.addFunction file cursor context hint isMethod).facts =
      part (facts.enterFunction file cursor context hint isMethod).facts :=
  firm.functionBody file _ cursor _

theorem addAssignment (augmented : Bool) :
    part (facts.addAssignment file cursor context augmented).1 = part facts := by
  unfold Facts.addAssignment
  split
  · exact firm.openExpression file facts cursor context
  · rfl

theorem addUpdate : part (facts.addUpdate file cursor context).1 = part facts := by
  unfold Facts.addUpdate
  split
  · exact firm.openExpression file facts cursor context
  · rfl

theorem addLoopBody (statement site : Nat) :
    part (facts.addLoopBody cursor context statement site).1 = part facts := by
  unfold Facts.addLoopBody
  split
  · rfl
  · exact firm.pushArm _ _ _ _

theorem addLoopHeader : part (facts.addLoopHeader file cursor context).1 = part facts :=
  (firm.addLoopBody _ _ _ _ _).trans (firm.openStatement file facts cursor context _)

theorem addCase (opened : Opened) (body : Context) (state : Facts × List Task) :
    part (Facts.addCase opened context body state cursor).1 = part state.1 := by
  unfold Facts.addCase
  simp only
  split
  · rfl
  · exact firm.pushArm _ _ _ _

omit firm cursor in
theorem addCases (firm : Firm part) (opened : Opened) (body : Context) (entries : List Cursor)
    (state : Facts × List Task) :
    part (entries.foldl (Facts.addCase opened context body) state).1 = part state.1 := by
  induction entries generalizing state with
  | nil => rfl
  | cons entry rest ih => exact (ih _).trans (firm.addCase entry context opened body state)

theorem addCleanup (statement site : Nat) :
    part (facts.addCleanup cursor context statement site).1 = part facts := by
  unfold Facts.addCleanup
  split
  · rfl
  · exact firm.pushArm _ _ _ _

theorem addConditional : part (facts.addConditional file cursor context).1 = part facts := by
  have opened := firm.openStatement file facts cursor context .conditional
  unfold Facts.addConditional
  cases cursor.field? "consequence" <;> cases cursor.field? "alternative" <;>
    simp only [firm.pushArm, opened]

/-- A statement that neither opens a scope nor enters anything changes nothing else. -/
theorem statement (other : StatementForm.ofKind cursor.kind ∉ [.function, .classLike])
    (flat : StatementForm.ofKind cursor.kind ∉ StatementForm.opening) :
    part (facts.statement file cursor context).1 = part facts := by
  have opened := firm.openStatement file facts cursor context
  unfold Facts.statement
  cases form : StatementForm.ofKind cursor.kind with
  | block => simp [form, StatementForm.opening] at flat
  | declaration => exact opened _
  | expression =>
    show part (facts.addExpressionStatement file cursor context).1 = _
    unfold Facts.addExpressionStatement
    split
    · rfl
    · split
      · rfl
      · exact opened _
  | returns => exact (firm.recordReturn _ _ _).trans (opened _)
  | throws => exact opened _
  | conditional => exact firm.addConditional file facts cursor context
  | forLoop => simp [form, StatementForm.opening] at flat
  | forEach => simp [form, StatementForm.opening] at flat
  | loop => exact (firm.addLoopBody _ _ _ _ _).trans (opened _)
  | switch => simp [form, StatementForm.opening] at flat
  | guarded => simp [form, StatementForm.opening] at flat
  | breaks => exact opened _
  | continues => exact opened _
  | labelled => rfl
  | exported =>
    show part (facts.addExport file cursor context).1 = _
    unfold Facts.addExport
    split
    · rfl
    · exact opened _
    · rfl
  | function => exact absurd (form ▸ List.mem_cons_self) other
  | classLike => exact absurd (form ▸ List.mem_cons_of_mem _ List.mem_cons_self) other
  | module => rfl
  | faulty => rfl
  | inert => rfl
  | plain => exact opened _

theorem expression (hint : Option Hint)
    (other : ExpressionForm.ofKind cursor.kind ∉ [.reference, .function, .method, .classLike, .call]) :
    part (facts.expression file cursor context hint).1 = part facts := by
  unfold Facts.expression
  cases form : ExpressionForm.ofKind cursor.kind with
  | reference => simp [form] at other
  | function => simp [form] at other
  | method => simp [form] at other
  | classLike => simp [form] at other
  | call => simp [form] at other
  | assignment => exact firm.addAssignment file facts cursor context false
  | augmented => exact firm.addAssignment file facts cursor context true
  | update => exact firm.addUpdate file facts cursor context
  | pair => rfl
  | type => rfl
  | compound => rfl

end Firm

namespace Still

variable {α : Type} {part : Facts → α} (still : Still part) (file : SourceFile) (facts : Facts)
  (cursor : Cursor) (context : Context)
include still

theorem addSwitch : part (facts.addSwitch file cursor context).1 = part facts :=
  (still.addCases context _ _ _ _).trans ((still.pushScope _ _ _).trans
    (still.openStatement file facts cursor context _))

theorem addHandler (statement site : Nat) :
    part (facts.addHandler file cursor context statement site).1 = part facts := by
  unfold Facts.addHandler
  split
  · rfl
  · exact (still.openStatement file _ _ _ _).trans ((still.pushScope _ _ _).trans
      (still.pushArm _ _ _ _))

theorem addGuarded : part (facts.addGuarded file cursor context).1 = part facts := by
  refine (still.addCleanup _ _ _ _ _).trans ((still.addHandler _ _ _ _ _ _).trans ?_)
  split
  · exact still.openStatement file facts cursor context _
  · exact (still.pushArm _ _ _ _).trans (still.openStatement file facts cursor context _)

theorem statement (other : StatementForm.ofKind cursor.kind ∉ [.function, .classLike]) :
    part (facts.statement file cursor context).1 = part facts := by
  by_cases flat : StatementForm.ofKind cursor.kind ∉ StatementForm.opening
  · exact still.toFirm.statement file facts cursor context other flat
  · unfold Facts.statement
    simp only [StatementForm.opening, List.mem_cons, List.not_mem_nil, or_false, not_not] at flat
    rcases flat with form | form | form | form | form <;> rw [form]
    · exact still.pushScope _ _ _
    · exact still.pushScope _ _ _
    · exact (still.addLoopBody _ _ _ _ _).trans ((still.openStatement file _ _ _ _).trans
        (still.pushScope _ _ _))
    · exact still.addSwitch file facts cursor context
    · exact still.addGuarded file facts cursor context

omit cursor context in
/-- A step changes no part that the common operations leave alone but for the recording of accesses,
unless it reads a name or enters something. -/
theorem step {task : Task} (other : ¬ task.Enters) (quiet : ¬ task.Reads) :
    part (facts.step file task).1 = part facts := by
  cases task with
  | statement cursor context => exact still.statement file facts cursor context other
  | loopHeader cursor context => exact still.addLoopHeader file facts cursor context
  | bind cursor context mode =>
    show part (facts.bind file cursor context mode).1 = _
    unfold Facts.bind
    exact congrArg (fun result : Facts × List Task => part result.1) (if_neg other)
  | expression cursor context hint =>
    refine still.expression file facts cursor context hint fun inside => ?_
    rcases List.mem_cons.1 inside with reads | enters
    · exact quiet reads
    · exact other enters

end Still

namespace Steady

variable {α : Type} {part : Facts → α} (steady : Steady part) (file : SourceFile) (facts : Facts)
include steady

theorem addReference (cursor : Cursor) (context : Context) :
    part (facts.addReference file cursor context) = part facts := by
  unfold Facts.addReference
  split
  · exact steady.record _ _ _
  · rfl

section Classes

variable (classes : ∀ (facts : Facts) (list : Array ClassFact),
    part { facts with classes := list } = part facts)
  (regionOf : ∀ (facts : Facts) (table : Std.HashMap Nat Nat),
    part { facts with regionOf := table } = part facts)
  (method : ∀ (facts : Facts) (cursor : Cursor) (context : Context) (hint : Option Hint),
    StatementForm.ofKind cursor.kind ≠ .function →
      part (facts.addFunction file cursor context hint true).facts = part facts)
include classes regionOf method

omit facts in
/-- A member of a class changes no part that methods leave alone. -/
theorem member (adding : Adding) (context : Context) (number node : Nat) (cursor : Cursor) :
    part (adding.member file context number node cursor).facts = part adding.facts := by
  have field : ∀ name value, part (adding.field file name value context node).facts =
      part adding.facts := fun name value =>
    (steady.record _ _ _).trans ((regionOf _ _).trans (steady.place _ _ _))
  unfold Adding.member
  split
  · next kind =>
    exact (classes _ _).trans (method adding.facts cursor context none (form_of_methodKind kind))
  · split
    · split
      · rfl
      · split
        · exact field _ _
        · split
          · next function =>
            exact (classes _ _).trans
              (method adding.facts _ context _ (form_of_isFieldFunction function))
          · exact field _ _
    · rfl

/-- A class changes no part that methods leave alone. -/
theorem addClass (cursor : Cursor) (context : Context) (hint : Option Hint) :
    part (facts.addClass file cursor context hint).1 = part facts := by
  have members : ∀ (list : List Cursor) (adding : Adding) (inner : Context) (number node : Nat),
      part (list.foldl (Adding.member file inner number node) adding).facts = part adding.facts := by
    intro list
    induction list with
    | nil => exact fun _ _ _ _ => rfl
    | cons head rest ih =>
      intro adding inner number node
      rw [List.foldl_cons, ih, steady.member file classes regionOf method]
  have placed := fun node list => (classes (facts.place node context.parent).1 list).trans
    (steady.place facts node context.parent)
  unfold Facts.addClass
  simp only
  split
  · exact placed _ _
  · exact (members _ _ _ _ _).trans (placed _ _)

end Classes

/-- A step changes no part that the common operations leave alone, unless it enters something. -/
theorem step {task : Task} (other : ¬ task.Enters) :
    part (facts.step file task).1 = part facts := by
  by_cases reads : task.Reads
  swap
  · exact steady.toStill.step file facts other reads
  cases task with
  | statement cursor context => exact reads.elim
  | loopHeader cursor context => exact reads.elim
  | bind cursor context mode => exact reads.elim
  | expression cursor context hint =>
    have reads : ExpressionForm.ofKind cursor.kind = .reference := reads
    show part (facts.expression file cursor context hint).1 = _
    simp only [expression, reads]
    exact steady.addReference file facts cursor context

end Steady

end Facts

end CodeGraph

import CodeGraph.Facts.Expression
import CodeGraph.Proofs.Facts.Extent
import CodeGraph.Proofs.Facts.NodeId

/-!
# What the walk makes

Every step of the walk is made of a few operations (`Facts.Makes`), each of which happens in a context
that is known to the facts and lies within the one in which the step began (`Context.Within`): in the
same region, or in one that has come since, and at the same statement, or at one that has come since.
A function is entered by one operation, which makes its node together with the fact about it, and so is
a call. What the walk does to the facts is derived from this alone, operation by operation.
-/

namespace CodeGraph

/-- A node of the syntax tree of a file, other than its root. -/
def SourceFile.Has (file : SourceFile) (cursor : Cursor) : Prop :=
  cursor.Below { tree := file.tree }

/-- The nodes and the scope that an access refers to are there. -/
structure Access.Known (access : Access) (facts : Facts) : Prop where
  site : facts.graph.KindIn access.site access.kind.sites
  node : ∀ handle, access.handle? = some handle → facts.graph.KindIn handle NodeKind.bindings
  scope : ∀ text scope, access.binding = .name text scope → scope < facts.scopes.list.size

/-- `Context.Within base outer inner`: a walk that began with the facts `base` in the context `outer`
may get into the context `inner`. It stays in its region, where it is at its own statement or at a
new one, or is in a region that is new. -/
inductive Context.Within (base : Facts) (outer inner : Context) : Prop
  | elsewhere : base.regions.size ≤ inner.region → Within base outer inner
  | here : inner.region = outer.region →
      (∀ number, inner.statement = some number →
        outer.statement = some number ∨ base.statementsIn outer.region ≤ number) →
      Within base outer inner

theorem Context.Within.refl (base : Facts) (context : Context) : context.Within base context :=
  .here rfl fun _ given => .inl given

theorem Context.Within.trans {base middle : Facts} {outer inner context : Context}
    (extend : base.Extends middle) (first : outer.Within base inner)
    (second : inner.Within middle context) : outer.Within base context := by
  cases second with
  | elsewhere new => exact .elsewhere (Nat.le_trans extend.regions new)
  | here same at_ =>
    cases first with
    | elsewhere new => exact .elsewhere (same ▸ new)
    | here same' at_' =>
      refine .here (same.trans same') fun number given => ?_
      rcases at_ number given with old | new
      · exact at_' number old
      · exact .inr (Nat.le_trans (same' ▸ extend.statements inner.region) new)

namespace Facts

/-- `Makes file base outer adds facts`: a walk that began with the facts `base` in the context `outer`
makes `facts` by operations within that context. Only if `adds` holds does it add statements and arms
to the region in which it began, and arms only to statements that are new. The nodes of functions and
calls are made where these are entered, and nowhere else. -/
inductive Makes (file : SourceFile) (base : Facts) (outer : Context) (adds : Bool) : Facts → Prop
  | start : Makes file base outer adds base
  | place {facts : Facts} (node : Node) (parent : Option Nat) :
      Makes file base outer adds facts → file.Draws node → node.kind ∉ NodeKind.entered →
      (∀ handle, parent = some handle → handle < facts.graph.nodes.size) →
      Makes file base outer adds (facts.place node parent).1
  | record {facts : Facts} (context : Context) (access : Access) :
      Makes file base outer adds facts → outer.Within base context → context.Known facts →
      access.Known facts → Makes file base outer adds (facts.record context access)
  | pushScope {facts : Facts} (parent : Nat) :
      Makes file base outer adds facts → parent < facts.scopes.list.size →
      Makes file base outer adds (facts.pushScope parent false).1
  | pushStatement {facts : Facts} (context : Context) (site : Nat) (kind : StatementKind) :
      Makes file base outer adds facts → outer.Within base context → context.Known facts →
      (base.regions.size ≤ context.region ∨ adds = true) →
      facts.graph.KindIn site NodeKind.steps →
      Makes file base outer adds (facts.pushStatement context site kind).1
  | pushArm {facts : Facts} (context : Context) (statement : Nat) (role : Role) :
      Makes file base outer adds facts → outer.Within base context → context.Known facts →
      statement < facts.statementsIn context.region →
      (base.regions.size ≤ context.region ∨
        adds = true ∧ base.statementsIn context.region ≤ statement) →
      Makes file base outer adds (facts.pushArm context statement role).1
  | recordReturn {facts : Facts} (function : Option Nat) (site : Nat) :
      Makes file base outer adds facts → facts.graph.KindIn site NodeKind.steps →
      Makes file base outer adds (facts.recordReturn function site)
  | declareVariable {facts : Facts} (scope : Nat) (name : String) (node : Nat) :
      Makes file base outer adds facts → scope < facts.scopes.list.size →
      facts.graph.KindIn node NodeKind.bindings →
      Makes file base outer adds
        { facts with scopes := facts.scopes.declareVariable scope name node }
  | declareIn {facts : Facts} (context : Context) (node : Nat) :
      Makes file base outer adds facts → outer.Within base context → context.Known facts →
      facts.graph.KindIn node NodeKind.bindings →
      Makes file base outer adds
        { facts with regionOf := facts.regionOf.insert node context.region }
  | addParam {facts : Facts} (context : Context) (node : Nat) :
      Makes file base outer adds facts → outer.Within base context → context.Known facts →
      facts.graph.KindIn node [.param] →
      Makes file base outer adds
        { facts with regions := facts.regions.modify context.region fun region =>
            { region with params := region.params.push node } }
  | noteParam {facts : Facts} (number position node : Nat) :
      Makes file base outer adds facts → number < facts.functions.size →
      facts.graph.KindIn node [.param] →
      Makes file base outer adds
        { facts with functions := facts.functions.modify number fun fact =>
            { fact with params := fact.params.push (position, node) } }
  | enterFunction {facts : Facts} (cursor : Cursor) (context : Context) (hint : Option Hint)
      (isMethod : Bool) : Makes file base outer adds facts → context.Known facts →
      (isMethod = true → StatementForm.ofKind cursor.kind ≠ .function) →
      Makes file base outer adds (facts.enterFunction file cursor context hint isMethod).facts
  | pushClass {facts : Facts} (name : Option String) :
      Makes file base outer adds facts →
      Makes file base outer adds { facts with classes := facts.classes.push { name } }
  | noteMethod {facts : Facts} (number node : Nat) :
      Makes file base outer adds facts → number < facts.classes.size →
      (∃ signature ∈ facts.signatures, signature.node = node) →
      Makes file base outer adds
        { facts with classes := facts.classes.modify number fun fact =>
            { fact with methods := fact.methods.push node } }
  | enterCall {facts : Facts} (cursor : Cursor) (context : Context) :
      Makes file base outer adds facts → context.Known facts → context.Sited → file.Has cursor →
      ExpressionForm.ofKind cursor.kind = .call →
      Makes file base outer adds (facts.addCall file cursor context).1

theorem extends_addCall (facts : Facts) (file : SourceFile) (cursor : Cursor) (context : Context) :
    facts.Extends (facts.addCall file cursor context).1 :=
  (facts.extends_place (callNode file cursor (callSyntax file cursor)) context.parent).trans
    (extends_pushCall _ _)

variable {file : SourceFile} {base facts : Facts} {outer : Context} {adds : Bool}

/-- Nothing is lost on the way. -/
theorem Makes.extends (made : Makes file base outer adds facts) : base.Extends facts := by
  induction made with
  | start => exact .refl base
  | place node parent _ _ _ _ ih => exact ih.trans (extends_place _ node parent)
  | record context access _ _ _ _ ih => exact ih.trans (extends_record _ context access)
  | pushScope parent _ _ ih => exact ih.trans (extends_pushScope _ parent false)
  | pushStatement context site kind _ _ _ _ _ ih =>
    exact ih.trans (extends_pushStatement _ context site kind)
  | pushArm context statement role _ _ _ _ _ ih =>
    exact ih.trans (extends_pushArm _ context statement role)
  | recordReturn function site _ _ ih => exact ih.trans (extends_recordReturn _ function site)
  | declareVariable scope name node _ _ _ ih =>
    exact ih.trans (extends_declareVariable _ scope name node)
  | declareIn context node _ _ _ _ ih =>
    exact ih.trans (extends_declareIn _ node context.region)
  | addParam context node _ _ _ _ ih => exact ih.trans (extends_addParam _ context.region node)
  | noteParam number position node _ _ _ ih => exact ih.trans (extends_modifyFunction _ number fun _ => rfl)
  | enterFunction cursor context hint isMethod _ _ _ ih =>
    exact ih.trans (extends_enterFunction _ file cursor context hint isMethod)
  | pushClass name _ ih => exact ih.trans (extends_pushClass _ { name })
  | noteMethod number node _ _ _ ih => exact ih.trans (extends_modifyClass _ number _)
  | enterCall cursor context _ _ _ _ _ ih => exact ih.trans (extends_addCall _ file cursor context)

/-- What a walk inside makes, the walk around it makes. -/
theorem Makes.inner {middle : Facts} {inner : Context} {more : Bool}
    (first : Makes file base outer adds middle) (within : outer.Within base inner)
    (allowed : base.regions.size ≤ inner.region ∨ (more = true → adds = true))
    (second : Makes file middle inner more facts) : Makes file base outer adds facts := by
  have extend := first.extends
  have same : ∀ {context : Context}, inner.Within middle context → more = true →
      base.regions.size ≤ context.region ∨ adds = true := by
    intro context inside yes
    cases inside with
    | elsewhere new => exact .inl (Nat.le_trans extend.regions new)
    | here same _ => exact allowed.imp (fun new => same ▸ new) fun give => give yes
  induction second with
  | start => exact first
  | place node parent _ draws plain there ih => exact ih.place node parent draws plain there
  | record context access _ inside known stands ih =>
    exact ih.record context access (within.trans extend inside) known stands
  | pushScope parent _ there ih => exact ih.pushScope parent there
  | pushStatement context site kind _ inside known may there ih =>
    refine ih.pushStatement context site kind (within.trans extend inside) known ?_ there
    exact may.elim (fun new => .inl (Nat.le_trans extend.regions new)) (same inside)
  | pushArm context statement role _ inside known there new ih =>
    refine ih.pushArm context statement role (within.trans extend inside) known there ?_
    rcases new with new | ⟨yes, new⟩
    · exact .inl (Nat.le_trans extend.regions new)
    · exact (same inside yes).imp id fun give =>
        ⟨give, Nat.le_trans (extend.statements _) new⟩
  | recordReturn function site _ there ih => exact ih.recordReturn function site there
  | declareVariable scope name node _ there stands ih =>
    exact ih.declareVariable scope name node there stands
  | declareIn context node _ inside known there ih =>
    exact ih.declareIn context node (within.trans extend inside) known there
  | addParam context node _ inside known there ih =>
    exact ih.addParam context node (within.trans extend inside) known there
  | noteParam number position node _ there stands ih =>
    exact ih.noteParam number position node there stands
  | enterFunction cursor context hint isMethod _ known plain ih =>
    exact ih.enterFunction cursor context hint isMethod known plain
  | pushClass name _ ih => exact ih.pushClass name
  | noteMethod number node _ there stands ih => exact ih.noteMethod number node there stands
  | enterCall cursor context _ known sited has form ih =>
    exact ih.enterCall cursor context known sited has form

end Facts

end CodeGraph

import CodeGraph.Proofs.Facts.Noted
import CodeGraph.Proofs.Facts.Steady

/-!
# Where variables are declared

The facts tell for each variable and each parameter the region in which it is declared. Every step tells this
of what it declares and of nothing else (`Facts.Charted.locates`). So in the end it is told of all variables
and parameters, and the region belongs to the function in which the yields have them
(`Facts.located_of`).
-/

namespace CodeGraph

variable {file : SourceFile} {chart : List Yield} {facts : Facts} {context : Context} {home : Home}

namespace Facts

theorem steady_regionOf : Steady Facts.regionOf where
  place := fun _ _ _ => rfl
  record := fun _ _ _ => rfl
  pushScope := fun _ _ _ => rfl
  pushStatement := fun _ _ _ _ => by rw [pushStatement_eq]
  pushArm := fun _ _ _ _ => by rw [pushArm_eq]
  recordReturn := fun _ function _ => by cases function <;> rfl

/-! ## What one step tells -/

/-- On the way from one to another, the facts have told of the variables and parameters among some yields,
and of nothing else, that they are declared in a region. -/
structure Locates (before after : Facts) (region : Nat) (yields : List Yield) : Prop where
  graph : before.graph.Kept after.graph
  old : ∀ handle number : Nat, after.regionOf[handle]? = some number →
    before.regionOf[handle]? = some number ∨ number = region ∧
      ∃ yield ∈ yields, after.graph.IdAt handle yield.node.id
  kept : ∀ handle : Nat, before.regionOf[handle]?.isSome = true →
    after.regionOf[handle]?.isSome = true
  new : ∀ yield ∈ yields, yield.node.kind.isBinding = true →
    ∃ handle, after.graph.IdAt handle yield.node.id ∧ after.regionOf[handle]?.isSome = true

/-- Neither a variable nor a parameter is among the yields. -/
def Unbound (yields : List Yield) : Prop := ∀ yield ∈ yields, yield.node.kind.isBinding = false

namespace Locates

variable {before after : Facts} {region : Nat} {yields others : List Yield}

/-- Nothing is told. -/
theorem of_eq (graph : before.graph.Kept after.graph) (same : after.regionOf = before.regionOf)
    (unbound : Unbound yields) : Locates before after region yields := by
  refine ⟨graph, fun handle number found => .inl (same ▸ found), fun handle => by rw [same]; exact id, ?_⟩
  intro yield inside binding
  rw [unbound yield inside] at binding
  cases binding

theorem trans {middle : Facts} (first : Locates before middle region yields)
    (second : Locates middle after region others) :
    Locates before after region (yields ++ others) where
  graph := first.graph.trans second.graph
  old := by
    intro handle number found
    rcases second.old handle number found with known | ⟨here, yield, inside, there⟩
    · rcases first.old handle number known with known | ⟨here, yield, inside, there⟩
      · exact .inl known
      · exact .inr ⟨here, yield, List.mem_append_left _ inside, there.kept second.graph⟩
    · exact .inr ⟨here, yield, List.mem_append_right _ inside, there⟩
  kept := fun handle told => second.kept handle (first.kept handle told)
  new := by
    intro yield inside binding
    rcases List.mem_append.1 inside with here | there
    · obtain ⟨handle, stands, told⟩ := first.new yield here binding
      exact ⟨handle, stands.kept second.graph, second.kept handle told⟩
    · exact second.new yield there binding

/-- One variable or parameter is told. -/
theorem insert {handle : Nat} {yield : Yield} (graph : before.graph.Kept after.graph)
    (same : after.regionOf = before.regionOf.insert handle region)
    (stands : after.graph.IdAt handle yield.node.id) : Locates before after region [yield] where
  graph := graph
  old := by
    intro other number found
    rw [same, Std.HashMap.getElem?_insert] at found
    split at found
    · next here =>
      obtain rfl := beq_iff_eq.1 here
      exact .inr ⟨(Option.some.inj found).symm, yield, List.mem_singleton_self _, stands⟩
    · exact .inl found
  kept := by
    intro other told
    rw [same, Std.HashMap.getElem?_insert]
    split
    · rfl
    · exact told
  new := by
    intro other inside _
    obtain rfl := List.mem_singleton.1 inside
    exact ⟨handle, stands, by rw [same, Std.HashMap.getElem?_insert_self]; rfl⟩

end Locates

/-! ## Yields without variables and parameters -/

theorem Unbound.nil : Unbound [] := List.forall_mem_nil _

theorem Unbound.puts {cursor : Cursor} {node : Node} (other : node.kind.isBinding = false) :
    Unbound (home.puts cursor node) := by
  intro yield inside
  obtain rfl := List.mem_singleton.1 inside
  exact other

theorem Unbound.function {cursor : Cursor} {hint : Option Hint} {isMethod : Bool} :
    Unbound (Scheme.function file cursor home hint isMethod).yields := by
  refine .puts ?_
  rw [kind_functionNode]
  rfl

theorem Unbound.defines {cursor : Cursor} : Unbound (Scheme.defines file cursor home) := by
  unfold Scheme.defines
  split
  · exact .nil
  · exact .puts rfl

theorem unbound_statement {cursor : Cursor} (other : StatementForm.ofKind cursor.kind ≠ .classLike) :
    Unbound (Scheme.statement file cursor home).yields := by
  have opens : ∀ tasks, Unbound (Scheme.opens file cursor home tasks).yields := fun _ => .puts rfl
  unfold Scheme.statement
  cases form : StatementForm.ofKind cursor.kind with
  | declaration => exact opens _
  | expression =>
    simp only [Scheme.single]
    split
    · exact .nil
    · split
      · exact .nil
      · exact opens _
  | returns =>
    intro yield inside
    obtain rfl := List.mem_singleton.1 inside
    rfl
  | throws => exact opens _
  | conditional => exact opens _
  | forEach => exact opens _
  | loop => exact opens _
  | switch => exact opens _
  | guarded =>
    have handled : Unbound (Scheme.handled file cursor
        (home.below (statementNode file cursor))).yields := by
      unfold Scheme.handled
      split
      · exact .nil
      · exact .puts rfl
    intro yield inside
    rcases List.mem_append.1 inside with here | there
    · exact Unbound.puts rfl yield here
    · exact handled yield there
  | breaks => exact opens _
  | continues => exact opens _
  | exported =>
    simp only [Scheme.exported]
    split
    · exact .nil
    · exact opens _
    · exact .nil
  | function => exact .function
  | classLike => exact absurd form other
  | plain => exact opens _
  | _ => exact .nil

theorem unbound_expression {cursor : Cursor} {hint : Option Hint}
    (other : ExpressionForm.ofKind cursor.kind ≠ .classLike) :
    Unbound (Scheme.expression file cursor home hint).yields := by
  have assignment : ∀ augmented,
      Unbound (Scheme.assignment file cursor home augmented).yields := by
    intro augmented
    unfold Scheme.assignment
    split
    · exact .defines
    · exact .nil
  unfold Scheme.expression
  cases form : ExpressionForm.ofKind cursor.kind with
  | function => exact .function
  | method => exact .function
  | classLike => exact absurd form other
  | call => exact .puts (by rw [kind_callNode]; rfl)
  | assignment => exact assignment false
  | augmented => exact assignment true
  | update =>
    simp only [Scheme.update]
    split
    · exact .defines
    · exact .nil
  | _ => exact .nil

/-! ## Functions, classes and patterns -/

theorem extends_addFunction (facts : Facts) (file : SourceFile) (cursor : Cursor) (context : Context)
    (hint : Option Hint) (isMethod : Bool) :
    facts.Extends (facts.addFunction file cursor context hint isMethod).facts :=
  (extends_enterFunction facts file cursor context hint isMethod).trans
    (extends_functionBody _ file cursor _)

theorem regionOf_addFunction (facts : Facts) (cursor : Cursor) (context : Context)
    (hint : Option Hint) (isMethod : Bool) :
    (facts.addFunction file cursor context hint isMethod).facts.regionOf = facts.regionOf := by
  rw [steady_regionOf.addFunction, enterFunction_eq]
  rfl

section Members

variable {begun : Facts} {adding : Adding} {yields : List Yield} {own : List Look}
  {functions : List Entry}

/-- The members of a class tell of the fields among them. -/
theorem Gathers.locates_members (cursors : List Cursor)
    (gathers : Gathers file chart begun context home adding yields own functions)
    (within : ∀ cursor ∈ cursors, (Scheme.member file cursor home).puts file ⊆ chart) {node : Nat}
    (parent : context.parent = some node) (number : Nat) :
    Locates adding.facts (cursors.foldl (Adding.member file context number node) adding).facts
      context.region ((cursors.map fun cursor => Scheme.member file cursor home).flatMap
        Scheme.Member.yields) := by
  refine Gathers.relate_members (fun before after yields _ =>
      Locates before.facts after.facts context.region yields) (fun _ => .of_eq (.refl _) rfl .nil)
    (fun first second => first.trans second) (fun {adding} _ _ _ _ cursor hint => ?_)
    (fun {adding} _ _ _ gathers name value => ?_) cursors gathers within parent
  · exact .of_eq (extends_addFunction adding.facts file cursor context hint true).graph
      (regionOf_addFunction adding.facts cursor context hint true) .function
  · exact .insert (extends_place adding.facts (fieldNode file name) (some node)).graph rfl
      (handle_place gathers.on.charts.formed.wellFormed _ _)

end Members

/-- A class tells of its fields. -/
theorem locates_addClass (on : On file chart facts 0 facts context home) {cursor : Cursor}
    {hint : Option Hint} (within : (Scheme.classLike file cursor home hint).puts file ⊆ chart) :
    Locates facts (facts.addClass file cursor context hint).1 context.region
      (Scheme.classLike file cursor home hint).yields := by
  let node := classNode file cursor (givenName file cursor hint)
  have opening := on.openClass within
  have members := fun plain : cursor.kind ≠ "enum_declaration" => subset_of_members plain within
  have opened : Locates facts
      { (facts.place node context.parent).1 with
        classes := facts.classes.push { name := givenName file cursor hint } }
      context.region (home.puts cursor node) :=
    .of_eq (extends_place _ _ _).graph rfl (.puts (by rw [kind_classNode]; rfl))
  unfold addClass Scheme.classLike
  by_cases enumeration : cursor.kind = "enum_declaration"
  · simp only [if_pos enumeration]
    exact opened
  · simp only [if_neg enumeration]
    have start := opening.gathers (List.forall_mem_nil _)
    exact opened.trans (start.locates_members _ (members enumeration) rfl _)

/-- A pattern tells of the name that it binds. -/
theorem locates_bind (formed : facts.graph.WellFormed) (cursor : Cursor) (mode : BindMode) :
    Locates facts (facts.bind file cursor context mode).1 context.region
      (Scheme.pattern file cursor home mode.plain).yields := by
  unfold bind Scheme.pattern
  by_cases name : PatternForm.ofKind cursor.kind = .name
  · simp only [if_pos name]
    cases mode with
    | declare word site =>
      exact .insert (extends_place _ _ _).graph rfl (handle_place formed (variableNode file cursor word) _)
    | assign site => exact .of_eq (.refl _) rfl .nil
    | param position rest optional hasDefault =>
      exact .insert (extends_place _ _ _).graph rfl
        (handle_place formed (paramNode file cursor position rest optional hasDefault) _)
  · simp only [if_neg name]
    exact .of_eq (.refl _) rfl .nil

/-! ## Steps -/

section Steps

variable (on : On file chart facts 0 facts context home) {cursor : Cursor}
include on

theorem locates_statement (within : (Scheme.statement file cursor home).puts file ⊆ chart) :
    Locates facts (facts.statement file cursor context).1 context.region
      (Scheme.statement file cursor home).yields := by
  by_cases classLike : StatementForm.ofKind cursor.kind = .classLike
  · unfold Scheme.statement at within ⊢
    unfold statement
    rw [classLike] at within ⊢
    exact locates_addClass on within
  · refine .of_eq (plays_statement on within).extend.graph ?_ (unbound_statement classLike)
    by_cases function : StatementForm.ofKind cursor.kind = .function
    · unfold statement
      rw [function]
      exact regionOf_addFunction facts cursor context none false
    · exact steady_regionOf.statement file facts cursor context (by simp [function, classLike])

theorem locates_expression {hint : Option Hint}
    (within : (Scheme.expression file cursor home hint).puts file ⊆ chart) :
    Locates facts (facts.expression file cursor context hint).1 context.region
      (Scheme.expression file cursor home hint).yields := by
  by_cases classLike : ExpressionForm.ofKind cursor.kind = .classLike
  · unfold Scheme.expression at within ⊢
    unfold expression
    rw [classLike] at within ⊢
    exact locates_addClass on within
  refine .of_eq (plays_expression on within).extend.graph ?_ (unbound_expression classLike)
  cases form : ExpressionForm.ofKind cursor.kind with
  | function =>
    simp only [expression, form]
    exact regionOf_addFunction facts cursor context hint false
  | method =>
    simp only [expression, form]
    exact regionOf_addFunction facts cursor context none true
  | classLike => exact absurd form classLike
  | call =>
    simp only [expression, form]
    rfl
  | reference =>
    simp only [expression, form]
    exact steady_regionOf.addReference file facts cursor context
  | _ =>
    exact steady_regionOf.toStill.expression file facts cursor context hint (by simp [form])

end Steps

variable {task : Task} {rest : List Task} {sight : Sight} {ahead : List Sight}

/-- A step tells of the variables and parameters that its scheme yields, and of nothing else. -/
theorem Charted.locates (charted : Charted file facts (task :: rest) (sight :: ahead)) :
    Locates facts (facts.step file task).1 task.context.region (sight.look.scheme file).yields := by
  have within := charted.puts_subset
  have grown := charted.plays.extend.graph
  have on := charted.on
  rw [← charted.head.same] at within ⊢
  generalize sight.look.home = home at within on
  cases task with
  | statement cursor context => exact locates_statement on within
  | loopHeader cursor context =>
    exact .of_eq grown (steady_regionOf.step file facts id) (.puts rfl)
  | bind cursor context mode => exact locates_bind charted.charts.formed.wellFormed cursor mode
  | expression cursor context hint => exact locates_expression on within

/-! ## Runs -/

/-- Of each variable and parameter that the walk has come by it is told in which region it is declared, and
this region belongs to the function in which the yields have it. -/
structure Located (file : SourceFile) (facts : Facts) (ahead : List Sight) : Prop where
  owned : ∀ handle number : Nat, facts.regionOf[handle]? = some number →
    ∃ yield ∈ file.yields, facts.graph.IdAt handle yield.node.id ∧
      ∃ owner, facts.owners[number]? = some owner ∧
        Option.Rel facts.graph.IdAt owner yield.home.function
  told : ∀ yield ∈ file.yields, yield.node.kind.isBinding = true →
    (∃ handle, facts.graph.IdAt handle yield.node.id ∧ facts.regionOf[handle]?.isSome = true) ∨
      ∃ sight ∈ ahead, yield ∈ sight.look.yields file

theorem located_start (file : SourceFile) : Located file {} (sightsIn none file.looks) := by
  refine ⟨fun handle number found => ?_, fun yield inside _ => .inr ?_⟩
  · rw [show ({} : Facts).regionOf = {} from rfl, Std.HashMap.getElem?_empty] at found
    cases found
  · obtain ⟨look, begun, there⟩ := SourceFile.mem_yields.1 inside
    exact ⟨_, List.mem_map_of_mem begun, there⟩

/-- The owner of a region stays. -/
theorem owners_later {before after : Facts} (extend : before.Extends after) {number : Nat}
    {owner : Option Nat} (found : before.owners[number]? = some owner) :
    after.owners[number]? = some owner := by
  obtain ⟨more, whole⟩ := extend.signatures
  rw [owners, ← whole, List.map_append, ← List.cons_append]
  rw [owners] at found
  rw [List.getElem?_append_left (List.getElem?_eq_some_iff.1 found).1, found]

theorem Located.step (located : Located file facts (sight :: ahead))
    (charted : Charted file facts (task :: rest) (sight :: ahead)) :
    Located file (facts.step file task).1
      ((sight.look.scheme file).sights file sight.function facts.functions.size ++ ahead) := by
  have locates := charted.locates
  have extend := charted.plays.extend
  refine ⟨fun handle number found => ?owned, fun yield inside binding => ?told⟩
  case owned =>
    rcases locates.old handle number found with known | ⟨rfl, yield, here, there⟩
    · obtain ⟨yield, inside, there, owner, owned, around⟩ := located.owned handle number known
      exact ⟨yield, inside, there.kept locates.graph, owner, owners_later extend owned,
        rel_imp (fun _ _ at_ => at_.kept locates.graph) around⟩
    · obtain ⟨owner, owned, around⟩ := charted.head.context.owner
      have inside : yield ∈ file.yields := charted.puts_subset (List.mem_append_left _ here)
      refine ⟨yield, inside, there, owner, owners_later extend owned, ?_⟩
      rw [(sight.look.fits file).around yield here]
      exact rel_imp (fun _ _ at_ => at_.kept locates.graph) around
  case told =>
    rcases located.told yield inside binding with ⟨handle, stands, told⟩ | ⟨other, listed, there⟩
    · exact .inl ⟨handle, stands.kept locates.graph, locates.kept handle told⟩
    · rcases List.mem_cons.1 listed with rfl | later
      · rcases Look.mem_yields.1 there with here | ⟨next, follows, deeper⟩
        · rcases List.mem_append.1 here with here | returned
          · exact .inl (locates.new yield here binding)
          · obtain ⟨entry, -, there⟩ := List.mem_flatMap.1 returned
            obtain ⟨body, rfl⟩ := Entry.of_mem_yields there
            cases binding
        · obtain ⟨found, seen, rfl⟩ := sight_of_follows other.function facts.functions.size follows
          exact .inr ⟨found, List.mem_append_left _ seen, deeper⟩
      · exact .inr ⟨other, List.mem_append_right _ later, there⟩

theorem Visits.located {pending : List Task} (visits : Visits file facts pending) :
    ∃ ahead, Charted file facts pending ahead ∧ Located file facts ahead :=
  visits.follow (P := fun facts _ ahead => Located file facts ahead) (located_start file)
    fun _ charted located => located.step charted

/-- In the end nothing is ahead. -/
theorem located_of (file : SourceFile) : Located file (Facts.of file) [] := by
  obtain ⟨ahead, charted, located⟩ := (Visits.last file).located
  obtain rfl := charted.done
  exact ⟨located.owned, located.told⟩

end Facts

end CodeGraph

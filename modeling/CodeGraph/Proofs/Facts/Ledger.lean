import CodeGraph.Proofs.Facts.Book
import CodeGraph.Proofs.Facts.Followed

/-!
# What the walk notes of its visits

At every moment the tables of the walk tell of the visits that it made what can be read off the tree
(`Facts.Tabled`): the functions that were entered with their parameters, the classes with their methods, the
calls, and what the scopes declare. One step makes the next visit of the course and notes it
(`Facts.Tabled.step`), so in the end the tables tell of the whole course.
-/

namespace CodeGraph

open Facts

/-! ## Tasks and looks -/

theorem Task.function?_look (home : Home) (task : Task) :
    (task.look home).function? = task.function?.map fun made => (made.1, made.2.2) := by
  cases task with
  | statement cursor context =>
    simp only [Task.look, Look.function?, Task.function?]
    split <;> rfl
  | loopHeader cursor context => rfl
  | bind cursor context mode => rfl
  | expression cursor context hint =>
    simp only [Task.look, Look.function?, Task.function?]
    split <;> rfl

theorem Task.call?_look (home : Home) (task : Task) :
    (task.look home).call? = task.call?.map Prod.fst := by
  cases task with
  | statement cursor context => rfl
  | loopHeader cursor context => rfl
  | bind cursor context mode => rfl
  | expression cursor context hint =>
    simp only [Task.look, Look.call?, Task.call?]
    split <;> rfl

namespace Facts

variable {file : SourceFile} {facts : Facts} {task : Task} {rest : List Task} {sight : Sight}
  {ahead : List Sight}

namespace Charted

variable (charted : Charted file facts (task :: rest) (sight :: ahead))

include charted

/-- The functions that a step enters are those of the scheme. -/
theorem functions_step {entries : List Entry}
    (tells : List.Forall₂ (Signature.Tells facts.graph) facts.signatures entries) :
    List.Forall₂ (Signature.Tells (facts.step file task).1.graph) (facts.step file task).1.signatures
      (entries ++ (sight.look.scheme file).functions) := by
  have plays := charted.plays
  have count : entries.length = facts.functions.size := by
    rw [← tells.length_eq, signatures, List.length_map, Array.length_toList]
  refine forall₂_iff_getElem?.2 fun place => ?_
  by_cases old : place < facts.functions.size
  · obtain ⟨signature, found⟩ : ∃ signature, facts.signatures[place]? = some signature :=
      ⟨_, List.getElem?_eq_getElem (by rwa [tells.length_eq, count])⟩
    obtain ⟨entry, listed, told⟩ := rel_some_left (forall₂_iff_getElem?.1 tells place) found
    rw [plays.extend.signature found, List.getElem?_append_left (count ▸ old), listed]
    exact .some { told with node := told.node.kept plays.extend.graph }
  · obtain ⟨more, rfl⟩ := Nat.exists_eq_add_of_le (Nat.le_of_not_lt old)
    rw [List.getElem?_append_right (count ▸ Nat.le_add_right _ _), count, Nat.add_sub_cancel_left]
    cases entered : (sight.look.scheme file).functions[more]? with
    | some entry =>
      obtain ⟨signature, found, told⟩ := (plays.entered more entry entered).tells
      rw [found]
      exact .some told
    | none =>
      have beyond : (facts.step file task).1.signatures[facts.functions.size + more]? = none := by
        rw [List.getElem?_eq_none_iff] at entered ⊢
        rw [signatures, List.length_map, Array.length_toList, plays.size]
        exact Nat.add_le_add_left entered _
      rw [beyond]
      exact .none

end Charted

/-! ## Classes -/

end Facts

/-- The fact about a class tells of a class that was visited. -/
structure ClassFact.Tells (graph : Graph) (owner : ClassFact) (group : Group) : Prop where
  name : owner.name = group.name
  methods : List.Forall₂ (fun node (entry : Entry) => graph.IdAt node entry.node.id) owner.methods.toList
    group.methods

theorem ClassFact.Tells.kept {before after : Graph} {owner : ClassFact} {group : Group}
    (tells : owner.Tells before group) (kept : before.Kept after) : owner.Tells after group :=
  { tells with methods := tells.methods.imp fun _ _ there => there.kept kept }

namespace Facts

/-- The nodes of the functions that were entered. -/
theorem map_fst_slots (facts : Facts) :
    facts.slots.map Prod.fst = facts.signatures.map Signature.node := by
  rw [slots, signatures, List.map_map, List.map_map]
  rfl

namespace Charted

variable (visits : Visits file facts (task :: rest))
  (charted : Charted file facts (task :: rest) (sight :: ahead))

include charted

/-- A step at no class leaves the classes. -/
theorem classes_of_none (none : sight.look.class? = none) :
    (facts.step file task).1.classes = facts.classes := by
  by_cases enters : task.Enters
  swap
  · exact steady_classes.step file facts enters
  rw [← charted.head.same] at none
  cases task with
  | statement cursor context =>
    simp only [Task.Enters, List.mem_cons, List.not_mem_nil, or_false] at enters
    rcases enters with form | form
    · show (facts.statement file cursor context).1.classes = _
      simp only [Facts.statement, form, classes_addFunction]
    · simp [Task.look, Look.class?, form] at none
  | loopHeader cursor context => exact enters.elim
  | bind cursor context mode =>
    show (facts.bind file cursor context mode).1.classes = _
    unfold bind
    split
    · cases mode <;> rfl
    · rfl
  | expression cursor context hint =>
    simp only [Task.Enters, List.mem_cons, List.not_mem_nil, or_false] at enters
    show (facts.expression file cursor context hint).1.classes = _
    rcases enters with form | form | form | form
    · simp only [Facts.expression, form, classes_addFunction]
    · simp only [Facts.expression, form, classes_addFunction]
    · simp [Task.look, Look.class?, form] at none
    · simp only [Facts.expression, form]
      rfl

include visits in
/-- A step at a class adds it, with the functions that are entered. -/
theorem classes_of_some {cursor : Cursor} {hint : Option Hint}
    (found : sight.look.class? = some (cursor, hint)) :
    ∃ nodes, facts.Goes (facts.step file task).1 task.context.scope nodes ∧
      (facts.step file task).1.classes =
        facts.classes.push { name := givenName file cursor hint, methods := nodes.toArray } := by
  have there := scope_lt visits
  rw [← charted.head.same] at found
  cases task with
  | statement other context =>
    simp only [Task.look, Look.class?, Option.ite_none_right_eq_some, Option.some.injEq,
      Prod.mk.injEq] at found
    obtain ⟨form, rfl, rfl⟩ := found
    obtain ⟨nodes, goes, pushed, -⟩ := rallies_addClass facts file other there none
    refine ⟨nodes, ?_⟩
    simp only [Facts.step, Facts.statement, form]
    exact ⟨goes, pushed⟩
  | loopHeader other context => cases found
  | bind other context mode => cases found
  | expression other context given =>
    simp only [Task.look, Look.class?, Option.ite_none_right_eq_some, Option.some.injEq,
      Prod.mk.injEq] at found
    obtain ⟨form, rfl, rfl⟩ := found
    obtain ⟨nodes, goes, pushed, -⟩ := rallies_addClass facts file other there given
    refine ⟨nodes, ?_⟩
    simp only [Facts.step, Facts.expression, form]
    exact ⟨goes, pushed⟩

include visits in
/-- The classes of a step are those of its look. -/
theorem classes_step {entries : List Entry} {groups : List Group}
    (entered : List.Forall₂ (Signature.Tells facts.graph) facts.signatures entries)
    (tells : List.Forall₂ (ClassFact.Tells facts.graph) facts.classes.toList groups) :
    List.Forall₂ (ClassFact.Tells (facts.step file task).1.graph)
      (facts.step file task).1.classes.toList (groups ++ (sight.look.group? file).toList) := by
  have kept := tells.imp fun _ _ told => told.kept charted.plays.extend.graph
  unfold Look.group?
  cases found : sight.look.class? with
  | none =>
    rw [charted.classes_of_none found, Option.map_none, Option.toList_none, List.append_nil]
    exact kept
  | some made =>
    obtain ⟨nodes, goes, pushed⟩ := charted.classes_of_some visits found
    rw [pushed, Array.toList_push]
    refine List.rel_append kept (.cons ⟨rfl, ?_⟩ .nil)
    -- The nodes that the class lists are those of the functions that were entered last.
    have told : List.Forall₂ (fun node (entry : Entry) =>
        (facts.step file task).1.graph.IdAt node entry.node.id)
        ((facts.step file task).1.signatures.map Signature.node)
        (entries ++ (sight.look.scheme file).functions) :=
      List.forall₂_map_left_iff.2 ((charted.functions_step entered).imp fun _ _ told => told.node)
    rw [← map_fst_slots, goes.slots, List.map_append, map_fst_slots, List.map_map] at told
    have last := List.forall₂_drop entries.length told
    rw [List.drop_left, ← entered.length_eq, List.drop_left' (List.length_map _)] at last
    simpa using last

end Charted

/-! ## Parameters -/

theorem slot_declareParam (facts : Facts) (cursor : Cursor) (context : Context) (position : Nat)
    (rest optional hasDefault : Bool) (number : Nat) :
    (facts.declareParam file cursor context position rest optional hasDefault).functions[number]?.map
        (fun fact => (fact.node, fact.params)) =
      (facts.functions[number]?.map fun fact => (fact.node, fact.params)).map fun slot =>
        if context.function = some number then
          (slot.1, slot.2.push (position,
            (facts.place (paramNode file cursor position rest optional hasDefault) context.parent).2))
        else slot := by
  unfold declareParam
  cases around : context.function with
  | none =>
    cases held : facts.functions[number]? with
    | none => simpa [place] using held
    | some fact => simp [place, held]
  | some other =>
    cases held : facts.functions[number]? with
    | none => simp [place, Array.getElem?_modify, held]
    | some fact =>
      by_cases same : other = number <;> simp [place, Array.getElem?_modify, held, same, paramNode]

namespace Charted

variable (visits : Visits file facts (task :: rest))
  (charted : Charted file facts (task :: rest) (sight :: ahead))

include charted

include visits in
/-- A step that binds no parameter leaves what is noted of parameters, and notes nothing yet of the functions
that it enters. -/
theorem slots_of_none (none : sight.look.param? file = none) :
    ∃ nodes : List Nat,
      (facts.step file task).1.slots = facts.slots ++ nodes.map fun node => (node, #[]) := by
  have there := scope_lt visits
  have same : ∀ {after : Facts}, after.slots = facts.slots →
      ∃ nodes : List Nat, after.slots = facts.slots ++ nodes.map fun node => (node, #[]) :=
    fun same => ⟨[], same.trans (List.append_nil _).symm⟩
  rw [← charted.head.same] at none
  cases task with
  | statement cursor context =>
    by_cases opening : StatementForm.ofKind cursor.kind ∈ StatementForm.opening
    · refine same (steady_slots.statement file facts cursor context fun enters => ?_)
      simp only [List.mem_cons, List.not_mem_nil, or_false] at enters
      rcases enters with form | form <;> exact absurd (form ▸ opening) (by decide)
    · obtain ⟨nodes, goes⟩ := goes_statement facts file cursor context there opening
      exact ⟨nodes, goes.slots⟩
  | loopHeader cursor context => exact same (steady_slots.addLoopHeader file facts cursor context)
  | bind cursor context mode =>
    refine same ?_
    show (facts.bind file cursor context mode).1.slots = _
    unfold bind
    split
    · next form =>
      cases mode with
      | declare word site => rfl
      | assign site => rfl
      | param position rest optional hasDefault =>
        simp [Task.look, BindMode.plain, Look.param?, form] at none
    · rfl
  | expression cursor context hint =>
    obtain ⟨nodes, goes⟩ := goes_expression facts file cursor context there hint
    exact ⟨nodes, goes.slots⟩

/-- A step that binds a parameter notes it with the function around. -/
theorem slots_of_some (sound : Sound file facts) {position : Nat} {id : String}
    (found : sight.look.param? file = some (position, id)) :
    ∃ node, (facts.step file task).1.graph.IdAt node id ∧
      ∀ number, (facts.step file task).1.slots[number]? = facts.slots[number]?.map fun slot =>
        if task.context.function = some number then (slot.1, slot.2.push (position, node)) else slot := by
  rw [← charted.head.same] at found
  cases task with
  | statement cursor context => cases found
  | loopHeader cursor context => cases found
  | expression cursor context hint => cases found
  | bind cursor context mode =>
    cases mode with
    | declare word site => cases found
    | assign site => cases found
    | param position' rest optional hasDefault =>
      simp only [Task.look, BindMode.plain, Look.param?, Option.ite_none_right_eq_some,
        Option.some.injEq, Prod.mk.injEq] at found
      obtain ⟨form, rfl, rfl⟩ := found
      have stepped : (facts.step file (.bind cursor context (.param position' rest optional hasDefault))).1 =
          facts.declareParam file cursor context position' rest optional hasDefault := by
        show (facts.bind file cursor context _).1 = _
        rw [bind, if_pos form]
        rfl
      obtain ⟨held, listed, same⟩ := handle_place sound.formed
        (paramNode file cursor position' rest optional hasDefault) context.parent
      refine ⟨(facts.place (paramNode file cursor position' rest optional hasDefault) context.parent).2,
        ?_, fun number => ?_⟩
      · rw [stepped]
        exact ⟨held, listed, same⟩
      · rw [stepped, slots, slots, List.getElem?_map, List.getElem?_map, Array.getElem?_toList,
          Array.getElem?_toList]
        exact slot_declareParam facts cursor context position' rest optional hasDefault number

end Charted

/-! ## Calls -/

end Facts

/-- The fact about a call tells of a call that was visited. The function that it names as the caller holds the
call, with no other function between them. -/
structure CallFact.Tells (file : SourceFile) (graph : Graph) (chains : List (List Enclosure))
    (call : CallFact) (made : Visit × Cursor) : Prop where
  written : file.HasCall made.2
  node : graph.IdAt call.node (file.callId made.2)
  caller : Option.Rel graph.IdAt call.caller made.1.look.home.function
  around : ∀ caller, call.caller = some caller → graph.Holds caller call.node
  scope : chains[call.scope]? = some made.1.scopes
  callee : call.callee = (callSyntax file made.2).callee
  argumentCount : call.argumentCount = (callSyntax file made.2).arguments.length
  consumed : call.consumer.isSome = (callSyntax file made.2).consumed

theorem CallFact.Tells.kept {file : SourceFile} {before after : Graph} {chains : List (List Enclosure)}
    {call : CallFact} {made : Visit × Cursor} (tells : call.Tells file before chains made)
    (kept : before.Kept after) (more : List (List Enclosure)) :
    call.Tells file after (chains ++ more) made :=
  { tells with
    node := tells.node.kept kept
    caller := rel_imp (fun _ _ there => there.kept kept) tells.caller
    around := fun caller given => (tells.around caller given).kept kept
    scope := by
      rw [List.getElem?_append_left (List.getElem?_eq_some_iff.1 tells.scope).1, tells.scope] }

namespace Facts

/-- The caller that is recorded with a call is the function at the home of the call. -/
theorem rel_caller {chart : List Yield} {context : Context} {home : Home}
    (at_ : context.At chart facts home) : Option.Rel facts.graph.IdAt
      ((context.function.bind fun number => facts.functions[number]?).map FunctionFact.node)
      home.function := by
  cases given : context.function with
  | none =>
    rw [rel_none_left at_.function given]
    exact .none
  | some number =>
    obtain ⟨id, home, about⟩ := rel_some_left at_.function given
    rw [home, Option.bind_some, Array.getElem?_eq_getElem about.lt]
    exact .some (about.node (Array.getElem?_eq_getElem about.lt))

namespace Charted

variable (visits : Visits file facts (task :: rest))
  (charted : Charted file facts (task :: rest) (sight :: ahead)) {done : List Visit} {visit : Visit}

include visits charted

/-- The calls of a step are those of its visit. -/
theorem calls_step (look : visit.look = sight.look) (meets : task.Meets file done visit)
    (tells : List.Forall₂ (CallFact.Tells file facts.graph (Visit.chainsOf file done))
      facts.calls.toList (Visit.callsOf done)) :
    List.Forall₂ (CallFact.Tells file (facts.step file task).1.graph
        (Visit.chainsOf file (done ++ [visit])))
      (facts.step file task).1.calls.toList (Visit.callsOf (done ++ [visit])) := by
  have kept := tells.imp fun _ _ told =>
    told.kept (charted.plays.extend.graph) (visit.opened file)
  rw [← Visit.chainsOf_concat] at kept
  have written : visit.look.call? = task.call?.map Prod.fst := by
    rw [look, ← charted.head.same, Task.call?_look]
  rw [Visit.callsOf, List.filterMap_append, ← Visit.callsOf, List.filterMap_cons, written]
  cases comes : task.call? with
  | none =>
    rw [Facts.calls_step comes]
    simpa using kept
  | some made =>
    obtain ⟨cursor, context⟩ := made
    obtain ⟨stepped, rfl, rfl, expression, form⟩ := step_call file facts comes
    obtain ⟨sound, ready⟩ := visits.sound
    obtain ⟨known, has⟩ := ready task List.mem_cons_self
    have extend := charted.plays.extend.graph
    obtain ⟨name, id, kind, -⟩ := sameNode_callNode file task.cursor (callSyntax file task.cursor)
    rw [stepped] at kept extend ⊢
    show List.Forall₂ _ (facts.calls.push _).toList _
    rw [Array.toList_push]
    refine List.rel_append kept
      (.cons ⟨⟨has, form⟩, ?node, ?caller, ?around, ?scope, rfl, rfl, ?consumed⟩ .nil)
    case node =>
      obtain ⟨held, found, same⟩ := handle_place sound.formed
        (callNode file task.cursor (callSyntax file task.cursor)) task.context.parent
      exact ⟨held, found, same.trans id⟩
    case caller =>
      have caller := rel_caller charted.head.context
      rw [← look] at caller
      exact rel_imp (fun _ _ there => Graph.IdAt.kept there extend) caller
    case around =>
      intro caller given
      obtain ⟨fact, found, rfl⟩ := Option.map_eq_some_iff.1 given
      obtain ⟨place, inside, held⟩ := Option.bind_eq_some_iff.1 found
      obtain ⟨signature, listed, holds⟩ := sound.around_place known.context .call
        (draws_callNode file task.cursor (callSyntax file task.cursor)) kind (by decide) place inside
      rw [signatures, List.getElem?_map, Array.getElem?_toList, held] at listed
      obtain rfl := Option.some.inj listed
      exact holds
    case scope => exact (meets.later visit).scope
    case consumed =>
      cases (callSyntax file task.cursor).consumed with
      | true => exact known.sited expression
      | false => rfl

end Charted

/-! ## Declarations -/

/-- What is declared does not depend on how scopes are named. -/
theorem declaredIn?_iff {Place Other : Type} (file : SourceFile) (cursor : Cursor) (hint : Option Hint)
    (name : String) {around inside place : Place} {around' inside' place' : Other}
    (level : around = place ↔ around' = place') (deep : inside = place ↔ inside' = place') :
    declaredIn? file cursor around inside hint = some (place, name) ↔
      declaredIn? file cursor around' inside' hint = some (place', name) := by
  unfold declaredIn?
  split
  · split
    · simp [level]
    · simp [deep]
  · simp [level]
  · simp

theorem place_of_declaredIn? {Place : Type} {cursor : Cursor} {hint : Option Hint}
    {around inside place : Place} {name : String}
    (declared : declaredIn? file cursor around inside hint = some (place, name)) :
    place = around ∨ place = inside := by
  unfold declaredIn? at declared
  split at declared
  · have same := (Prod.mk.inj (Option.some.inj declared)).1
    split at same
    · exact .inl same.symm
    · exact .inr same.symm
  · simp only [Option.ite_none_right_eq_some, Option.some.injEq, Prod.mk.injEq] at declared
    exact .inl declared.2.1.symm
  · cases declared

/-- A function that is no method opens one scope. -/
theorem Look.scopeCount_of_function? {look : Look} {made : Cursor × Option Hint}
    (found : look.function? = some made) : look.scopeCount file = 1 := by
  cases look with
  | statement cursor home =>
    simp only [Look.function?, Option.ite_none_right_eq_some] at found
    rw [Look.scopeCount, Look.scopeCountStatement, found.1]
    simp only [Scheme.statement, found.1]
    rfl
  | loopHeader cursor home => cases found
  | bind cursor home mode => cases found
  | expression cursor home hint =>
    simp only [Look.function?, Option.ite_none_right_eq_some] at found
    simp only [Look.scopeCount, Look.scheme, Scheme.expression, found.1]
    rfl

/-- What is looked up in a list of one entry at most is there if the entry has the key. -/
theorem rel_lookup {α β κ : Type} [BEq κ] [LawfulBEq κ] {R : α → β → Prop} {a : α} {b : β}
    (related : R a b) {condition : Prop} [Decidable condition] {entry : Option κ} {key : κ}
    (same : condition ↔ entry = some key) :
    Option.Rel R (if condition then some a else none) ((entry.map fun own => (own, b)).toList.lookup key) := by
  cases entry with
  | none =>
    rw [if_neg fun holds => nomatch same.1 holds]
    exact .none
  | some own =>
    by_cases holds : condition
    · obtain rfl := Option.some.inj (same.1 holds)
      rw [if_pos holds, Option.map_some, Option.toList_some, List.lookup_cons_self]
      exact .some related
    · have differ : (key == own) = false := beq_eq_false_iff_ne.2 fun equal => holds (same.2 (by rw [equal]))
      rw [if_neg holds, Option.map_some, Option.toList_some, List.lookup_cons, differ]
      exact .none

/-! ## What is noted -/

/-- The tables of the walk tell of the visits that it has made what the tree says of them. -/
structure Tabled (file : SourceFile) (facts : Facts) (done : List Visit) : Prop where
  chained : Chained facts.parents (Visit.chainsOf file done)
  functions : List.Forall₂ (Signature.Tells facts.graph) facts.signatures
    ((Visit.functionsOf file done).map Prod.snd)
  params : ∀ (number : Nat) (function : Enclosure) (slot : Nat × Array (Nat × Nat)),
    (Visit.enclosuresOf file done)[number]? = some function → facts.slots[number]? = some slot →
      List.Forall₂ (fun held (seen : Nat × String) => held.1 = seen.1 ∧ facts.graph.IdAt held.2 seen.2)
        slot.2.toList (Visit.paramsOf file done function)
  classes : List.Forall₂ (ClassFact.Tells facts.graph) facts.classes.toList (Visit.classesOf file done)
  calls : List.Forall₂ (CallFact.Tells file facts.graph (Visit.chainsOf file done)) facts.calls.toList
    (Visit.callsOf done)
  declared : ∀ (number : Nat) (head : Enclosure) (tail : List Enclosure) (name : String),
    (Visit.chainsOf file done)[number]? = some (head :: tail) →
      Option.Rel facts.graph.IdAt (facts.scopes.functionIn? number name)
        ((Visit.declarationsOf file done).lookup (head, name))
  /-- What is declared is declared in scopes that are there. -/
  scopes : ∀ item ∈ Visit.declarationsOf file done, ∃ tail,
    item.1.1 :: tail ∈ Visit.chainsOf file done
  /-- The functions around visits have been entered. -/
  inside : ∀ visit ∈ done, ∀ function, visit.function = some function →
    function ∈ Visit.enclosuresOf file done

namespace Tabled

theorem start (file : SourceFile) : Tabled file {} [] := by
  refine ⟨⟨rfl, fun number parent found => ?_⟩, .nil, ?_, .nil, .nil, ?_, ?_, ?_⟩
  · have whole : ({} : Facts).parents = [none] := rfl
    rw [whole] at found
    cases number with
    | zero => exact ⟨.module, [], rfl, .inl ⟨(Option.some.inj found).symm, rfl⟩⟩
    | succ number => cases found
  · intro number function slot found
    cases found
  · intro number head tail name found
    have none : ({} : Facts).scopes.functionIn? number name = none := Scopes.functionIn?_initial number name
    rw [none]
    exact .none
  · exact List.forall_mem_nil _
  · exact List.forall_mem_nil _

variable {done : List Visit} {visit : Visit}

/-- The tables have one entry for each scope and each function. -/
theorem sizes (tabled : Tabled file facts done) :
    (Visit.chainsOf file done).length = facts.scopes.list.size ∧
      (Visit.enclosuresOf file done).length = facts.functions.size := by
  have entered := tabled.functions.length_eq
  rw [signatures, List.length_map, Array.length_toList, List.length_map] at entered
  exact ⟨tabled.chained.length.trans (length_parents facts), by
    rw [Visit.enclosuresOf, List.length_map, entered]⟩

/-- No visit so far was inside a function that has not been entered. -/
theorem paramsOf_of_fresh (tabled : Tabled file facts done) {function : Enclosure}
    (fresh : function ∉ Visit.enclosuresOf file done) : Visit.paramsOf file done function = [] :=
  List.filterMap_eq_nil_iff.2 fun other listed => if_neg fun around =>
    fresh (tabled.inside other listed function around)

section Step

variable (tabled : Tabled file facts done) (visits : Visits file facts (task :: rest))
  (charted : Charted file facts (task :: rest) (sight :: ahead)) (look : visit.look = sight.look)
  (meets : task.Meets file done visit)

include tabled visits charted look meets

/-- The parameters that are noted are those that were bound. -/
theorem params_step (apart : (Visit.enclosuresOf file (done ++ [visit])).Nodup) {number : Nat}
    {function : Enclosure} {slot : Nat × Array (Nat × Nat)}
    (found : (Visit.enclosuresOf file (done ++ [visit]))[number]? = some function)
    (held : (facts.step file task).1.slots[number]? = some slot) :
    List.Forall₂ (fun held (seen : Nat × String) =>
        held.1 = seen.1 ∧ (facts.step file task).1.graph.IdAt held.2 seen.2)
      slot.2.toList (Visit.paramsOf file (done ++ [visit]) function) := by
  have extend := charted.plays.extend.graph
  have before : ∀ {slot : Nat × Array (Nat × Nat)}, number < facts.slots.length →
      facts.slots[number]? = some slot →
        List.Forall₂ (fun held (seen : Nat × String) =>
            held.1 = seen.1 ∧ (facts.step file task).1.graph.IdAt held.2 seen.2)
          slot.2.toList (Visit.paramsOf file done function) := by
    intro slot less held
    rw [length_slots, ← tabled.sizes.2] at less
    rw [Visit.enclosuresOf_concat, List.getElem?_append_left less] at found
    exact (tabled.params number function slot found held).imp
      fun _ _ related => related.imp_right fun there => there.kept extend
  rw [Visit.paramsOf, List.filterMap_append, ← Visit.paramsOf, List.filterMap_cons, Visit.paramOf?, look]
  cases bound : sight.look.param? file with
  | none =>
    rw [ite_self, List.filterMap_nil, List.append_nil]
    obtain ⟨nodes, slots⟩ := charted.slots_of_none visits bound
    rw [slots] at held
    by_cases old : number < facts.slots.length
    · rw [List.getElem?_append_left old] at held
      exact before old held
    · have fresh : function ∉ Visit.enclosuresOf file done := fun listed => by
        obtain ⟨place, there⟩ := List.getElem?_of_mem listed
        have one := (List.getElem?_inj (List.getElem?_eq_some_iff.1 found).1 apart).1
          (found.trans (Visit.enclosuresOf_later visit there).symm)
        rw [one, length_slots, ← tabled.sizes.2] at old
        exact old (List.getElem?_eq_some_iff.1 there).1
      rw [List.getElem?_append_right (Nat.le_of_not_lt old), List.getElem?_map] at held
      obtain ⟨node, -, rfl⟩ := Option.map_eq_some_iff.1 held
      rw [tabled.paramsOf_of_fresh fresh]
      exact .nil
  | some param =>
    obtain ⟨position, id⟩ := param
    obtain ⟨node, there, slots⟩ := charted.slots_of_some visits.sound.1 bound
    rw [slots] at held
    obtain ⟨slot, known, rfl⟩ := Option.map_eq_some_iff.1 held
    have less := (List.getElem?_eq_some_iff.1 known).1
    have same := (meets.later visit).function_iff apart found
    by_cases around : task.context.function = some number
    · rw [if_pos around, if_pos (same.1 around), Array.toList_push]
      exact List.rel_append (before less known) (.cons ⟨rfl, there⟩ .nil)
    · rw [if_neg around, if_neg (mt same.2 around)]
      simpa using before less known

omit visits look meets in
/-- What was declared before the step is declared as before. A scope that is new declares nothing of it. -/
theorem declared_before (apart : ((Visit.chainsOf file (done ++ [visit])).map List.head?).Nodup)
    {number : Nat} {head : Enclosure} {tail : List Enclosure} (name : String)
    (found : (Visit.chainsOf file (done ++ [visit]))[number]? = some (head :: tail)) :
    Option.Rel (facts.step file task).1.graph.IdAt (facts.scopes.functionIn? number name)
      ((Visit.declarationsOf file done).lookup (head, name)) := by
  by_cases there : number < (Visit.chainsOf file done).length
  · rw [Visit.chainsOf_concat, List.getElem?_append_left there] at found
    exact rel_imp (fun _ _ there => there.kept charted.plays.extend.graph)
      (tabled.declared number head tail name found)
  · have none : facts.scopes.functionIn? number name = none := by
      rw [tabled.sizes.1] at there
      rw [Scopes.functionIn?, Array.getElem?_eq_none (Nat.le_of_not_lt there)]
      rfl
    have fresh : (Visit.declarationsOf file done).lookup (head, name) = Option.none := by
      refine List.lookup_eq_none_iff.2 fun item listed => bne_iff_ne.2 fun same => there ?_
      obtain ⟨outer, inside⟩ := tabled.scopes item listed
      obtain ⟨other, held⟩ := List.getElem?_of_mem inside
      have one := Visit.chain_unique apart found (same ▸ Visit.chainsOf_later visit held)
      exact one ▸ (List.getElem?_eq_some_iff.1 held).1
    rw [none, fresh]
    exact .none

omit visits charted look in
/-- A function that is declared is declared in the scope of the task or in the one that the step opens, by the
tables and by the tree. -/
theorem declares_iff (apart : ((Visit.chainsOf file (done ++ [visit])).map List.head?).Nodup)
    {cursor : Cursor} {hint : Option Hint} (comes : visit.look.function? = some (cursor, hint))
    {number : Nat} {head : Enclosure} {tail : List Enclosure} (name : String)
    (found : (Visit.chainsOf file (done ++ [visit]))[number]? = some (head :: tail)) :
    ∃ declared, visit.declares? file = declared.map (fun entry =>
        (entry, (file.nodeOf cursor .func none).id)) ∧
      (declaredIn? file cursor task.context.scope facts.scopes.list.size hint = some (number, name) ↔
        declared = some (head, name)) := by
  have around := (meets.later visit).scope
  have opened : (Visit.chainsOf file (done ++ [visit]))[facts.scopes.list.size]? =
      some (⟨visit.way, 0⟩ :: visit.scopes) := by
    have one : 0 < visit.look.scopeCount file := by
      rw [Look.scopeCount_of_function? comes]
      exact Nat.zero_lt_one
    rw [← tabled.sizes.1]
    exact Visit.getElem?_opened done one
  obtain ⟨near, outer, given⟩ := tabled.chained.exists_cons meets.scope
  have same : ∀ {place : Nat} {chain : Enclosure} {chains : List Enclosure},
      (Visit.chainsOf file (done ++ [visit]))[place]? = some (chain :: chains) →
        (place = number ↔ chain = head) := by
    intro place chain chains there
    constructor
    · rintro rfl
      exact (List.cons.inj (Option.some.inj (there.symm.trans found))).1
    · rintro rfl
      exact Visit.chain_unique apart there found
  refine ⟨declaredIn? file cursor near ⟨visit.way, 0⟩ hint, ?_,
    declaredIn?_iff file cursor hint name (same (given ▸ around)) (same opened)⟩
  rw [Visit.declares?, comes, given]
  rfl

/-- The function that a step declares has the id that its look tells. -/
theorem declared_step (apart : ((Visit.chainsOf file (done ++ [visit])).map List.head?).Nodup)
    {number : Nat} {head : Enclosure} {tail : List Enclosure} (name : String)
    (found : (Visit.chainsOf file (done ++ [visit]))[number]? = some (head :: tail)) :
    Option.Rel (facts.step file task).1.graph.IdAt
      ((facts.step file task).1.scopes.functionIn? number name)
      ((Visit.declarationsOf file (done ++ [visit])).lookup (head, name)) := by
  have before := tabled.declared_before charted apart name found
  have written : visit.look.function? = task.function?.map fun made => (made.1, made.2.2) := by
    rw [look, ← charted.head.same, Task.function?_look]
  have listed : Visit.declarationsOf file (done ++ [visit]) =
      Visit.declarationsOf file done ++ (visit.declares? file).toList := by
    rw [Visit.declarationsOf, List.filterMap_append, ← Visit.declarationsOf]
    cases declared : visit.declares? file <;> simp [declared]
  rw [listed, List.lookup_append]
  cases comes : task.function? with
  | none =>
    have nothing : visit.declares? file = none := by
      rw [Visit.declares?, written, comes]
      rfl
    rw [functionIn?_step_of_none comes, nothing]
    simpa using before
  | some made =>
    obtain ⟨cursor, context, hint⟩ := made
    obtain ⟨sound, ready⟩ := visits.sound
    obtain ⟨-, rfl⟩ := context_of_function? comes
    obtain ⟨declared, declares, same⟩ := tabled.declares_iff meets apart (written.trans (congrArg _ comes)) name found
    have placed : (facts.step file task).1.graph.IdAt
        (facts.enterFunction file cursor task.context hint false).node
        (file.nodeOf cursor .func none).id := by
      rw [step_function comes]
      exact (idAt_enterFunction sound cursor task.context hint false).kept
        (extends_functionBody _ file cursor _).graph
    rw [functionIn?_step_of_some (ready task List.mem_cons_self).1.context.scope comes, declares]
    exact rel_or before (rel_lookup placed same)

omit charted look visits in
/-- What the step declares is declared in a scope that is there or in the one that it opens. -/
theorem scopes_step : ∀ item ∈ Visit.declarationsOf file (done ++ [visit]), ∃ tail,
    item.1.1 :: tail ∈ Visit.chainsOf file (done ++ [visit]) := by
  intro item listed
  rw [Visit.declarationsOf, List.filterMap_append, ← Visit.declarationsOf] at listed
  have around := List.mem_of_getElem? (meets.later visit).scope
  rcases List.mem_append.1 listed with old | new
  · obtain ⟨tail, there⟩ := tabled.scopes item old
    exact ⟨tail, by
      rw [Visit.chainsOf_concat]
      exact List.mem_append_left _ there⟩
  · obtain ⟨other, inside, declares⟩ := List.mem_filterMap.1 new
    obtain rfl := List.mem_singleton.1 inside
    obtain ⟨made, found, rest⟩ := Option.bind_eq_some_iff.1 declares
    obtain ⟨near, given, rest⟩ := Option.bind_eq_some_iff.1 rest
    obtain ⟨⟨place, name⟩, declared, rfl⟩ := Option.map_eq_some_iff.1 rest
    obtain ⟨outer, given⟩ := List.head?_eq_some_iff.1 given
    rcases place_of_declaredIn? declared with rfl | rfl
    · exact ⟨outer, given ▸ around⟩
    · refine ⟨other.scopes, List.mem_of_getElem? (Visit.getElem?_opened done ?_)⟩
      rw [Look.scopeCount_of_function? found]
      exact Nat.zero_lt_one

/-- One step makes the next visit, and notes it. -/
theorem step (apart : ((done ++ [visit]).map Visit.way).Nodup)
    (away : ∀ other ∈ done ++ [visit], other.way ≠ []) :
    Tabled file (facts.step file task).1 (done ++ [visit]) := by
  have heads : ((Visit.chainsOf file (done ++ [visit])).map List.head?).Nodup :=
    Visit.nodup_heads apart away
  have entered := charted.functions_step tabled.functions
  refine ⟨?chained, ?functions, fun number function slot found held => ?params, ?classes, ?calls,
    fun number head tail name found => ?declared, ?scopes, ?inside⟩
  case chained =>
    have opened := tabled.chained.opens meets.scope
      ((List.range (visit.look.scopeCount file)).map (Enclosure.mk visit.way))
    rw [List.map_map, List.length_map, List.length_range] at opened
    rw [Visit.chainsOf_concat, charted.parents_step visits, ← look]
    exact opened
  case functions =>
    rw [Visit.functionsOf_concat, List.map_append, Visit.map_snd_entered, look]
    exact entered
  case params => exact tabled.params_step visits charted look meets (Visit.nodup_enclosuresOf apart) found held
  case classes =>
    have classes := charted.classes_step visits tabled.functions tabled.classes
    rw [← look] at classes
    rw [Visit.classesOf, List.filterMap_append, ← Visit.classesOf]
    cases found : visit.look.group? file <;> rw [found] at classes <;> simpa [found] using classes
  case calls => exact charted.calls_step visits look meets tabled.calls
  case declared =>
    exact tabled.declared_step visits charted look meets heads name found
  case scopes => exact tabled.scopes_step meets
  case inside =>
    intro other listed function given
    rcases List.mem_append.1 listed with old | new
    · rw [Visit.enclosuresOf_concat]
      exact List.mem_append_left _ (tabled.inside other old function given)
    · obtain rfl := List.mem_singleton.1 new
      obtain ⟨number, -, there⟩ := rel_some_right (meets.later other).function given
      exact List.mem_of_getElem? there

end Step

end Tabled

/-! ## The whole walk -/

/-- The walk has made the first visits of the course of its file, and the tasks that are left are those of
visits with which the others begin. -/
structure Follows (file : SourceFile) (facts : Facts) (pending : List Task) (ahead : List Sight)
    (done coming : List Visit) : Prop where
  course : file.course = done ++ coming.flatMap (Visit.course file)
  looks : coming.map Visit.look = ahead.map Sight.look
  meets : List.Forall₂ (Task.Meets file done) pending coming
  tabled : Tabled file facts done

theorem follows_start (file : SourceFile) :
    Follows file {} (statementTasks { tree := file.tree } {}) (sightsIn none file.looks) [] file.starts := by
  refine ⟨rfl, ?_, ?_, .start file⟩
  · rw [SourceFile.starts, sightsIn, List.map_map, List.map_map]
    exact (List.zipIdx_map_fst 0 file.looks).trans (List.map_id' file.looks).symm
  · have stands := (charted_start file).stands
    rw [AllStand, sightsIn, List.forall₂_map_right_iff, ← List.zipIdx_map_fst 0 file.looks,
      List.forall₂_map_right_iff] at stands
    rw [SourceFile.starts, List.forall₂_map_right_iff]
    refine forall₂_sides stands (fun task listed => ?_ : ∀ task ∈ _, task.context = {}) (fun _ _ => trivial)
      fun task start _ outside _ => ⟨?_, ?_⟩
    · obtain ⟨child, -, rfl⟩ := List.mem_map.1 listed
      rfl
    · rw [outside]
      rfl
    · rw [outside]
      exact .none

namespace Follows

variable {done coming : List Visit} {visit : Visit}

theorem step (follows : Follows file facts (task :: rest) (sight :: ahead) done (visit :: coming))
    (visits : Visits file facts (task :: rest))
    (charted : Charted file facts (task :: rest) (sight :: ahead)) :
    Follows file (facts.step file task).1 ((facts.step file task).2 ++ rest)
      ((sight.look.scheme file).sights file sight.function facts.functions.size ++ ahead)
      (done ++ [visit]) (visit.followers file ++ coming) := by
  obtain ⟨course, looks, meets, tabled⟩ := follows
  obtain ⟨look, looks⟩ := List.cons.inj looks
  obtain _ | ⟨first, later⟩ := meets
  have next : file.course =
      (done ++ [visit]) ++ (visit.followers file ++ coming).flatMap (Visit.course file) := by
    rw [course, List.flatMap_cons, Visit.course_eq]
    simp
  have apart : ((done ++ [visit]).map Visit.way).Nodup := by
    have all := file.nodup_course
    rw [next, List.map_append] at all
    exact all.of_append_left
  have away : ∀ other ∈ done ++ [visit], other.way ≠ [] := fun other listed =>
    SourceFile.way_ne_nil (next ▸ List.mem_append_left _ listed)
  refine ⟨next, ?_, ?_, tabled.step visits charted look first apart away⟩
  · rw [List.map_append, List.map_append, looks, Look.sights_eq, ← look, Visit.followers, List.map_map,
      List.map_map]
    refine congrArg (· ++ _) ?_
    show _ = (visit.look.onward file).map Prod.fst
    rw [← List.zipIdx_map_fst 0 (visit.look.onward file), List.map_map, List.zipIdx_map_fst]
    rfl
  · exact List.rel_append (charted.meets_step visits tabled.sizes.1 tabled.sizes.2 look first)
      (later.imp fun _ _ meets => meets.later visit)

end Follows

/-- The tables of a file tell of its whole course. -/
theorem tabled_of (file : SourceFile) : Tabled file (Facts.of file) file.course := by
  have step : ∀ {facts : Facts} {task : Task} {rest : List Task} {sight : Sight} {ahead : List Sight},
      Visits file facts (task :: rest) → Charted file facts (task :: rest) (sight :: ahead) →
      (∃ done coming, Follows file facts (task :: rest) (sight :: ahead) done coming) →
        ∃ done coming, Follows file (facts.step file task).1 ((facts.step file task).2 ++ rest)
          ((sight.look.scheme file).sights file sight.function facts.functions.size ++ ahead)
          done coming := by
    rintro facts task rest sight ahead visits charted ⟨done, coming, follows⟩
    cases coming with
    | nil => cases follows.looks
    | cons visit coming => exact ⟨_, _, follows.step visits charted⟩
  obtain ⟨ahead, -, done, coming, follows⟩ := (Visits.last file).follow
    (P := fun facts pending ahead => ∃ done coming, Follows file facts pending ahead done coming)
    ⟨[], file.starts, follows_start file⟩ step
  obtain ⟨course, -, meets, tabled⟩ := follows
  cases meets
  rw [course, List.flatMap_nil, List.append_nil]
  -- Names are looked up after the walk, which changes the regions alone.
  exact { tabled with }

end Facts

/-- The fact about a function tells of a function that was entered, and of its parameters. -/
structure FunctionFact.Tells (file : SourceFile) (graph : Graph) (fact : FunctionFact)
    (made : Enclosure × Entry) : Prop where
  signature : fact.signature.Tells graph made.2
  params : List.Forall₂ (fun held (seen : Nat × String) => held.1 = seen.1 ∧ graph.IdAt held.2 seen.2)
    fact.params.toList (file.params made.1)

namespace Facts

/-- The facts about functions tell of the functions of the file. -/
theorem functions_of (file : SourceFile) : List.Forall₂ (FunctionFact.Tells file (Facts.of file).graph)
    (Facts.of file).functions.toList file.functions := by
  have tabled := tabled_of file
  have signed : List.Forall₂ (fun (fact : FunctionFact) (made : Enclosure × Entry) =>
      fact.signature.Tells (Facts.of file).graph made.2)
      (Facts.of file).functions.toList file.functions :=
    List.forall₂_map_left_iff.1 (List.forall₂_map_right_iff.1 tabled.functions)
  refine forall₂_iff_getElem?.2 fun place => ?_
  have related := forall₂_iff_getElem?.1 signed place
  cases held : (Facts.of file).functions.toList[place]? with
  | none =>
    rw [rel_none_left related held]
    exact .none
  | some fact =>
    obtain ⟨made, listed, told⟩ := rel_some_left related held
    rw [listed]
    refine .some ⟨told, tabled.params place made.1 (fact.node, fact.params) ?_ ?_⟩
    · rw [Visit.enclosuresOf, List.getElem?_map, ← SourceFile.functions, listed]
      rfl
    · rw [slots, List.getElem?_map, held]
      rfl

end Facts

end CodeGraph

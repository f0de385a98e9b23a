import CodeGraph.Proofs.Facts.Chart

/-!
# What tasks stand for

A task of the walk stands for a look from inside a function (`Task.Stands`): it is the same but for its
handles, which are those of the nodes that the home of the look names. Here is what a scheme leaves to look
at (`Scheme.sights`), the tasks that are alike to those of the schemes, and what the facts note of a
function when a yield says so (`Facts.Notes`).
-/

namespace CodeGraph

/-- A signature tells of a function that was entered. -/
structure Signature.Tells (graph : Graph) (signature : Signature) (entry : Entry) : Prop where
  node : graph.IdAt signature.node entry.node.id
  name : signature.name = entry.node.name
  isMethod : signature.isMethod = entry.node.properties.isSet "isMethod"

/-- A pattern that binds parameters is right below a function. -/
def Task.Direct (home : Home) : Task → Prop
  | bind _ _ (.param _ _ _ _) => home.container = home.function ∧ home.function.isSome = true
  | _ => True

/-- A look from inside a function, which is told by the number of the fact about it. -/
structure Sight where
  function : Option Nat
  look : Look

/-- A task stands for a look from inside a function: it is the same but for the handles, and these are
those of the nodes that the home of the look names. -/
structure Task.Stands (chart : List Yield) (facts : Facts) (task : Task) (sight : Sight) : Prop where
  same : task.look sight.look.home = sight.look
  context : task.context.At chart facts sight.look.home
  function : task.context.function = sight.function
  direct : task.Direct sight.look.home

theorem Task.Stands.later {chart : List Yield} {before after : Facts} {task : Task} {sight : Sight}
    (stands : task.Stands chart before sight) (extend : before.Extends after) :
    task.Stands chart after sight :=
  { stands with context := stands.context.later extend }

/-- Tasks stand for sights, one by one. -/
def AllStand (chart : List Yield) (facts : Facts) : List Task → List Sight → Prop :=
  List.Forall₂ (Task.Stands chart facts)

/-- The sights of looks from inside one function. -/
def sightsIn (function : Option Nat) (looks : List Look) : List Sight := looks.map (Sight.mk function)

theorem sightsIn_append (function : Option Nat) (looks others : List Look) :
    sightsIn function (looks ++ others) = sightsIn function looks ++ sightsIn function others :=
  List.map_append

theorem AllStand.later {before after : Facts} {tasks : List Task} {sights : List Sight}
    {chart : List Yield} (stand : AllStand chart before tasks sights)
    (extend : before.Extends after) : AllStand chart after tasks sights :=
  stand.imp fun _ _ stands => stands.later extend

theorem AllStand.append {tasks tasks' : List Task} {sights sights' : List Sight}
    {chart : List Yield} {facts : Facts} (left : AllStand chart facts tasks sights)
    (right : AllStand chart facts tasks' sights') :
    AllStand chart facts (tasks ++ tasks') (sights ++ sights') :=
  List.rel_append left right

/-- A task in a context is the same as another one but for the handles. -/
structure Task.Alike (context : Context) (home : Home) (task plain : Task) : Prop where
  context : task.context = context
  same : task.look home = plain.look home
  direct : task.Direct home

theorem Task.home_look (home : Home) (task : Task) : (task.look home).home = home := by
  cases task <;> rfl

/-- Tasks in a context, one by one the same as others but for the handles. -/
def AllAlike (context : Context) (home : Home) : List Task → List Task → Prop :=
  List.Forall₂ (Task.Alike context home)

/-- Tasks in a context at a home stand for the looks there. -/
theorem Context.At.all_stand {chart : List Yield} {facts : Facts} {context : Context} {home : Home}
    {tasks plain : List Task} (stands : context.At chart facts home)
    (alike : AllAlike context home tasks plain) :
    AllStand chart facts tasks (sightsIn context.function (home.looks plain)) := by
  rw [AllStand, sightsIn, Home.looks, List.forall₂_map_right_iff, List.forall₂_map_right_iff]
  refine alike.imp fun task other alike => ⟨?_, ?_, congrArg Context.function alike.context, ?_⟩
  · rw [Task.home_look]
    exact alike.same
  · rw [Task.home_look, alike.context]
    exact stands
  · rw [Task.home_look]
    exact alike.direct

variable {context : Context} {home : Home}

theorem alike_statement (cursor : Cursor) :
    Task.Alike context home (.statement cursor context) (.statement cursor {}) := ⟨rfl, rfl, trivial⟩

theorem alike_expression (cursor : Cursor) (hint : Option Hint) :
    Task.Alike context home (.expression cursor context hint) (.expression cursor {} hint) :=
  ⟨rfl, rfl, trivial⟩

theorem alike_bind (cursor : Cursor) {mode plain : BindMode} (same : mode.plain = plain.plain)
    (direct : (Task.bind cursor context mode).Direct home) :
    Task.Alike context home (.bind cursor context mode) (.bind cursor {} plain) :=
  ⟨rfl, by rw [Task.look, Task.look, same], direct⟩

namespace AllAlike

theorem nil : AllAlike context home [] [] := List.Forall₂.nil

theorem one {task plain : Task} (alike : Task.Alike context home task plain) :
    AllAlike context home [task] [plain] := .cons alike .nil

theorem append {tasks tasks' plain plain' : List Task} (left : AllAlike context home tasks plain)
    (right : AllAlike context home tasks' plain') :
    AllAlike context home (tasks ++ tasks') (plain ++ plain') :=
  List.rel_append left right

theorem map {α : Type} (items : List α) {make plain : α → Task}
    (each : ∀ item, Task.Alike context home (make item) (plain item)) :
    AllAlike context home (items.map make) (items.map plain) := by
  rw [AllAlike, List.forall₂_map_left_iff, List.forall₂_map_right_iff, List.forall₂_same]
  exact fun item _ => each item

theorem option {α : Type} (found : Option α) {make plain : α → Task}
    (each : ∀ item, Task.Alike context home (make item) (plain item)) :
    AllAlike context home (found.map make).toList (found.map plain).toList := by
  cases found with
  | none => exact .nil
  | some item => exact .cons (each item) .nil

theorem flatMap {α : Type} (items : List α) {make plain : α → List Task}
    (each : ∀ item, AllAlike context home (make item) (plain item)) :
    AllAlike context home (items.flatMap make) (items.flatMap plain) := by
  induction items with
  | nil => exact .nil
  | cons item rest ih => exact append (each item) ih

end AllAlike

namespace Facts

theorem alike_statementTasks (cursor : Cursor) :
    AllAlike context home (statementTasks cursor context) (statementTasks cursor {}) :=
  .map _ alike_statement

theorem alike_expressionTasks (cursor : Cursor) :
    AllAlike context home (expressionTasks cursor context) (expressionTasks cursor {}) :=
  .map _ fun child => alike_expression child none

theorem alike_fieldExpression (cursor : Cursor) (name : String) :
    AllAlike context home (fieldExpression cursor name context) (fieldExpression cursor name {}) :=
  .option _ fun child => alike_expression child none

theorem alike_fieldStatement (cursor : Cursor) (name : String) :
    AllAlike context home (fieldStatement cursor name context) (fieldStatement cursor name {}) :=
  .option _ alike_statement

theorem alike_descend (cursor : Cursor) :
    AllAlike context home (descend cursor context) (descend cursor {}) :=
  .map _ fun child => alike_expression child none

theorem alike_declaratorTasks (file : SourceFile) (word : String) (site : Nat)
    (declarator : Cursor) : AllAlike context home (declaratorTasks file context word site declarator)
      (declaratorTasks file {} word 0 declarator) := by
  unfold declaratorTasks
  split
  · split
    · exact .nil
    · next name _ =>
      exact .append (.option _ fun value => alike_expression value _)
        (.one (alike_bind name rfl trivial))
  · exact .nil

theorem alike_pairTasks (file : SourceFile) (cursor : Cursor) :
    AllAlike context home (pairTasks file cursor context) (pairTasks file cursor {}) :=
  .append (.option _ fun key => alike_expression key none)
    (.option _ fun value => alike_expression value _)

theorem alike_patternTasks (cursor : Cursor) {mode : BindMode}
    (direct : (Task.bind cursor context mode).Direct home) :
    AllAlike context home (patternTasks cursor context mode) (patternTasks cursor {} mode.plain) := by
  have bind : ∀ child : Cursor,
      Task.Alike context home (.bind child context mode) (.bind child {} mode.plain) := by
    intro child
    refine alike_bind child ?_ ?_
    · cases mode <;> rfl
    · cases mode with
      | param position rest optional hasDefault => exact direct
      | declare kind site => trivial
      | assign site => trivial
  unfold patternTasks
  split
  · exact .map _ bind
  · exact .option _ bind
  · exact .append (.option _ fun child => alike_expression child none) (.option _ bind)
  · exact .option _ bind
  · exact .one (alike_expression cursor none)
  · exact .nil
  · exact .nil

theorem alike_params (params : List Parameter)
    (direct : home.container = home.function ∧ home.function.isSome = true) :
    AllAlike context home (params.zipIdx.flatMap fun entry => entry.1.tasks context entry.2)
      (params.zipIdx.flatMap fun entry => entry.1.tasks {} entry.2) :=
  .flatMap _ fun entry => .append (.option _ fun fallback => alike_expression fallback none)
    (.one (alike_bind entry.1.pattern rfl direct))

/-- What the chart has of a yield is noted in the fact about a function: that the function returns there,
or that it is a parameter, with its position. -/
def Notes (facts : Facts) (number : Nat) (yield : Yield) : Prop :=
  ∃ fact handle, facts.functions[number]? = some fact ∧ facts.graph.IdAt handle yield.node.id ∧
    (yield.returns = true → handle ∈ fact.returns.toList) ∧
    (yield.node.kind = .param → ∃ position,
      yield.node.properties.number? "index" = some (Binary64.ofNat position) ∧
        (position, handle) ∈ fact.params.toList)

theorem Notes.later {before after : Facts} {number : Nat} {yield : Yield}
    (notes : before.Notes number yield) (graph : before.graph.Kept after.graph)
    (remembers : before.Remembers after) : after.Notes number yield := by
  obtain ⟨fact, handle, found, spot, returns, param⟩ := notes
  obtain ⟨later, held, params, answers⟩ := remembers number fact found
  refine ⟨later, handle, held, spot.kept graph, fun answer => answers (returns answer),
    fun kind => ?_⟩
  obtain ⟨position, index, listed⟩ := param kind
  exact ⟨position, index, params listed⟩

/-- That a function returns at a site is noted. -/
theorem notes_recordReturn {facts : Facts} {number site : Nat} {yield : Yield}
    (there : number < facts.functions.size) (spot : facts.graph.IdAt site yield.node.id)
    (other : yield.node.kind ≠ .param) : (facts.recordReturn (some number) site).Notes number yield := by
  have found : (facts.recordReturn (some number) site).functions[number]? =
      some { facts.functions[number] with returns := facts.functions[number].returns.push site } := by
    simp only [recordReturn, Array.getElem?_modify, if_true, Array.getElem?_eq_getElem there,
      Option.map_some]
  exact ⟨_, site, found, spot, fun _ => by simp, fun kind => absurd kind other⟩

/-- A parameter is noted with its position. -/
theorem notes_noteParam {facts : Facts} {number position node : Nat} {yield : Yield}
    (there : number < facts.functions.size) (spot : facts.graph.IdAt node yield.node.id)
    (index : yield.node.properties.number? "index" = some (Binary64.ofNat position))
    (stays : yield.returns = false) : (facts.noteParam number position node).Notes number yield := by
  have found : (facts.noteParam number position node).functions[number]? =
      some { facts.functions[number] with
        params := facts.functions[number].params.push (position, node) } := by
    simp only [noteParam, Array.getElem?_modify, if_true, Array.getElem?_eq_getElem there,
      Option.map_some]
  exact ⟨_, node, found, spot, fun answer => absurd (stays.symm.trans answer) (by decide),
    fun _ => ⟨position, index, by simp⟩⟩

/-- The fact of a number is about a function that was entered, and notes that it returns at the expression
in place of its body. -/
structure Enters (file : SourceFile) (facts : Facts) (number : Nat) (entry : Entry) : Prop where
  tells : ∃ signature, facts.signatures[number]? = some signature ∧ signature.Tells facts.graph entry
  notes : ∀ yield ∈ entry.yields file, facts.Notes number yield

theorem Enters.about {file : SourceFile} {facts : Facts} {number : Nat} {entry : Entry}
    (enters : facts.Enters file number entry) : facts.About number entry.node.id := by
  obtain ⟨signature, found, tells⟩ := enters.tells
  exact ⟨signature, found, tells.node⟩

theorem Enters.later {file : SourceFile} {before after : Facts} {number : Nat} {entry : Entry}
    (enters : before.Enters file number entry) (extend : before.Extends after)
    (remembers : before.Remembers after) : after.Enters file number entry := by
  obtain ⟨signature, found, tells⟩ := enters.tells
  exact ⟨⟨signature, extend.signature found, { tells with node := tells.node.kept extend.graph }⟩,
    fun yield inside => (enters.notes yield inside).later extend.graph remembers⟩

end Facts

/-- The sights inside functions that are entered; their facts get numbers from a given one on. -/
def Entry.sights (file : SourceFile) (entries : List Entry) (count : Nat) : List Sight :=
  (entries.zipIdx count).reverse.flatMap fun entry => sightsIn (some entry.2) (entry.1.looks file)

/-- The sights of what follows in a scheme inside a function. -/
def Scheme.sights (file : SourceFile) (scheme : Scheme) (function : Option Nat) (count : Nat) :
    List Sight :=
  sightsIn function scheme.next ++ Entry.sights file scheme.functions count
    ++ sightsIn function scheme.again

theorem Scheme.subset_of_puts {file : SourceFile} {scheme : Scheme} {chart : List Yield}
    (within : scheme.puts file ⊆ chart) : scheme.yields ⊆ chart :=
  fun _ inside => within (List.mem_append_left _ inside)

namespace Facts

variable {file : SourceFile}

/-- The looks of the sights of a scheme follow in it. -/
theorem look_of_mem_sights {scheme : Scheme} {function : Option Nat} {number : Nat} {sight : Sight}
    (inside : sight ∈ scheme.sights file function number) :
    sight.look ∈ scheme.first file ++ scheme.again := by
  rcases List.mem_append.1 inside with first | again
  · refine List.mem_append_left _ ?_
    rcases List.mem_append.1 first with next | entered
    · obtain ⟨look, there, rfl⟩ := List.mem_map.1 next
      exact List.mem_append_left _ there
    · obtain ⟨⟨entry, number⟩, there, here⟩ := List.mem_flatMap.1 entered
      obtain ⟨look, held, rfl⟩ := List.mem_map.1 here
      have listed : entry ∈ scheme.functions :=
        List.fst_mem_of_mem_zipIdx (List.mem_reverse.1 there)
      exact List.mem_append_right _ (List.mem_flatMap.2 ⟨entry, List.mem_reverse.2 listed, held⟩)
  · obtain ⟨look, there, rfl⟩ := List.mem_map.1 again
    exact List.mem_append_right _ there

/-- The looks inside a function that is entered are ahead, under the number of its fact. -/
theorem sight_of_function {scheme : Scheme} {function : Option Nat} {count place : Nat}
    {entry : Entry} (entered : scheme.functions[place]? = some entry) {look : Look}
    (inside : look ∈ entry.looks file) :
    ⟨some (count + place), look⟩ ∈ scheme.sights file function count := by
  refine List.mem_append_left _ (List.mem_append_right _ (List.mem_flatMap.2
    ⟨(entry, count + place), List.mem_reverse.2 ?_, List.mem_map_of_mem inside⟩))
  rw [List.mem_zipIdx_iff_le_and_getElem?_sub, Nat.add_sub_cancel_left]
  exact ⟨Nat.le_add_right _ _, entered⟩

/-- The looks that follow in the same function are ahead. -/
theorem sight_of_next {scheme : Scheme} {function : Option Nat} {count : Nat} {look : Look}
    (follows : look ∈ scheme.next ++ scheme.again) :
    ⟨function, look⟩ ∈ scheme.sights file function count := by
  rcases List.mem_append.1 follows with next | again
  · exact List.mem_append_left _ (List.mem_append_left _ (List.mem_map_of_mem next))
  · exact List.mem_append_right _ (List.mem_map_of_mem again)

/-- All looks that follow in a scheme are ahead. -/
theorem sight_of_follows {scheme : Scheme} (function : Option Nat) (count : Nat) {look : Look}
    (follows : look ∈ scheme.first file ++ scheme.again) :
    ∃ sight ∈ scheme.sights file function count, sight.look = look := by
  rcases List.mem_append.1 follows with first | again
  · rcases List.mem_append.1 first with next | inner
    · exact ⟨_, sight_of_next (List.mem_append_left _ next), rfl⟩
    · obtain ⟨entry, listed, there⟩ := List.mem_flatMap.1 inner
      obtain ⟨place, entered⟩ := List.getElem?_of_mem (List.mem_reverse.1 listed)
      exact ⟨_, sight_of_function entered there, rfl⟩
  · exact ⟨_, sight_of_next (List.mem_append_right _ again), rfl⟩

end Facts

end CodeGraph

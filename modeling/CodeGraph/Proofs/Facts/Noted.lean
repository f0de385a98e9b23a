import CodeGraph.Proofs.Facts.Forest

/-!
# What the walk notes of functions

The fact about a function lists its parameters with their positions, and the sites at which it returns.
What is noted of a function is what yields say of it (`Facts.Charts.noted`). In the other direction, the
walk leaves nothing out: each yield of a file is placed, and each yield of a function is noted, or the walk
still has it ahead (`Facts.Covered`). So in a file whose syntax nodes are apart the facts and the yields
say the same (`SourceFile.mem_returns_iff`, `SourceFile.mem_params_iff`).
-/

namespace CodeGraph

namespace Graph

variable {graph after : Graph} {chart : List Yield}

/-- A function returns at a site: a yield inside it says so. -/
def ReturnsAt (graph : Graph) (chart : List Yield) (function site : Nat) : Prop :=
  ∃ yield ∈ chart, yield.returns = true ∧ graph.IdAt site yield.node.id ∧
    ∃ id, yield.home.function = some id ∧ graph.IdAt function id

/-- A function takes a parameter at a position: the parameter is a yield right below it. -/
def TakesAt (graph : Graph) (chart : List Yield) (function : Nat) (position : Binary64)
    (param : Nat) : Prop :=
  ∃ yield ∈ chart, yield.node.kind = .param ∧ graph.IdAt param yield.node.id ∧
    yield.node.properties.number? "index" = some position ∧
    yield.home.container = yield.home.function ∧
    ∃ id, yield.home.function = some id ∧ graph.IdAt function id

theorem ReturnsAt.kept {function site : Nat} (returns : graph.ReturnsAt chart function site)
    (kept : graph.Kept after) : after.ReturnsAt chart function site := by
  obtain ⟨yield, inside, flagged, spot, id, around, there⟩ := returns
  exact ⟨yield, inside, flagged, spot.kept kept, id, around, there.kept kept⟩

theorem TakesAt.kept {function param : Nat} {position : Binary64}
    (takes : graph.TakesAt chart function position param) (kept : graph.Kept after) :
    after.TakesAt chart function position param := by
  obtain ⟨yield, inside, kind, spot, index, direct, id, around, there⟩ := takes
  exact ⟨yield, inside, kind, spot.kept kept, index, direct, id, around, there.kept kept⟩

end Graph

namespace Facts

variable {file : SourceFile} {chart : List Yield} {facts : Facts}

/-- The nodes of the graph are those of the chart. -/
theorem Charts.node_mem (charts : Charts file chart facts) {handle : Nat} {node : Node}
    (found : facts.graph.nodes[handle]? = some node) : ∃ yield ∈ chart, yield.node = node := by
  induction charts with
  | start => cases found
  | @quiet before after _ same ih =>
    have graph : after.graph = before.graph := congrArg View.graph same
    exact ih (graph ▸ found)
  | place placed parent home charts _ _ below _ has ih =>
    rcases new_of_place charts.formed below has found with old | ⟨rfl, -, -, yield, inside, same, -⟩
    · exact ih old
    · exact ⟨yield, inside, same⟩
  | param cursor context home number position rest optional hasDefault charts stands _ _ inside ih =>
    rcases node_of_place found with old | ⟨rfl, -⟩
    · exact ih old
    · exact ⟨_, inside, rfl⟩
  | push context home site kind _ _ _ _ ih =>
    rw [graph_pushStatement] at found
    exact ih found
  | returns context home site _ _ _ ih =>
    rw [graph_recordReturn, graph_pushStatement] at found
    exact ih found
  | enter node name isMethod _ _ ih => exact ih found
  | call context home call _ _ _ _ ih => exact ih found

/-! ## What is noted is so -/

/-- What is noted of functions and calls is what the yields say. -/
structure Noted (chart : List Yield) (facts : Facts) : Prop where
  returns : ∀ (number : Nat) (fact : FunctionFact), facts.functions[number]? = some fact →
    ∀ site ∈ fact.returns.toList, facts.graph.ReturnsAt chart fact.node site
  params : ∀ (number : Nat) (fact : FunctionFact), facts.functions[number]? = some fact →
    ∀ entry ∈ fact.params.toList, facts.graph.TakesAt chart fact.node (.ofNat entry.1) entry.2
  callers : ∀ (number : Nat) (call : CallFact), facts.calls[number]? = some call →
    ∃ function, Option.Rel facts.graph.IdAt call.caller function ∧
      facts.graph.InFunction chart call.node function

/-- What changes neither functions nor calls keeps what is noted. -/
theorem Noted.keep (noted : Noted chart facts) {after : Facts}
    (functions : after.functions = facts.functions) (calls : after.calls = facts.calls)
    (kept : facts.graph.Kept after.graph) : Noted chart after where
  returns := fun number fact found site listed =>
    (noted.returns number fact (functions ▸ found) site listed).kept kept
  params := fun number fact found entry listed =>
    (noted.params number fact (functions ▸ found) entry listed).kept kept
  callers := by
    intro number call found
    obtain ⟨function, caller, inside⟩ := noted.callers number call (calls ▸ found)
    exact ⟨function, rel_imp (fun _ _ there => there.kept kept) caller, inside.kept kept⟩

theorem index_paramNode (cursor : Cursor) (position : Nat) (rest optional hasDefault : Bool) :
    (paramNode file cursor position rest optional hasDefault).properties.number? "index" =
      some (.ofNat position) := by
  simp [paramNode, Node.set, Properties.number?, Properties.get?_insert_of_ne]
  rfl

namespace Noted

variable {context : Context} {home : Home} (noted : Noted chart facts)
include noted

/-- A parameter is noted that is a yield right below the function. -/
theorem param (formed : facts.graph.WellFormed) {cursor : Cursor} {number position : Nat}
    {rest optional hasDefault : Bool} (stands : context.At chart facts home)
    (given : context.function = some number) (direct : home.container = home.function)
    (inside : { cursor, node := paramNode file cursor position rest optional hasDefault,
                home : Yield } ∈ chart) :
    Noted chart ((facts.place (paramNode file cursor position rest optional hasDefault) context.parent
      ).1.noteParam number position
        (facts.place (paramNode file cursor position rest optional hasDefault) context.parent).2) := by
  let node := paramNode file cursor position rest optional hasDefault
  let placed := facts.place node context.parent
  have grown := extends_place facts node context.parent
  have kept : Noted chart placed.1 := noted.keep rfl rfl grown.graph
  have spot : placed.1.graph.IdAt placed.2 node.id := handle_place formed node context.parent
  refine ⟨each_modified (fun _ => Array.getElem?_modify) kept.returns fun _ _ held => held,
    each_modified (fun _ => Array.getElem?_modify) kept.params ?_, kept.callers⟩
  intro fact found held entry listed
  rcases List.mem_append.1 (Array.toList_push ▸ listed) with old | new
  · exact held entry old
  · obtain rfl := List.mem_singleton.1 new
    obtain ⟨id, around, about⟩ := stands.about given
    exact ⟨_, inside, rfl, spot, index_paramNode cursor position rest optional hasDefault,
      direct, id, around, (about.node found).kept grown.graph⟩

theorem pushStatement (context : Context) (site : Nat) (kind : StatementKind) :
    Noted chart (facts.pushStatement context site kind).1 := by
  refine noted.keep (functions_pushStatement _ _ _ _) ?_ (extends_pushStatement _ _ _ _).graph
  rw [pushStatement_eq]

/-- A site is noted at which a yield says that the function around returns. -/
theorem recordReturn (stands : context.At chart facts home) {site : Nat}
    (flagged : ∃ yield ∈ chart, facts.graph.IdAt site yield.node.id ∧
      yield.home.function = home.function ∧ yield.returns = true) :
    Noted chart (facts.recordReturn context.function site) := by
  cases given : context.function with
  | none => exact noted
  | some number =>
    refine ⟨each_modified (fun _ => Array.getElem?_modify) noted.returns ?_,
      each_modified (fun _ => Array.getElem?_modify) noted.params fun _ _ held => held,
      noted.callers⟩
    intro fact found held other listed
    rcases List.mem_append.1 (Array.toList_push ▸ listed) with old | new
    · exact held other old
    · obtain rfl := List.mem_singleton.1 new
      obtain ⟨yield, inside, spot, same, answers⟩ := flagged
      obtain ⟨id, around, about⟩ := stands.about given
      have there : facts.graph.IdAt fact.node id := about.node found
      exact ⟨yield, inside, answers, spot, id, same.trans around, there⟩

/-- A call is noted that is in the function around. -/
theorem call (stands : context.At chart facts home) {call : CallFact}
    (caller : call.caller = facts.functionAround context)
    (inside : facts.graph.InFunction chart call.node home.function) :
    Noted chart (facts.noteCall call) := by
  refine ⟨noted.returns, noted.params, each_pushed noted.callers ⟨home.function, ?_, inside⟩⟩
  have around := stands.function
  rw [caller, functionAround]
  generalize context.function = number at around
  generalize home.function = function at around
  cases around with
  | none => exact .none
  | some about =>
    obtain ⟨fact, found⟩ : ∃ fact, facts.functions[_]? = some fact :=
      ⟨_, Array.getElem?_eq_getElem about.lt⟩
    rw [Option.bind_some, found]
    exact .some (about.node found)

end Noted

theorem Charts.noted (charts : Charts file chart facts) : Noted chart facts := by
  induction charts with
  | start => exact ⟨nofun, nofun, nofun⟩
  | @quiet before after _ same ih =>
    have graph : after.graph = before.graph := congrArg View.graph same
    exact ih.keep (congrArg View.functions same) (congrArg View.calls same) (graph ▸ .refl _)
  | @place facts node parent home _ _ _ _ _ _ ih =>
    exact ih.keep rfl rfl (extends_place facts node parent).graph
  | param cursor context home number position rest optional hasDefault charts stands given direct
      inside ih => exact ih.param charts.formed.wellFormed stands given direct inside
  | push context home site kind _ _ _ _ ih => exact ih.pushStatement context site kind
  | @returns facts context home site _ stands flagged ih =>
    have grown := extends_pushStatement facts context site .returns
    obtain ⟨yield, inside, spot, same, answers⟩ := flagged
    exact (ih.pushStatement context site .returns).recordReturn (stands.later grown)
      ⟨yield, inside, spot.kept grown.graph, same, answers⟩
  | enter node name isMethod _ _ ih =>
    exact ⟨each_pushed ih.returns nofun, each_pushed ih.params nofun, ih.callers⟩
  | call context home call _ stands caller inside ih => exact ih.call stands caller inside

/-! ## What is so is noted -/

section Noting

variable {context : Context} {home : Home} {number : Nat} (formed : facts.graph.WellFormed)
  (around : context.function = some number) (known : number < facts.functions.size) {yield : Yield}
  (speaks : ¬ yield.Silent)
include formed around known speaks

/-- What a statement says of the function around is noted when the walk comes by: that it returns. -/
theorem notes_statement {cursor : Cursor}
    (here : yield ∈ (Scheme.statement file cursor home).yields) :
    (facts.statement file cursor context).1.Notes number yield := by
  by_cases form : StatementForm.ofKind cursor.kind = .returns
  swap
  · exact absurd ((Scheme.plain_of_not_returns form).silent yield here) speaks
  unfold Scheme.statement at here
  rw [form] at here
  obtain rfl := List.mem_singleton.1 here
  have spot := handle_place formed (statementNode file cursor) context.parent
  unfold Facts.statement
  rw [form]
  simp only [addReturn, around]
  refine notes_recordReturn ?_ ?_ nofun
  · show number < (Facts.pushStatement _ context _ .returns).1.functions.size
    rw [functions_pushStatement]
    exact known
  · show (Facts.pushStatement _ context _ .returns).1.graph.IdAt _ _
    rw [graph_pushStatement]
    exact spot

/-- What a pattern says of the function around is noted when the walk comes by: that it is a parameter. -/
theorem notes_bind {cursor : Cursor} {mode : BindMode}
    (here : yield ∈ (Scheme.pattern file cursor home mode.plain).yields) :
    (facts.bind file cursor context mode).1.Notes number yield := by
  unfold Scheme.pattern at here
  unfold Facts.bind
  by_cases name : PatternForm.ofKind cursor.kind = .name
  swap
  · simp only [if_neg name] at here
    cases here
  simp only [if_pos name] at here ⊢
  cases mode with
  | declare word site =>
    obtain rfl := List.mem_singleton.1 here
    exact absurd ⟨nofun, rfl, nofun⟩ speaks
  | assign site => cases here
  | param position rest optional hasDefault =>
    obtain rfl := List.mem_singleton.1 here
    have spot := handle_place formed (paramNode file cursor position rest optional hasDefault)
      context.parent
    have noted := @notes_noteParam
      (facts.place (paramNode file cursor position rest optional hasDefault) context.parent).1
      number position _ { cursor, node := _, home } known spot
      (index_paramNode cursor position rest optional hasDefault) rfl
    show (facts.declareParam file cursor context position rest optional hasDefault).Notes _ _
    unfold declareParam
    rw [around]
    exact noted

end Noting

/-- What a step says of the function around is noted. -/
theorem notes_step (charts : Charts file chart facts) {task : Task} {sight : Sight}
    (stands : task.Stands chart facts sight) {number : Nat} (inside : sight.function = some number)
    {yield : Yield} (here : yield ∈ (sight.look.scheme file).yields) (speaks : ¬ yield.Silent) :
    (facts.step file task).1.Notes number yield := by
  have formed := charts.formed.wellFormed
  have given : task.context.function = some number := stands.function.trans inside
  obtain ⟨_, -, about⟩ := stands.context.about given
  rw [← stands.same] at here
  generalize sight.look.home = home at here
  cases task with
  | statement cursor context => exact notes_statement formed given about.lt speaks here
  | loopHeader cursor context =>
    exact absurd ((Scheme.plain_opens _).silent yield here) speaks
  | bind cursor context mode => exact notes_bind formed given about.lt speaks here
  | expression cursor context hint =>
    exact absurd ((Scheme.plain_expression hint).silent yield here) speaks

/-! ## Nothing is left out -/

/-- The walk leaves nothing out: each yield of the file is placed, and what a yield says of the function that
owns it is noted, or there is a look ahead that comes to it. -/
structure Covered (file : SourceFile) (facts : Facts) (ahead : List Sight) : Prop where
  placed : ∀ yield ∈ file.yields, facts.graph.Bears yield ∨
    ∃ sight ∈ ahead, yield ∈ sight.look.yields file
  noted : ∀ number < facts.functions.size, ∃ entry, Look.Entered file.yields entry ∧
    facts.About number entry.node.id ∧ ∀ yield, entry.Owns file yield → ¬ yield.Silent →
      facts.Notes number yield ∨
        ∃ sight ∈ ahead, sight.function = some number ∧ sight.look.Owns file yield

theorem covered_start (file : SourceFile) : Covered file {} (sightsIn none file.looks) := by
  refine ⟨fun yield inside => .inr ?_, fun number less => absurd less (Nat.not_lt_zero _)⟩
  obtain ⟨look, begun, there⟩ := SourceFile.mem_yields.1 inside
  exact ⟨_, List.mem_map_of_mem begun, there⟩

theorem Plays.placed_puts {begun : Facts} {function : Option Nat} {result : Facts × List Task}
    {scheme : Scheme} (plays : Plays file chart begun function result scheme) :
    ∀ yield ∈ scheme.puts file, result.1.graph.Bears yield := by
  intro yield inside
  rcases List.mem_append.1 inside with here | returned
  · exact plays.placed yield here
  · obtain ⟨entry, listed, there⟩ := List.mem_flatMap.1 returned
    obtain ⟨place, found⟩ := List.getElem?_of_mem listed
    obtain ⟨fact, handle, -, spot, -⟩ := (plays.entered place entry found).notes yield there
    exact ⟨handle, spot⟩

section Step

variable {task : Task} {rest : List Task} {sight : Sight} {ahead : List Sight}
  (charted : Charted file facts (task :: rest) (sight :: ahead))
  (covered : Covered file facts (sight :: ahead))
include charted covered

/-- What a step does not place is ahead. -/
theorem Covered.step_placed {yield : Yield} (inside : yield ∈ file.yields) :
    (facts.step file task).1.graph.Bears yield ∨
      ∃ other ∈ (sight.look.scheme file).sights file sight.function facts.functions.size ++ ahead,
        yield ∈ other.look.yields file := by
  have plays := charted.plays
  rcases covered.placed yield inside with before | ⟨other, listed, there⟩
  · exact .inl (before.kept plays.extend.graph)
  · rcases List.mem_cons.1 listed with rfl | later
    · rcases Look.mem_yields.1 there with here | ⟨next, follows, deeper⟩
      · exact .inl (plays.placed_puts yield here)
      · obtain ⟨found, seen, rfl⟩ := sight_of_follows other.function facts.functions.size follows
        exact .inr ⟨found, List.mem_append_left _ seen, deeper⟩
    · exact .inr ⟨other, List.mem_append_right _ later, there⟩

/-- What a step does not note of a function that was entered before is ahead. -/
theorem Covered.step_noted {number : Nat} {yield : Yield} (speaks : ¬ yield.Silent)
    (before : facts.Notes number yield ∨ ∃ other ∈ sight :: ahead,
      other.function = some number ∧ other.look.Owns file yield) :
    (facts.step file task).1.Notes number yield ∨
      ∃ other ∈ (sight.look.scheme file).sights file sight.function facts.functions.size ++ ahead,
        other.function = some number ∧ other.look.Owns file yield := by
  have plays := charted.plays
  rcases before with noted | ⟨other, listed, around, owns⟩
  · exact .inl (noted.later plays.extend.graph plays.noted)
  · rcases List.mem_cons.1 listed with rfl | later
    · cases owns with
      | here inside =>
        exact .inl (notes_step charted.charts charted.head around inside speaks)
      | next follows deeper =>
        exact .inr ⟨_, List.mem_append_left _ (sight_of_next follows), around, deeper⟩
    · exact .inr ⟨other, List.mem_append_right _ later, around, owns⟩

theorem Covered.step : Covered file (facts.step file task).1
    ((sight.look.scheme file).sights file sight.function facts.functions.size ++ ahead) := by
  have plays := charted.plays
  refine ⟨fun yield inside => covered.step_placed charted inside, fun number less => ?_⟩
  by_cases old : number < facts.functions.size
  · obtain ⟨entry, entered, about, owned⟩ := covered.noted number old
    exact ⟨entry, entered, about.later plays.extend, fun yield owns speaks =>
      covered.step_noted charted speaks (owned yield owns speaks)⟩
  · -- A function that the step enters: its fact has the next number, and all that it owns is ahead.
    obtain ⟨place, rfl⟩ := Nat.exists_eq_add_of_le (Nat.le_of_not_lt old)
    rw [plays.size, Nat.add_lt_add_iff_left] at less
    have found := List.getElem?_eq_getElem less
    have enters := plays.entered place _ found
    obtain ⟨kind, yield, listed, same⟩ :=
      (sight.look.fits file).functions _ (List.mem_of_getElem? found)
    refine ⟨_, ⟨kind, yield, Scheme.subset_of_puts charted.puts_subset listed, same⟩,
      enters.about, fun yield owns speaks => ?_⟩
    rcases owns with returned | ⟨look, inside, owns⟩
    · exact .inl (enters.notes yield returned)
    · exact .inr ⟨_, List.mem_append_left _ (sight_of_function found inside), rfl, owns⟩

end Step

theorem Visits.covered {pending : List Task} (visits : Visits file facts pending) :
    ∃ ahead, Charted file facts pending ahead ∧ Covered file facts ahead :=
  visits.follow (P := fun facts _ ahead => Covered file facts ahead) (covered_start file)
    fun _ charted covered => covered.step charted

/-- In the end nothing is ahead. -/
theorem covered_of (file : SourceFile) : Covered file (Facts.of file) [] := by
  obtain ⟨ahead, charted, covered⟩ := (Visits.last file).covered
  obtain rfl := charted.done
  exact ⟨covered.placed, covered.noted⟩

end Facts

namespace SourceFile

open Facts

variable {file : SourceFile} {number : Nat} {fact : FunctionFact}
  (apart : file.Apart) (found : (Facts.of file).functions[number]? = some fact)
include apart found

/-- What a yield says of a function is noted in the facts about it. -/
theorem notes_of_mem_yields {yield : Yield} (inside : yield ∈ file.yields) (speaks : ¬ yield.Silent)
    {id : String} (around : yield.home.function = some id)
    (there : (Facts.of file).graph.IdAt fact.node id) : (Facts.of file).Notes number yield := by
  obtain ⟨entry, entered, about, owned⟩ :=
    (covered_of file).noted number (Array.getElem?_eq_some_iff.1 found).1
  rcases (SourceFile.owned inside).2 with none | ⟨owner, held, owns⟩
  · rw [around] at none
    cases none
  · -- The function that owns the yield is the one that the fact is about, since their ids agree.
    have same : entry.node.id = owner.node.id := by
      rw [(about.node found).unique there]
      exact Option.some.inj (around.symm.trans owns.around)
    have one : entry = owner := by
      obtain ⟨-, first, listed, cursor, node⟩ := entered
      obtain ⟨-, second, listed', cursor', node'⟩ := held
      obtain rfl := apart.told first listed second listed' (by rw [node, node', same])
      cases entry with
      | mk _ _ =>
        cases owner with
        | mk _ _ =>
          cases cursor.symm.trans cursor'
          cases node.symm.trans node'
          rfl
    rcases owned yield (one ▸ owns) speaks with noted | ⟨sight, none, -⟩
    · exact noted
    · cases none

/-- The sites at which a function returns are noted, and no others. -/
theorem mem_returns_iff {site : Nat} : site ∈ fact.returns.toList ↔
    (Facts.of file).graph.ReturnsAt file.yields fact.node site := by
  have charts := charts_of file
  constructor
  · exact charts.noted.returns number fact found site
  · rintro ⟨yield, inside, flagged, spot, id, around, there⟩
    have speaks : ¬ yield.Silent := fun silent => by
      rw [silent.stays] at flagged
      cases flagged
    obtain ⟨other, handle, held, spot', returns, -⟩ :=
      notes_of_mem_yields apart found inside speaks around there
    obtain rfl := Option.some.inj (found.symm.trans held)
    obtain rfl := charts.formed.wellFormed.idAt_unique spot spot'
    exact returns flagged

/-- The parameters of a function are noted with their positions, and no others. -/
theorem mem_params_iff {index : Binary64} {param : Nat} :
    (∃ position, index = .ofNat position ∧ (position, param) ∈ fact.params.toList) ↔
      (Facts.of file).graph.TakesAt file.yields fact.node index param := by
  have charts := charts_of file
  constructor
  · rintro ⟨position, rfl, listed⟩
    exact charts.noted.params number fact found (position, param) listed
  · rintro ⟨yield, inside, kind, spot, given, -, id, around, there⟩
    obtain ⟨other, handle, held, spot', -, params⟩ :=
      notes_of_mem_yields apart found inside (fun silent => silent.kind kind) around there
    obtain rfl := Option.some.inj (found.symm.trans held)
    obtain rfl := charts.formed.wellFormed.idAt_unique spot spot'
    obtain ⟨position, same, listed⟩ := params kind
    exact ⟨position, Option.some.inj (given.symm.trans same), listed⟩

end SourceFile

end CodeGraph

import CodeGraph.Proofs.Count
import CodeGraph.Proofs.Facts.Containment
import CodeGraph.Proofs.Facts.Noted

/-!
# Functions as linking sees them

Linking reads parameters, returning sites and callers off the graph, where calls within the file get them
from the facts that the walk has noted. In a file whose syntax nodes are apart, both come to the same
parameters and callers, and to the same returning sites but for stray ones (`Yield.Strays`): an assignment
right below a function looks as if it were returned, even if it stands in the default of a parameter. So a
call from another file gets the edges that a call from the same file gets, and one for each stray site
(`Graph.Sees`).
-/

namespace CodeGraph

/-- A yield looks like a site at which the function around it returns: it is a return statement, or an
expression right below the function. -/
def Yield.Answers (yield : Yield) : Prop :=
  yield.node.kind = .stmt ∧ yield.node.properties.text? "kind" = some "return_statement" ∨
    yield.node.kind = .expr ∧ yield.home.container = yield.home.function

instance (yield : Yield) : Decidable yield.Answers := inferInstanceAs (Decidable (_ ∨ _))

/-- A yield is stray: the function around it does not return there, but it looks as if it did. -/
def Yield.Strays (yield : Yield) : Prop := yield.Answers ∧ yield.returns = false

instance (yield : Yield) : Decidable yield.Strays := inferInstanceAs (Decidable (_ ∧ _))

theorem StatementForm.ofKind_eq_returns {kind : String} :
    ofKind kind = .returns ↔ kind = "return_statement" := by
  constructor
  · intro returns
    unfold ofKind at returns
    split at returns
    case h_5 => rfl
    case h_26 =>
      split at returns <;> cases returns
    all_goals cases returns
  · rintro rfl
    rfl

/-- A function has a stray yield. -/
def SourceFile.StraysIn (file : SourceFile) (function : String) : Prop :=
  ∃ yield ∈ file.yields, yield.Strays ∧ yield.home.function = some function

section Answers

variable {file : SourceFile} {yield : Yield}

/-- What a look yields is silent, or a parameter, or a return statement. -/
theorem Look.Owns.silent_or {look : Look} (owns : look.Owns file yield) :
    yield.Silent ∨ yield.returns = false ∧ yield.node.kind = .param ∨
      yield.returns = true ∧ yield.node.kind = .stmt ∧
        yield.node.properties.text? "kind" = some "return_statement" := by
  induction owns with
  | @here look yield inside =>
    cases look with
    | statement cursor home =>
      have inside : yield ∈ (Scheme.statement file cursor home).yields := inside
      by_cases form : StatementForm.ofKind cursor.kind = .returns
      · unfold Scheme.statement at inside
        rw [form] at inside
        obtain rfl := List.mem_singleton.1 inside
        refine .inr (.inr ⟨rfl, rfl, ?_⟩)
        rw [← StatementForm.ofKind_eq_returns.1 form]
        simp [Facts.statementNode, Node.set, Properties.text?]
        rfl
      · exact .inl ((Scheme.plain_of_not_returns form).silent yield inside)
    | loopHeader cursor home => exact .inl ((Scheme.plain_opens _).silent yield inside)
    | bind cursor home mode =>
      have inside : yield ∈ (Scheme.pattern file cursor home mode).yields := inside
      unfold Scheme.pattern at inside
      split at inside
      · cases mode with
        | assign site => cases inside
        | declare word site =>
          obtain rfl := List.mem_singleton.1 inside
          refine .inl ⟨?_, rfl, ?_⟩ <;> intro wrong <;> cases wrong
        | param position rest optional hasDefault =>
          obtain rfl := List.mem_singleton.1 inside
          exact .inr (.inl ⟨rfl, rfl⟩)
      · cases inside
    | expression cursor home hint => exact .inl ((Scheme.plain_expression hint).silent yield inside)
  | next _ _ ih => exact ih

/-- Where a look finds that a function returns, there is a return statement. -/
theorem Look.Owns.answers {look : Look} (owns : look.Owns file yield)
    (flagged : yield.returns = true) : yield.Answers := by
  rcases owns.silent_or with silent | ⟨stays, -⟩ | ⟨-, statement⟩
  · exact absurd (silent.stays.symm.trans flagged) (by decide)
  · exact absurd (stays.symm.trans flagged) (by decide)
  · exact .inl statement

theorem Entry.Owns.answers {entry : Entry} (owns : entry.Owns file yield)
    (flagged : yield.returns = true) : yield.Answers := by
  rcases owns with returned | ⟨look, -, owns⟩
  · obtain ⟨body, rfl⟩ := of_mem_yields returned
    exact .inr ⟨rfl, rfl⟩
  · exact owns.answers flagged

/-- A stray expression of a look writes. -/
theorem Look.Owns.writes {look : Look} (owns : look.Owns file yield) (strays : yield.Strays)
    (kind : yield.node.kind = .expr) : (ExpressionForm.ofKind yield.cursor.kind).Writes := by
  rcases owns.silent_or with silent | ⟨-, param⟩ | ⟨flagged, -⟩
  · exact silent.writes kind
  · exact absurd (param.symm.trans kind) (by decide)
  · exact absurd (strays.2.symm.trans flagged) (by decide)

/-- An expression that looks as if a function returned there, though it does not, is an assignment or an
update. -/
theorem SourceFile.writes_of_strays (inside : yield ∈ file.yields) (strays : yield.Strays)
    (kind : yield.node.kind = .expr) : (ExpressionForm.ofKind yield.cursor.kind).Writes := by
  obtain ⟨look, -, there⟩ := SourceFile.mem_yields.1 inside
  rcases look.owns_or_entered file there with owns | ⟨entry, -, returned | ⟨look, -, owns⟩⟩
  · exact owns.writes strays kind
  · obtain ⟨body, rfl⟩ := Entry.of_mem_yields returned
    cases strays.2
  · exact owns.writes strays kind

/-- Where a function returns, it looks as if it did. -/
theorem SourceFile.answers_of_returns (inside : yield ∈ file.yields)
    (flagged : yield.returns = true) {id : String} (around : yield.home.function = some id) :
    yield.Answers := by
  rcases (SourceFile.owned inside).2 with none | ⟨entry, -, owns⟩
  · rw [around] at none
    cases none
  · exact owns.answers flagged

end Answers

namespace Graph

variable {graph : Graph} {chart : List Yield}

/-- A site that looks as if a function returned there, though it does not. -/
def StrayAt (graph : Graph) (chart : List Yield) (function site : Nat) : Prop :=
  ∃ yield ∈ chart, yield.Strays ∧ graph.IdAt site yield.node.id ∧
    ∃ id, yield.home.function = some id ∧ graph.IdAt function id

/-- Where linking sees the parameters that are noted of a function, and the sites at which it returns with
some others, a call gets the edges for what is noted, and one for each other site. -/
theorem mem_edges_of_notes (graph : Graph) {fact : FunctionFact} {other : Nat → Prop}
    (params : ∀ position < 2 ^ 53, ∀ param,
      graph.ParamOf fact.node position param ↔ (position, param) ∈ fact.params.toList)
    (returns : ∀ site, graph.ReturnSite fact.node site ↔ site ∈ fact.returns.toList ∨ other site)
    {site : CallSite} (few : site.argumentCount ≤ 2 ^ 53) (nameOf : Nat → String)
    {connection : Connection} :
    connection ∈ site.edges nameOf ((graph.linkTables graph.parents).target fact.node) ↔
      connection ∈ site.edges nameOf
          { node := fact.node, params := fact.params.toList, returns := fact.returns.toList } ∨
        site.consumed = true ∧ ∃ returned, other returned ∧ connection =
          { source := returned, target := site.node, kind := .flow, tag := some "return"
            properties := Properties.empty.insert "via" (.text "return") } := by
  rw [CallSite.mem_edges, CallSite.mem_edges]
  constructor
  · intro yields
    cases yields with
    | call around => exact .inl (.call around)
    | result consumed => exact .inl (.result consumed)
    | returned consumed listed =>
      rcases (returns _).1 ((graph.mem_returns fact.node _).1 listed) with noted | stray
      · exact .inl (.returned consumed noted)
      · exact .inr ⟨consumed, _, stray, rfl⟩
    | argument listed less =>
      have small := Nat.lt_of_lt_of_le less few
      exact .inl (.argument ((params _ small _).1 ((graph.mem_params fact.node _ _).1 listed)) less)
  · rintro (yields | ⟨consumed, returned, there, rfl⟩)
    · cases yields with
      | call around => exact .call around
      | result consumed => exact .result consumed
      | returned consumed listed =>
        exact .returned consumed ((graph.mem_returns fact.node _).2 ((returns _).2 (.inl listed)))
      | argument listed less =>
        have small := Nat.lt_of_lt_of_le less few
        exact .argument ((graph.mem_params fact.node _ _).2 ((params _ small _).2 listed)) less
    · exact .returned consumed ((graph.mem_returns fact.node _).2 ((returns _).2 (.inr there)))

/-- Linking sees a function of the graph of a file as the fact about it does, but for stray sites. -/
structure Sees (graph : Graph) (file : SourceFile) (fact : FunctionFact) : Prop where
  /-- The parameters have their positions, as far as the numbers of properties hold these. -/
  params : ∀ position < 2 ^ 53, ∀ param,
    graph.ParamOf fact.node position param ↔ (position, param) ∈ fact.params.toList
  returns : ∀ site, graph.ReturnSite fact.node site ↔
    site ∈ fact.returns.toList ∨ graph.StrayAt file.yields fact.node site
  /-- There is a difference just if the source has a stray yield in the function. -/
  agrees : (∀ site, graph.ReturnSite fact.node site ↔ site ∈ fact.returns.toList) ↔
    ∀ id, graph.IdAt fact.node id → ¬ file.StraysIn id
  /-- A call gets the edges that one in the same file gets, and one for each stray site. -/
  edges : ∀ (site : CallSite), site.argumentCount ≤ 2 ^ 53 → ∀ nameOf connection,
    connection ∈ site.edges nameOf ((graph.linkTables graph.parents).target fact.node) ↔
      connection ∈ site.edges nameOf
          { node := fact.node, params := fact.params.toList, returns := fact.returns.toList } ∨
        site.consumed = true ∧ ∃ stray, graph.StrayAt file.yields fact.node stray ∧
          connection =
            { source := stray, target := site.node, kind := .flow, tag := some "return"
              properties := Properties.empty.insert "via" (.text "return") }

/-- What is right below a function is inside it. -/
theorem Grown.function_of_container (grown : graph.Grown chart) (told : Told chart) {yield : Yield}
    (inside : yield ∈ chart) {handle : Nat} (stands : graph.IdAt handle yield.node.id) {id : String}
    (given : yield.home.container = some id) {function : Nat} (there : graph.IdAt function id)
    (kind : graph.hasKind function .func = true) : yield.home.function = some id := by
  obtain ⟨-, -, -, rooted, -⟩ := grown.yieldAt told inside stands
  obtain ⟨owner, listed, rfl, -, around⟩ := rooted.inner id given
  obtain ⟨node, found, same, -⟩ := grown.yieldAt told listed there
  rw [hasKind, found, Option.map_some, beq_iff_eq, Option.some.injEq] at kind
  rw [around, Yield.around, if_pos (same.symm.trans kind)]

end Graph

namespace SourceFile

open Facts

variable {present : Instant} {file : SourceFile}

theorem settles_ofFile (present : Instant) (file : SourceFile) :
    (Facts.of file).graph.Settles (Graph.ofFile present file) :=
  @settles_of_mem_graphs present file _ (by simp [graphs])

theorem grown_ofFile (present : Instant) (file : SourceFile) :
    (Graph.ofFile present file).Grown file.yields :=
  (charts_of file).grown.settle (settles_ofFile present file)

/-- A node of the graph of a file is that of a yield, but for the mark of a call that reaches something. -/
theorem yield_of_node {handle : Nat} {node : Node}
    (found : (Graph.ofFile present file).nodes[handle]? = some node) :
    ∃ yield ∈ file.yields, yield.node.id = node.id ∧ yield.node.kind = node.kind ∧
      yield.node.name = node.name ∧
      ∀ key, key ≠ "resolved" → node.properties.get? key = yield.node.properties.get? key := by
  rw [Graph.nodes_ofFile] at found
  obtain ⟨old, held, marked⟩ := node_of_assemble found
  obtain ⟨yield, inside, rfl⟩ := (charts_of file).node_mem held
  rcases marked with ⟨-, rfl⟩ | ⟨call, -, rfl⟩
  · exact ⟨yield, inside, rfl, rfl, rfl, fun _ _ => rfl⟩
  · exact ⟨yield, inside, rfl, rfl, rfl, fun key other => Properties.get?_insert_of_ne _ _ other⟩

/-- The graph of a file has the node of each yield. -/
theorem exists_idAt_ofFile {id : String} (present : Instant)
    (inside : ∃ yield ∈ file.yields, yield.node.id = id) :
    ∃ handle, (Graph.ofFile present file).IdAt handle id := by
  obtain ⟨yield, listed, rfl⟩ := inside
  rcases (covered_of file).placed yield listed with ⟨handle, spot⟩ | ⟨sight, none, -⟩
  · exact ⟨handle, spot.kept (settles_ofFile present file).kept⟩
  · cases none

/-- What a fact is about is a function. -/
theorem hasKind_of_mem {fact : FunctionFact} (listed : fact ∈ (Facts.of file).functions) :
    (Graph.ofFile present file).hasKind fact.node .func = true := by
  obtain ⟨number, found⟩ := Array.mem_iff_getElem?.1 listed
  obtain ⟨node, held, kind⟩ :=
    ((sound_of file).functions number fact found).node.kept (Graph.kept_ofFile present file)
  rw [Graph.hasKind, held, Option.map_some, List.mem_singleton.1 kind]
  rfl

/-- A stray yield of a function is at a stray site. -/
theorem exists_strayAt_iff {function : Nat} {id : String}
    (there : (Graph.ofFile present file).IdAt function id) :
    (∃ site, (Graph.ofFile present file).StrayAt file.yields function site) ↔ file.StraysIn id := by
  constructor
  · rintro ⟨site, yield, inside, strays, -, other, around, here⟩
    exact ⟨yield, inside, strays, around.trans (congrArg some (here.unique there))⟩
  · rintro ⟨yield, inside, strays, around⟩
    obtain ⟨site, spot⟩ := exists_idAt_ofFile present ⟨yield, inside, rfl⟩
    exact ⟨site, yield, inside, strays, spot, id, around, there⟩

section Apart

variable (apart : file.Apart)
include apart

/-- The node of a yield in the graph of a file. -/
theorem node_of_yield {yield : Yield} (inside : yield ∈ file.yields) {handle : Nat}
    (stands : (Graph.ofFile present file).IdAt handle yield.node.id) :
    ∃ node, (Graph.ofFile present file).nodes[handle]? = some node ∧
      node.kind = yield.node.kind ∧ node.name = yield.node.name ∧
      ∀ key, key ≠ "resolved" → node.properties.get? key = yield.node.properties.get? key := by
  obtain ⟨node, found, id⟩ := stands
  obtain ⟨other, there, same, kind, name, properties⟩ := yield_of_node found
  obtain rfl := apart.told yield inside other there (id.symm.trans same.symm)
  exact ⟨node, found, kind.symm, name.symm, properties⟩

section Function

variable {function : Nat}
  (kind : (Graph.ofFile present file).hasKind function .func = true)
include kind

/-- The sites at which linking sees a function return are those of the yields inside it that look so. -/
theorem returnSite_iff {site : Nat} : (Graph.ofFile present file).ReturnSite function site ↔
    ∃ yield ∈ file.yields, yield.Answers ∧ (Graph.ofFile present file).IdAt site yield.node.id ∧
      ∃ id, yield.home.function = some id ∧ (Graph.ofFile present file).IdAt function id := by
  have grown := grown_ofFile present file
  have formed := Graph.wellFormed_ofFile present file
  constructor
  · rintro ⟨node, found, shape⟩
    obtain ⟨yield, inside, id, same, -, properties⟩ := yield_of_node found
    have stands : (Graph.ofFile present file).IdAt site yield.node.id := ⟨node, found, id.symm⟩
    rcases shape with ⟨statement, text, nearest⟩ | ⟨expression, above, -⟩
    · obtain ⟨id, around, there⟩ :=
        rel_some_left (grown.enclosingFunction? formed apart.told inside stands) nearest
      refine ⟨yield, inside, .inl ⟨same.trans statement, ?_⟩, stands, id, around, there⟩
      rw [Properties.text?, ← properties "kind" (by decide)]
      exact text
    · obtain ⟨id, container, there⟩ :=
        rel_some_left (grown.parent? formed apart.told inside stands) above
      have around := grown.function_of_container apart.told inside stands container there kind
      exact ⟨yield, inside, .inr ⟨same.trans expression, container.trans around.symm⟩, stands, id,
        around, there⟩
  · rintro ⟨yield, inside, answers, stands, id, around, there⟩
    obtain ⟨node, found, same, -, properties⟩ := node_of_yield apart inside stands
    refine ⟨node, found, ?_⟩
    rcases answers with ⟨statement, text⟩ | ⟨expression, direct⟩
    · refine .inl ⟨same.trans statement, ?_, ?_⟩
      · rw [Properties.text?, properties "kind" (by decide)]
        exact text
      · have nearest := grown.enclosingFunction? formed apart.told inside stands
        rw [around] at nearest
        exact formed.rel_unique nearest (.some there)
    · refine .inr ⟨same.trans expression, ?_, kind⟩
      have container := grown.parent? formed apart.told inside stands
      rw [direct, around] at container
      exact formed.rel_unique container (.some there)

/-- The parameters that linking sees are those of the yields right below the function. -/
theorem paramOf_iff {position param : Nat} :
    (Graph.ofFile present file).ParamOf function position param ↔ ∃ index,
      (Graph.ofFile present file).TakesAt file.yields function index param ∧
        position = index.toCount := by
  have grown := grown_ofFile present file
  have formed := Graph.wellFormed_ofFile present file
  constructor
  · rintro ⟨node, index, found, parameter, above, given, rfl⟩
    obtain ⟨yield, inside, id, same, -, properties⟩ := yield_of_node found
    have stands : (Graph.ofFile present file).IdAt param yield.node.id := ⟨node, found, id.symm⟩
    obtain ⟨id, container, there⟩ :=
      rel_some_left (grown.parent? formed apart.told inside stands) above
    have around := grown.function_of_container apart.told inside stands container there kind
    refine ⟨index, ⟨yield, inside, same.trans parameter, stands, ?_, container.trans around.symm, id,
      around, there⟩, rfl⟩
    rw [Properties.number?, ← properties "index" (by decide)]
    exact given
  · rintro ⟨index, ⟨yield, inside, parameter, stands, given, direct, id, around, there⟩, rfl⟩
    obtain ⟨node, found, same, -, properties⟩ := node_of_yield apart inside stands
    refine ⟨node, index, found, same.trans parameter, ?_, ?_, rfl⟩
    · have container := grown.parent? formed apart.told inside stands
      rw [direct, around] at container
      exact formed.rel_unique container (.some there)
    · rw [Properties.number?, properties "index" (by decide)]
      exact given

end Function

/-- There is a fact about each function that a yield is in. -/
theorem exists_fact {yield : Yield} (inside : yield ∈ file.yields) {id : String}
    (around : yield.home.function = some id) :
    ∃ fact ∈ (Facts.of file).functions, (Graph.ofFile present file).IdAt fact.node id := by
  rcases (SourceFile.owned inside).2 with none | ⟨entry, ⟨kind, owner, listed, -, same⟩, owns⟩
  · rw [around] at none
    cases none
  · obtain ⟨handle, there⟩ := exists_idAt_ofFile present ⟨owner, listed, rfl⟩
    obtain ⟨node, found, alike, -⟩ := node_of_yield apart listed there
    obtain ⟨fact, noted, rfl, -⟩ := function_of_node found (alike.trans (same ▸ kind))
    have named : id = owner.node.id := by
      rw [same]
      exact Option.some.inj (around.symm.trans owns.around)
    exact ⟨fact, noted, named ▸ there⟩

/-- The sites at which linking sees a function return are those of the fact about it, and stray ones. -/
theorem returnSite_iff_of_mem {fact : FunctionFact} (listed : fact ∈ (Facts.of file).functions)
    {site : Nat} : (Graph.ofFile present file).ReturnSite fact.node site ↔
      site ∈ fact.returns.toList ∨
        (Graph.ofFile present file).StrayAt file.yields fact.node site := by
  obtain ⟨number, found⟩ := Array.mem_iff_getElem?.1 listed
  rw [returnSite_iff apart (hasKind_of_mem listed), mem_returns_iff apart found]
  simp only [Graph.ReturnsAt, ← (settles_ofFile present file).idAt_iff]
  constructor
  · rintro ⟨yield, inside, answers, rest⟩
    cases flag : yield.returns with
    | true => exact .inl ⟨yield, inside, flag, rest⟩
    | false => exact .inr ⟨yield, inside, ⟨answers, flag⟩, rest⟩
  · rintro (⟨yield, inside, flag, spot, id, around, there⟩ | ⟨yield, inside, strays, rest⟩)
    · exact ⟨yield, inside, answers_of_returns inside flag around, spot, id, around, there⟩
    · exact ⟨yield, inside, strays.1, rest⟩

/-- No site that is noted is stray. -/
theorem not_strayAt_of_mem {fact : FunctionFact} (listed : fact ∈ (Facts.of file).functions)
    {site : Nat} (inside : site ∈ fact.returns.toList) :
    ¬ (Graph.ofFile present file).StrayAt file.yields fact.node site := by
  obtain ⟨number, found⟩ := Array.mem_iff_getElem?.1 listed
  obtain ⟨yield, there, flag, spot, -⟩ := (mem_returns_iff apart found).1 inside
  rintro ⟨other, there', strays, spot', -⟩
  have same := (spot.kept (settles_ofFile present file).kept).unique spot'
  obtain rfl := apart.told yield there other there' same
  rw [strays.2] at flag
  cases flag

/-- The parameters that linking sees are those of the fact, at positions that numbers hold exactly. -/
theorem paramOf_iff_of_mem {fact : FunctionFact} (listed : fact ∈ (Facts.of file).functions)
    {position param : Nat} (small : position < 2 ^ 53) :
    (Graph.ofFile present file).ParamOf fact.node position param ↔
      (position, param) ∈ fact.params.toList := by
  obtain ⟨number, found⟩ := Array.mem_iff_getElem?.1 listed
  have noted : ∀ index : Binary64,
      (Graph.ofFile present file).TakesAt file.yields fact.node index param ↔
        ∃ other, index = .ofNat other ∧ (other, param) ∈ fact.params.toList := by
    intro index
    rw [mem_params_iff apart found]
    simp only [Graph.TakesAt, (settles_ofFile present file).idAt_iff]
  rw [paramOf_iff apart (hasKind_of_mem listed)]
  constructor
  · rintro ⟨index, takes, same⟩
    obtain ⟨other, rfl, inside⟩ := (noted index).1 takes
    obtain rfl := (Binary64.toCount_ofNat_eq_iff small).1 same.symm
    exact inside
  · intro inside
    exact ⟨_, (noted _).2 ⟨position, rfl, inside⟩, (Binary64.toCount_ofNat small).symm⟩

theorem sees_of_mem {fact : FunctionFact} (listed : fact ∈ (Facts.of file).functions) :
    (Graph.ofFile present file).Sees file fact := by
  let graph := Graph.ofFile present file
  have params : ∀ position < 2 ^ 53, ∀ param, graph.ParamOf fact.node position param ↔
      (position, param) ∈ fact.params.toList :=
    fun position small param => paramOf_iff_of_mem apart listed small
  have returns : ∀ site, graph.ReturnSite fact.node site ↔
      site ∈ fact.returns.toList ∨ graph.StrayAt file.yields fact.node site :=
    fun site => returnSite_iff_of_mem apart listed
  refine ⟨params, returns, ⟨fun same id there strays => ?_, fun none site => ?_⟩,
    fun site few nameOf connection => graph.mem_edges_of_notes params returns few nameOf⟩
  · obtain ⟨site, stray⟩ := (exists_strayAt_iff there).2 strays
    exact not_strayAt_of_mem apart listed ((same site).1 ((returns site).2 (.inr stray))) stray
  · refine (returns site).trans (or_iff_left fun stray => ?_)
    obtain ⟨yield, inside, strays, -, id, around, there⟩ := stray
    exact none id there ⟨yield, inside, strays, around⟩

/-- The nearest function around a call is the caller that is noted. -/
theorem caller_of_mem {call : CallFact} (listed : call ∈ (Facts.of file).calls) :
    (Graph.ofFile present file).enclosingFunction? call.node = call.caller := by
  have settles := settles_ofFile present file
  obtain ⟨number, found⟩ := Array.mem_iff_getElem?.1 listed
  obtain ⟨function, caller, yield, inside, stands, around⟩ :=
    (charts_of file).noted.callers number call found
  have nearest := (grown_ofFile present file).enclosingFunction? settles.formed apart.told inside
    (stands.kept settles.kept)
  rw [around] at nearest
  exact settles.formed.rel_unique nearest
    (rel_imp (fun _ _ there => there.kept settles.kept) caller)

/-- In a file whose syntax nodes are apart, linking sees parameters and callers as the walk has noted them,
and the sites at which functions return but for stray ones. Stray expressions are assignments and
updates. -/
theorem linking_sees_facts (present : Instant) :
    (∀ handle node, (Graph.ofFile present file).nodes[handle]? = some node → node.kind = .func →
      ∃ fact ∈ (Facts.of file).functions,
        (Facts.of file).function? handle = some fact ∧ fact.node = handle) ∧
      (∀ fact ∈ (Facts.of file).functions, (Graph.ofFile present file).Sees file fact) ∧
      (∀ yield ∈ file.yields, yield.Strays → yield.node.kind = .expr →
        (ExpressionForm.ofKind yield.cursor.kind).Writes) ∧
      ∀ call ∈ (Facts.of file).calls,
        (Graph.ofFile present file).enclosingFunction? call.node = call.caller := by
  refine ⟨fun handle node found kind => ?_, fun fact => sees_of_mem apart,
    fun yield => writes_of_strays, fun call => caller_of_mem apart⟩
  obtain ⟨named, listed, same, -⟩ := function_of_node found kind
  obtain ⟨fact, known, here⟩ := (recorded_of file).function?
    ⟨named.signature, List.mem_map_of_mem (Array.mem_toList_iff.2 listed), same⟩
  obtain ⟨number, -, held⟩ := Option.bind_eq_some_iff.1 known
  exact ⟨fact, Array.mem_of_getElem? held, known, here⟩

end Apart

/-- In a file without stray yields linking sees a function and its call of itself as the walk does. -/
theorem retrying_seen : retrying.Apart ∧
    ∃ fact call, (Facts.of retrying).functions[0]? = some fact ∧
      (Facts.of retrying).calls[0]? = some call ∧
      (∀ site, (Graph.ofFile .epoch retrying).ReturnSite fact.node site ↔
        site ∈ fact.returns.toList) ∧
      (Graph.ofFile .epoch retrying).enclosingFunction? call.node = call.caller := by
  obtain ⟨-, functions, -, calls⟩ := linking_sees_facts retrying_apart .epoch
  have one : 0 < (Facts.of retrying).functions.size := by decide +kernel
  have once : 0 < (Facts.of retrying).calls.size := by decide +kernel
  have none : ∀ yield ∈ retrying.yields, ¬ yield.Strays := by decide +kernel
  refine ⟨retrying_apart, _, _, Array.getElem?_eq_getElem one, Array.getElem?_eq_getElem once,
    (functions _ (Array.getElem_mem one)).agrees.2 fun id _ strays => ?_,
    calls _ (Array.getElem_mem once)⟩
  obtain ⟨yield, inside, stray, -⟩ := strays
  exact none yield inside stray

/-- A file with the tree of `function f(a = b = 1) {}`. -/
def defaulting : SourceFile where
  path := ⟨"a.ts"⟩
  source := .ofString "function f(a = b = 1) \x7b\x7d"
  tree :=
    let node (kind : String) (field : Option String) (start stop : Nat) (children : List Tree) :=
      Tree.node { kind, field, start, stop, named := true } children
    node "program" none 0 24 [node "function_declaration" none 0 24 [
      node "identifier" (some "name") 9 10 [],
      node "formal_parameters" (some "parameters") 10 21 [node "required_parameter" none 11 20 [
        node "identifier" (some "pattern") 11 12 [],
        node "assignment_expression" (some "value") 15 20 [
          node "identifier" (some "left") 15 16 [],
          node "number" (some "right") 19 20 []]]],
      node "statement_block" (some "body") 22 24 []]]

/-- Linking takes the assignment in the default of a parameter for a site at which the function returns. -/
theorem defaulting_returns : defaulting.Apart ∧
    ∃ fact ∈ (Facts.of defaulting).functions, ∃ site,
      (Graph.ofFile .epoch defaulting).ReturnSite fact.node site ∧ site ∉ fact.returns.toList := by
  have apart : defaulting.Apart := by decide +kernel
  obtain ⟨yield, inside, strays, some_⟩ : ∃ yield ∈ defaulting.yields,
      yield.Strays ∧ yield.home.function.isSome = true := by decide +kernel
  obtain ⟨id, around⟩ := Option.isSome_iff_exists.1 some_
  obtain ⟨fact, listed, there⟩ := @exists_fact .epoch defaulting apart yield inside id around
  obtain ⟨site, stray⟩ := (exists_strayAt_iff there).2 ⟨yield, inside, strays, around⟩
  exact ⟨apart, fact, listed, site, (returnSite_iff_of_mem apart listed).2 (.inr stray),
    fun noted => not_strayAt_of_mem apart listed noted stray⟩

end SourceFile

end CodeGraph

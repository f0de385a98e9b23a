import CodeGraph.Proofs.Calls.Returns
import CodeGraph.Proofs.Flow.Simple

/-!
# Reads get the last write

In a simple body a read of a name gets the last write before it, of the variable that the name stands for
(`SourceFile.Apart.hasEdge_flow_iff`). Two things make this differ from the text. A name stands for its
*first* declaration in the body: a later one makes a variable of its own, to which no name leads
(`SourceFile.Apart.redeclared_flow`). And what a class does happens at the entry of the body, before all
statements, wherever the class stands (`SourceFile.Apart.module_flow`).
-/

namespace CodeGraph

/-! ## Lists of lists -/

/-- An element of a list of lists in a row is one of some list, behind all lists before it. -/
theorem flatMap_eq_append_cons_iff {α β : Type} {f : α → List β} {items : List α} {before after : List β}
    {x : β} : items.flatMap f = before ++ x :: after ↔
      ∃ front item back pre post, items = front ++ item :: back ∧ f item = pre ++ x :: post ∧
        before = front.flatMap f ++ pre ∧ after = post ++ back.flatMap f := by
  constructor
  · intro whole
    induction items generalizing before with
    | nil => simp at whole
    | cons item rest ih =>
      have later : ∀ middle, before = f item ++ middle → rest.flatMap f = middle ++ x :: after →
          ∃ front other back pre post, item :: rest = front ++ other :: back ∧
            f other = pre ++ x :: post ∧ before = front.flatMap f ++ pre ∧
            after = post ++ back.flatMap f := by
        intro middle split rest'
        obtain ⟨front, other, back, pre, post, rfl, here, rfl, behind⟩ := ih rest'
        exact ⟨item :: front, other, back, pre, post, rfl, here,
          by rw [split, List.flatMap_cons, List.append_assoc], behind⟩
      rw [List.flatMap_cons] at whole
      rcases List.append_eq_append_iff.1 whole with ⟨middle, split, rest'⟩ | ⟨middle, split, rest'⟩
      · exact later middle split rest'
      · cases middle with
        | nil => exact later [] (by rw [split, List.append_nil, List.append_nil]) rest'.symm
        | cons y middle =>
          obtain ⟨rfl, rfl⟩ := List.cons.inj rest'
          exact ⟨[], item, rest, before, middle, rfl, split, rfl, rfl⟩
  · rintro ⟨front, item, back, pre, post, rfl, here, rfl, rfl⟩
    simp [here]

/-- An element that a filter keeps stands in the whole list. -/
theorem filter_eq_append_cons_iff {α : Type} {p : α → Bool} {items front back : List α} {item : α} :
    items.filter p = front ++ item :: back ↔
      ∃ earlier later, items = earlier ++ item :: later ∧ earlier.filter p = front ∧ p item = true ∧
        later.filter p = back := by
  constructor
  · intro whole
    obtain ⟨earlier, rest, rfl, rfl, split⟩ := List.filter_eq_append_iff.1 whole
    obtain ⟨dropped, later, rfl, none, keeps, rfl⟩ := List.filter_eq_cons_iff.1 split
    refine ⟨earlier ++ dropped, later, by simp, ?_, keeps, rfl⟩
    rw [List.filter_append, List.filter_eq_nil_iff.2 none, List.append_nil]
  · rintro ⟨earlier, later, rfl, rfl, keeps, rfl⟩
    simp [keeps]

namespace Mention

variable {name : String} {fewer more : List String} {mentions : List Mention}

theorem writes_mono (within : fewer ⊆ more) {mention : Mention} (writes : mention.writes name fewer = true) :
    mention.writes name more = true := by
  obtain ⟨kind, named | ⟨id, inside, subject⟩⟩ := writes_iff.1 writes
  · exact writes_iff.2 ⟨kind, .inl named⟩
  · exact writes_iff.2 ⟨kind, .inr ⟨id, within inside, subject⟩⟩

/-- The last write of several variables is the last one of some of them if it is of these. -/
theorem lastWrite?_of_writes (within : fewer ⊆ more) {write : Mention}
    (last : lastWrite? name more mentions = some write) (writes : write.writes name fewer = true) :
    lastWrite? name fewer mentions = some write := by
  induction mentions with
  | nil => cases last
  | cons mention rest ih =>
    rw [lastWrite?] at last ⊢
    rcases Option.or_eq_some_iff.1 last with later | ⟨none_, here⟩
    · rw [ih later, Option.some_or]
    · have none : lastWrite? name fewer rest = none := by
        refine lastWrite?_eq_none_iff.2 fun other inside => Bool.eq_false_iff.2 fun written => ?_
        have not := lastWrite?_eq_none_iff.1 none_ other inside
        exact absurd (writes_mono within written) (by rw [not]; decide)
      obtain ⟨-, same⟩ := Option.ite_none_right_eq_some.1 here
      obtain rfl := Option.some.inj same
      rw [none, Option.none_or, if_pos writes]

/-- A read stands at some place of a list, behind all that is in front of it. -/
theorem readAfter_iff_take {site : String} {before : List Mention} :
    ReadAfter name site before mentions ↔
      ∃ place, mentions[place]? = some (read name site) ∧ before = mentions.take place := by
  constructor
  · rintro ⟨after, rfl⟩
    exact ⟨before.length, by simp, by simp⟩
  · rintro ⟨place, found, rfl⟩
    obtain ⟨less, here⟩ := List.getElem?_eq_some_iff.1 found
    refine ⟨mentions.drop (place + 1), ?_⟩
    rw [← here, ← List.drop_eq_getElem_cons less, List.take_append_drop]

end Mention

/-! ## What a body declares -/

namespace SourceFile

/-- The names that a body declares, each with the id of its variable or parameter, in the order of the walk. -/
def declaredIn (file : SourceFile) (body : Option Entry) : List (String × String) :=
  (file.looksIn body).flatMap (Look.declarations file)

/-- The ids of all variables and parameters that a body declares under a name. -/
def idsIn (file : SourceFile) (body : Option Entry) (name : String) : List String :=
  (file.declaredIn body).filterMap fun entry => if entry.1 = name then some entry.2 else none

theorem mem_declaredIn_of_lookup {file : SourceFile} {body : Option Entry} {name id : String}
    (declares : (file.declaredIn body).lookup name = some id) : (name, id) ∈ file.declaredIn body := by
  obtain ⟨front, back, split, -⟩ := List.lookup_eq_some_iff.1 declares
  rw [split]
  simp

end SourceFile

namespace Look

open Facts

variable {file : SourceFile}

/-- What a look declares in its own function is a yield there. -/
theorem exists_yield_of_declares {look : Look} {name id : String}
    (inside : (name, id) ∈ look.declarations file) :
    ∃ yield ∈ look.yields file, yield.node.id = id ∧ yield.home.function = look.home.function := by
  rw [declarations, gather_eq, List.mem_append] at inside
  rcases inside with here | follows
  · cases look with
    | statement cursor home => cases here
    | loopHeader cursor home => cases here
    | expression cursor home hint => cases here
    | bind cursor home mode =>
      simp only [declared] at here
      split at here
      · next form =>
        have puts : ∀ node : Node, Scheme.pattern file cursor home mode = { yields := home.puts cursor node } →
            ∃ yield ∈ (Look.bind cursor home mode).yields file, yield.node.id = node.id ∧
              yield.home.function = home.function := by
          intro node same
          refine ⟨⟨cursor, node, home, false⟩, mem_yields.2 (.inl (List.mem_append_left _ ?_)), rfl, rfl⟩
          show _ ∈ (Scheme.pattern file cursor home mode).yields
          rw [same]
          exact List.mem_singleton_self _
        cases mode with
        | assign site => cases here
        | declare word site =>
          obtain ⟨-, rfl⟩ := Prod.mk.inj (List.mem_singleton.1 here)
          exact puts _ (if_pos form)
        | param position rest optional hasDefault =>
          obtain ⟨-, rfl⟩ := Prod.mk.inj (List.mem_singleton.1 here)
          exact puts _ (if_pos form)
      · cases here
  · obtain ⟨next, listed, there⟩ := List.mem_flatMap.1 follows
    have lighter := weight_lt_of_mem_inside listed
    obtain ⟨yield, within, same, function⟩ := exists_yield_of_declares there
    refine ⟨yield, mem_yields.2 (.inr ⟨next, ?_, within⟩), same,
      function.trans ((look.fits file).looks next listed)⟩
    rcases List.mem_append.1 listed with follows | again
    · exact List.mem_append_left _ (List.mem_append_left _ follows)
    · exact List.mem_append_right _ again
termination_by look.weight

end Look

namespace Facts

variable {file : SourceFile} {number handle source target : Nat} {body : Option Entry}
  {name id : String}

theorem IsBody.lt (isBody : (Facts.of file).IsBody file number body) :
    number < (Facts.of file).regions.size := by
  have size := (charts_of file).size_regions
  cases body with
  | none =>
    obtain rfl : number = 0 := isBody
    omega
  | some entry =>
    obtain ⟨-, place, rfl, signature, listed, -⟩ := isBody
    have less := (List.getElem?_eq_some_iff.1 listed).1
    rw [signatures, List.length_map, Array.length_toList] at less
    omega

/-- A name that a simple body declares stands for its first declaration there. -/
theorem standsFor_of_declares (told : Told file.yields) (simple : file.Simple body)
    (declares : (file.declaredIn body).lookup name = some id) :
    (Facts.of file).StandsFor file body name id := by
  intro number scope isBody top
  obtain ⟨last, scope', same, recitation⟩ := exists_recitation told simple isBody isBody.lt
  rw [same] at top ⊢
  obtain rfl := Option.some.inj (recitation.top.symm.trans top)
  obtain ⟨handle, first, spot⟩ := rel_some_right (recitation.lists name) declares
  exact ⟨handle, Scopes.resolveVariable_of_variableIn? first, spot⟩

/-- Nothing enters the module from outside: its own variables are not live before it begins. -/
theorem not_entersBody_module (told : Told file.yields)
    (declares : (file.declaredIn none).lookup name = some id)
    (plain : ∃ yield ∈ file.yields, yield.node.id = id ∧ yield.node.kind = .var) :
    ¬ (Facts.of file).EntersBody file none id source := by
  rintro ⟨number, handle, isBody, spot, region, found, live⟩
  obtain rfl : number = 0 := isBody
  rcases live with ⟨param, -⟩ | ⟨-, ⟨owner, owned, other⟩, -⟩
  · -- Its id tells that the variable is no parameter.
    obtain ⟨yield, inside, rfl, kind⟩ := plain
    have var := (charts_of file).formed.kind_of_yield inside spot
    rw [kind] at var
    exact var.apart (by decide) (((sound_of file).regions 0 region found).params handle param)
  · -- The region in which it is declared has no owner, and this one alone has none.
    obtain ⟨yield, inside, there, function, owns, around⟩ := (located_of file).owned handle owner owned
    obtain ⟨look, listed, declared⟩ :=
      List.mem_flatMap.1 (SourceFile.mem_declaredIn_of_lookup declares)
    obtain ⟨yield', inside', same, home⟩ := Look.exists_yield_of_declares declared
    obtain rfl := told yield inside yield' (SourceFile.mem_yields.2 ⟨look, listed, inside'⟩)
      ((there.unique spot).trans same.symm)
    obtain ⟨task, -, rfl⟩ := List.mem_map.1 listed
    have outside : yield.home.function = none := by
      rw [home]
      cases task <;> rfl
    rw [outside] at around
    cases around with
    | none =>
      cases owner with
      | zero => exact other rfl
      | succ place =>
        rw [owners, List.getElem?_cons_succ, List.getElem?_map] at owns
        obtain ⟨signature, -, none_⟩ := Option.map_eq_some_iff.1 owns
        cases none_

/-! ## The edges of the graph -/

/-- The edges of calls are tagged with what they bring, or lead to parameters. -/
theorem tag_of_callFlows {target : Nat} {name : String}
    (asked : Graph.Asked (Facts.of file).callFlows .flow source target (some name)) :
    name = "result" ∨ name = "return" ∨ (Facts.of file).graph.KindIn target [.param] := by
  obtain ⟨connection, inside, kind, -, rfl, tag⟩ := asked
  rcases List.mem_append.1 inside with result | call
  · obtain ⟨fact, -, here⟩ := List.mem_flatMap.1 result
    obtain ⟨consumer, -, rfl⟩ := List.mem_map.1 here
    exact .inl (Option.some.inj tag).symm
  · obtain ⟨fact, -, here⟩ := List.mem_flatMap.1 call
    obtain ⟨target, reached, here⟩ := List.mem_flatMap.1 here
    obtain ⟨node, -, offered⟩ := List.mem_filterMap.1 reached
    obtain ⟨function, known, rfl⟩ := Option.map_eq_some_iff.1 offered
    obtain ⟨number, -, stood⟩ := Option.bind_eq_some_iff.1 known
    cases CallSite.mem_edges.1 here with
    | call _ => cases kind
    | result _ => cases kind
    | returned _ _ => exact .inr (.inl (Option.some.inj tag).symm)
    | argument listed _ =>
      exact .inr (.inr (((sound_of file).functions number function stood).params _ listed))

end Facts

namespace SourceFile

open Facts

variable {file : SourceFile} {body : Option Entry} {name id site : String} {target : Nat}

/-- Reads are at no parameters. -/
theorem Apart.not_param_of_read (apart : file.Apart) (has : file.HasBody body) (simple : file.Simple body)
    (stands : (Facts.of file).StandsFor file body name id) (spot : (Facts.of file).graph.IdAt target site)
    (read : ∃ before, Mention.ReadAfter name site before (file.mentionsIn body)) :
    ¬ (Facts.of file).graph.KindIn target [.param] := by
  obtain ⟨number, less, isBody⟩ := exists_isBody has
  obtain ⟨before, behind⟩ := read
  obtain ⟨access, there, rfl⟩ := isBody.exists_access apart.told simple less stands spot behind
  obtain ⟨region, found, inside⟩ := mem_accessesIn.1 there
  have held := ((sound_of file).regions number region found).accesses access inside
  exact held.site.apart (by cases access.kind <;> decide)

/-- In the graph of a file a read of a name in a simple body gets the last write before it of the variable that
the name stands for, or what enters the body if there is none, and otherwise only what a call brings. -/
theorem Apart.hasEdge_flow_or (apart : file.Apart) (present : Instant) (has : file.HasBody body)
    (simple : file.Simple body) (stands : (Facts.of file).StandsFor file body name id)
    (spot : (Graph.ofFile present file).IdAt target site)
    (read : ∃ before, Mention.ReadAfter name site before (file.mentionsIn body)) (source : Nat) :
    (Graph.ofFile present file).HasEdge .flow source target (some name) ↔
      (source ≠ target ∧ ∃ before, Mention.ReadAfter name site before (file.mentionsIn body) ∧
        ((∃ write, Mention.lastWrite? name [id] before = some write ∧
            write.At (Graph.ofFile present file) source) ∨
          Mention.lastWrite? name [id] before = none ∧
            (Facts.of file).EntersBody file body id source)) ∨
        Graph.Asked (Facts.of file).callFlows .flow source target (some name) := by
  have settles : (Facts.of file).graph.Settles (Graph.ofFile present file) :=
    @settles_of_mem_graphs present file _ (by simp [graphs])
  have same : ∀ write : Mention, write.At (Graph.ofFile present file) source ↔
      write.At (Facts.of file).graph source := fun write =>
    exists_congr fun _ => and_congr_right fun _ => settles.idAt_iff
  rw [hasEdge_flow, apart.flows_iff has simple stands (settles.idAt_iff.1 spot) read]
  simp only [same]

/-- Edges of calls have other tags. -/
theorem Apart.hasEdge_flow_iff (apart : file.Apart) (present : Instant) (has : file.HasBody body)
    (simple : file.Simple body) (stands : (Facts.of file).StandsFor file body name id)
    (other : name ≠ "result" ∧ name ≠ "return") (spot : (Graph.ofFile present file).IdAt target site)
    (read : ∃ before, Mention.ReadAfter name site before (file.mentionsIn body)) (source : Nat) :
    (Graph.ofFile present file).HasEdge .flow source target (some name) ↔ source ≠ target ∧
      ∃ before, Mention.ReadAfter name site before (file.mentionsIn body) ∧
        ((∃ write, Mention.lastWrite? name [id] before = some write ∧
            write.At (Graph.ofFile present file) source) ∨
          Mention.lastWrite? name [id] before = none ∧
            (Facts.of file).EntersBody file body id source) := by
  have settles : (Facts.of file).graph.Settles (Graph.ofFile present file) :=
    @settles_of_mem_graphs present file _ (by simp [graphs])
  have noCall : ¬ Graph.Asked (Facts.of file).callFlows .flow source target (some name) := by
    intro asked
    rcases tag_of_callFlows asked with result | returned | param
    · exact other.1 result
    · exact other.2 returned
    · exact apart.not_param_of_read has simple stands (settles.idAt_iff.1 spot) read param
  exact (apart.hasEdge_flow_or present has simple stands spot read source).trans (or_iff_left noCall)

/-! ## Names that are declared again -/

/-- What a read of a name gets in a simple body: the last write before it under the name, or by the
declaration that the name stands for. A later declaration of the name is no write of it. So the last write of
all is what the read gets just where no such declaration has come last. -/
theorem Apart.redeclared_flow (apart : file.Apart) (present : Instant) (has : file.HasBody body)
    (simple : file.Simple body) (stands : (Facts.of file).StandsFor file body name id)
    (other : name ≠ "result" ∧ name ≠ "return") (spot : (Graph.ofFile present file).IdAt target site)
    (read : ∃ before, Mention.ReadAfter name site before (file.mentionsIn body)) :
    (∀ source, (Graph.ofFile present file).HasEdge .flow source target (some name) ↔ source ≠ target ∧
      ∃ before, Mention.ReadAfter name site before (file.mentionsIn body) ∧
        ((∃ write, Mention.lastWrite? name [id] before = some write ∧
            write.At (Graph.ofFile present file) source) ∨
          Mention.lastWrite? name [id] before = none ∧
            (Facts.of file).EntersBody file body id source)) ∧
    ((∀ before, Mention.ReadAfter name site before (file.mentionsIn body) →
        ∃ write, Mention.lastWrite? name (id :: file.idsIn body name) before = some write ∧
          write.writes name [id] = true) →
      ∀ source, (Graph.ofFile present file).HasEdge .flow source target (some name) ↔ source ≠ target ∧
        ∃ before write, Mention.ReadAfter name site before (file.mentionsIn body) ∧
          Mention.lastWrite? name (id :: file.idsIn body name) before = some write ∧
          write.At (Graph.ofFile present file) source) := by
  have flow := apart.hasEdge_flow_iff present has simple stands other spot read
  refine ⟨flow, fun latest source => (flow source).trans (and_congr_right fun _ => ?_)⟩
  refine exists_congr fun before => ?_
  rw [exists_and_left]
  refine and_congr_right fun behind => ?_
  obtain ⟨write, last, writes⟩ := latest before behind
  have only := Mention.lastWrite?_of_writes (List.cons_subset_cons id (List.nil_subset _)) last writes
  simp only [only, last, reduceCtorEq, false_and, or_false]

/-- A file with two declarations and a call, as in `var x = 1; var y = 2; f(x);`. -/
def declaring (kind source : String) : SourceFile where
  path := ⟨"a.ts"⟩
  source := .ofString source
  tree :=
    let node (kind : String) (field : Option String) (start stop : Nat) (children : List Tree) :=
      Tree.node { kind, field, start, stop, named := true } children
    node "program" none 0 27 [
      node kind none 0 10 [node "variable_declarator" none 4 9 [
        node "identifier" (some "name") 4 5 [],
        node "number" (some "value") 8 9 []]],
      node kind none 11 21 [node "variable_declarator" none 15 20 [
        node "identifier" (some "name") 15 16 [],
        node "number" (some "value") 19 20 []]],
      node "expression_statement" none 22 27 [node "call_expression" none 22 26 [
        node "identifier" (some "function") 22 23 [],
        node "arguments" (some "arguments") 23 26 [node "identifier" none 24 25 []]]]]

/-- Another variable is declared before `x` is read. -/
def declaringOther : SourceFile := declaring "variable_declaration" "var x = 1; var y = 2; f(x);"

/-- The same variable is declared again before it is read. -/
def declaringAgain : SourceFile := declaring "variable_declaration" "var x = 1; var x = 2; f(x);"

/-- What both declarations write, and what the call reads. -/
def twoWrites : List Mention :=
  [{ kind := .write, subject := .node "a.ts:variable:4-5", site := some "a.ts:statement:0-10" },
   { kind := .write, subject := .node "a.ts:variable:15-16", site := some "a.ts:statement:11-21" },
   .read "f" "a.ts:call:22-26", .read "x" "a.ts:call:22-26"]

/-- The call reads `x` behind both declarations. -/
theorem readAfter_twoWrites {before : List Mention} :
    Mention.ReadAfter "x" "a.ts:call:22-26" before twoWrites ↔ before = twoWrites.take 3 := by
  have last : ∀ place < 4, twoWrites[place]? = some (.read "x" "a.ts:call:22-26") → place = 3 := by decide
  rw [Mention.readAfter_iff_take]
  constructor
  · rintro ⟨place, found, rfl⟩
    rw [last place (List.getElem?_eq_some_iff.1 found).1 found]
  · rintro rfl
    exact ⟨3, rfl, rfl⟩

/-- The call gets what the first declaration has written. -/
theorem declaringOther_flow : declaringOther.Apart ∧ declaringOther.Simple none ∧
    ∃ source target, (Graph.ofFile .epoch declaringOther).IdAt source "a.ts:statement:0-10" ∧
      (Graph.ofFile .epoch declaringOther).IdAt target "a.ts:call:22-26" ∧
      (Graph.ofFile .epoch declaringOther).HasEdge .flow source target (some "x") := by
  have apart : declaringOther.Apart := by decide +kernel
  have simple : declaringOther.Simple none := ⟨nofun, by decide +kernel⟩
  have has : declaringOther.HasBody none := trivial
  have stands := standsFor_of_declares apart.told simple
    (show (declaringOther.declaredIn none).lookup "x" = some "a.ts:variable:4-5" by decide +kernel)
  have mentions : declaringOther.mentionsIn none = twoWrites := by decide +kernel
  have ids : declaringOther.idsIn none "x" = ["a.ts:variable:4-5"] := by decide +kernel
  obtain ⟨source, start⟩ := @exists_idAt_ofFile declaringOther "a.ts:statement:0-10" .epoch
    (by decide +kernel)
  obtain ⟨target, spot⟩ := @exists_idAt_ofFile declaringOther "a.ts:call:22-26" .epoch
    (by decide +kernel)
  have read : ∃ before, Mention.ReadAfter "x" "a.ts:call:22-26" before (declaringOther.mentionsIn none) :=
    ⟨_, mentions ▸ readAfter_twoWrites.2 rfl⟩
  obtain ⟨-, latest⟩ := apart.redeclared_flow .epoch has simple stands (by decide) spot read
  simp only [mentions, ids, readAfter_twoWrites] at latest
  refine ⟨apart, simple, source, target, start, spot,
    (latest ?_ source).2 ⟨?_, _, _, rfl, rfl, _, rfl, start⟩⟩
  · rintro _ rfl
    exact ⟨_, rfl, by decide⟩
  · rintro rfl
    exact absurd (start.unique spot) (by decide)

/-- The call gets what the first declaration has written, although the second one comes last. -/
theorem declaringAgain_flow : declaringAgain.Apart ∧ declaringAgain.Simple none ∧
    (declaringAgain.declaredIn none).lookup "x" = some "a.ts:variable:4-5" ∧
    ∃ stale source target before write,
      (Graph.ofFile .epoch declaringAgain).IdAt stale "a.ts:statement:0-10" ∧
      (Graph.ofFile .epoch declaringAgain).IdAt target "a.ts:call:22-26" ∧ source ≠ target ∧
      Mention.ReadAfter "x" "a.ts:call:22-26" before (declaringAgain.mentionsIn none) ∧
      Mention.lastWrite? "x" (declaringAgain.idsIn none "x") before = some write ∧
      write.At (Graph.ofFile .epoch declaringAgain) source ∧
      ¬ (Graph.ofFile .epoch declaringAgain).HasEdge .flow source target (some "x") ∧
      (Graph.ofFile .epoch declaringAgain).HasEdge .flow stale target (some "x") := by
  have apart : declaringAgain.Apart := by decide +kernel
  have simple : declaringAgain.Simple none := ⟨nofun, by decide +kernel⟩
  have has : declaringAgain.HasBody none := trivial
  have declares : (declaringAgain.declaredIn none).lookup "x" = some "a.ts:variable:4-5" := by
    decide +kernel
  have mentions : declaringAgain.mentionsIn none = twoWrites := by decide +kernel
  have ids : declaringAgain.idsIn none "x" = ["a.ts:variable:4-5", "a.ts:variable:15-16"] := by
    decide +kernel
  obtain ⟨stale, first⟩ := @exists_idAt_ofFile declaringAgain "a.ts:statement:0-10" .epoch
    (by decide +kernel)
  obtain ⟨source, start⟩ := @exists_idAt_ofFile declaringAgain "a.ts:statement:11-21" .epoch
    (by decide +kernel)
  obtain ⟨target, spot⟩ := @exists_idAt_ofFile declaringAgain "a.ts:call:22-26" .epoch
    (by decide +kernel)
  have read : ∃ before, Mention.ReadAfter "x" "a.ts:call:22-26" before (declaringAgain.mentionsIn none) :=
    ⟨_, mentions ▸ readAfter_twoWrites.2 rfl⟩
  have flow := apart.hasEdge_flow_iff .epoch has simple (standsFor_of_declares apart.told simple declares)
    (by decide) spot read
  rw [mentions] at flow ⊢
  have last : Mention.lastWrite? "x" ["a.ts:variable:4-5"] (twoWrites.take 3) = twoWrites[0]? := by decide
  refine ⟨apart, simple, declares, stale, source, target, _, _, first, spot, ?_,
    readAfter_twoWrites.2 rfl, by rw [ids]; rfl, ⟨_, rfl, start⟩, ?_, ?_⟩
  · rintro rfl
    exact absurd (start.unique spot) (by decide)
  · rw [flow]
    rintro ⟨-, before, behind, ⟨write, written, there⟩ | ⟨none_, -⟩⟩
    · rw [readAfter_twoWrites.1 behind, last] at written
      obtain rfl := Option.some.inj written
      obtain ⟨id, same, at_⟩ := there
      obtain rfl := Option.some.inj same
      exact absurd (at_.unique start) (by decide)
    · rw [readAfter_twoWrites.1 behind, last] at none_
      cases none_
  · refine (flow stale).2 ⟨?_, _, readAfter_twoWrites.2 rfl, .inl ⟨_, last, _, rfl, first⟩⟩
    rintro rfl
    exact absurd (first.unique spot) (by decide)

/-! ## Classes in a module -/

/-- What has happened in a body when a look begins. What does not open a statement happens at the entry, and
all of it before the first statement. -/
def foregoing (file : SourceFile) (body : Option Entry) (front : List Look) (look : Look) : List Mention :=
  if look.opens then
    (((file.looksIn body).filter fun other => !other.opens) ++ front.filter Look.opens).flatMap
      (Look.mentions file)
  else (front.filter fun other => !other.opens).flatMap (Look.mentions file)

/-- A read in a body stands in some look, behind all that has happened before. -/
theorem readAfter_iff {before : List Mention} :
    Mention.ReadAfter name site before (file.mentionsIn body) ↔ ∃ front look back pre post,
      file.looksIn body = front ++ look :: back ∧
        look.mentions file = pre ++ Mention.read name site :: post ∧
        before = file.foregoing body front look ++ pre := by
  have order : file.mentionsIn body = (((file.looksIn body).filter fun look => !look.opens) ++
      (file.looksIn body).filter Look.opens).flatMap (Look.mentions file) := by
    simp only [mentionsIn, Script.mentions, Script.of, List.flatMap_def, List.map_append,
      List.flatten_append]
  rw [Mention.ReadAfter, order]
  constructor
  · rintro ⟨after, whole⟩
    obtain ⟨front, look, back, pre, post, split, reads, rfl, -⟩ := flatMap_eq_append_cons_iff.1 whole
    have opened : ∀ middle, front = ((file.looksIn body).filter fun look => !look.opens) ++ middle →
        (file.looksIn body).filter Look.opens = middle ++ look :: back → ∃ front' look' back' pre' post',
          file.looksIn body = front' ++ look' :: back' ∧
            look'.mentions file = pre' ++ Mention.read name site :: post' ∧
            front.flatMap (Look.mentions file) ++ pre = file.foregoing body front' look' ++ pre' := by
      intro middle same rest
      obtain ⟨earlier, later, whole, rfl, opens, -⟩ := filter_eq_append_cons_iff.1 rest
      exact ⟨earlier, look, later, pre, post, whole, reads, by rw [foregoing, if_pos opens, same]⟩
    rcases List.append_eq_append_iff.1 split with ⟨middle, same, rest⟩ | ⟨middle, same, rest⟩
    · exact opened middle same rest
    · cases middle with
      | nil => exact opened [] (by rw [same, List.append_nil, List.append_nil]) rest.symm
      | cons first middle =>
        obtain ⟨rfl, -⟩ := List.cons.inj rest
        obtain ⟨earlier, later, listed, rfl, closed, -⟩ := filter_eq_append_cons_iff.1 same
        have opens : look.opens ≠ true := by simpa using closed
        exact ⟨earlier, look, later, pre, post, listed, reads, by rw [foregoing, if_neg opens]⟩
  · rintro ⟨front, look, back, pre, post, whole, reads, rfl⟩
    rw [foregoing]
    by_cases opens : look.opens = true
    · have rest := filter_eq_append_cons_iff.2 ⟨front, back, whole, rfl, opens, rfl⟩
      rw [if_pos opens, rest]
      exact ⟨_, flatMap_eq_append_cons_iff.2
        ⟨_, look, _, pre, post, (List.append_assoc _ _ _).symm, reads, rfl, rfl⟩⟩
    · have closed : (!look.opens) = true := by simpa using opens
      have rest : ((file.looksIn body).filter fun other => !other.opens) = _ :=
        filter_eq_append_cons_iff.2 ⟨front, back, whole, rfl, closed, rfl⟩
      rw [if_neg opens, rest, List.append_assoc, List.cons_append]
      exact ⟨_, flatMap_eq_append_cons_iff.2 ⟨_, look, _, pre, post, rfl, reads, rfl, rfl⟩⟩

/-- Where no look that does not open a statement writes a name, the last write is by one that does. -/
theorem lastWrite?_filter_opens {ids : List String} {looks : List Look}
    (calm : ∀ look ∈ looks, look.opens = false → ∀ mention ∈ look.mentions file,
      mention.writes name ids = false) :
    Mention.lastWrite? name ids ((looks.filter Look.opens).flatMap (Look.mentions file)) =
      Mention.lastWrite? name ids (looks.flatMap (Look.mentions file)) := by
  induction looks with
  | nil => rfl
  | cons look rest ih =>
    have later := ih fun other inside => calm other (List.mem_cons_of_mem _ inside)
    rw [List.flatMap_cons, Mention.lastWrite?_append, ← later]
    cases opens : look.opens with
    | true =>
      rw [List.filter_cons_of_pos opens, List.flatMap_cons, Mention.lastWrite?_append]
    | false =>
      have none := Mention.lastWrite?_eq_none_iff.2 (calm look List.mem_cons_self opens)
      rw [List.filter_cons_of_neg (by simp [opens]), none, Option.or_none]

/-- What a read of a variable of the module gets, if all statements there are simple: the last write among what
has happened before. For a statement this is first what all classes of the module do, and for a class what the
classes before it do. So the last write in the text is what the read gets where no class has to do with it. -/
theorem Apart.module_flow (apart : file.Apart) (present : Instant) (simple : file.Simple none)
    (declares : (file.declaredIn none).lookup name = some id)
    (plain : ∃ yield ∈ file.yields, yield.node.id = id ∧ yield.node.kind = .var)
    (spot : (Graph.ofFile present file).IdAt target site)
    (read : ∃ look ∈ file.looks, Mention.read name site ∈ look.mentions file) :
    (name ≠ "result" ∧ name ≠ "return" → ∀ source,
      (Graph.ofFile present file).HasEdge .flow source target (some name) ↔ source ≠ target ∧
        ∃ front look back pre post write, file.looks = front ++ look :: back ∧
          look.mentions file = pre ++ Mention.read name site :: post ∧
          Mention.lastWrite? name [id]
            (file.foregoing none front look ++ pre) = some write ∧
          write.At (Graph.ofFile present file) source) ∧
    ∀ front look back pre post write source, file.looks = front ++ look :: back →
      look.mentions file = pre ++ Mention.read name site :: post →
      Mention.lastWrite? name [id] pre = none →
      Mention.lastWrite? name [id]
        (front.flatMap (Look.mentions file)) = some write →
      write.At (Graph.ofFile present file) source → source ≠ target →
      look.opens = true →
      (∀ earlier ∈ front, earlier.opens = false → ∀ mention ∈ earlier.mentions file,
        mention.writes name [id] = false) →
      (Graph.ofFile present file).HasEdge .flow source target (some name) := by
  have stands := standsFor_of_declares apart.told simple declares
  have has : file.HasBody none := trivial
  have behind : ∃ before, Mention.ReadAfter name site before (file.mentionsIn none) := by
    obtain ⟨look, listed, inside⟩ := read
    obtain ⟨front, back, whole⟩ := List.append_of_mem listed
    obtain ⟨pre, post, reads⟩ := List.append_of_mem inside
    exact ⟨_, readAfter_iff.2 ⟨front, look, back, pre, post, whole, reads, rfl⟩⟩
  refine ⟨fun other source => ?law, ?text⟩
  case law =>
    refine (apart.hasEdge_flow_iff present has simple stands other spot behind source).trans
      (and_congr_right fun _ => ?_)
    constructor
    · rintro ⟨before, reads, ⟨write, last, there⟩ | ⟨-, enters⟩⟩
      · obtain ⟨front, look, back, pre, post, whole, here, rfl⟩ := readAfter_iff.1 reads
        exact ⟨front, look, back, pre, post, write, whole, here, last, there⟩
      · exact absurd enters (not_entersBody_module apart.told declares plain)
    · rintro ⟨front, look, back, pre, post, write, whole, here, last, there⟩
      exact ⟨_, readAfter_iff.2 ⟨front, look, back, pre, post, whole, here, rfl⟩, .inl ⟨write, last, there⟩⟩
  case text =>
    intro front look back pre post write source whole here own last there elsewhere opens calm
    refine (apart.hasEdge_flow_or present has simple stands spot behind source).2
      (.inl ⟨elsewhere, _, readAfter_iff.2 ⟨front, look, back, pre, post, whole, here, rfl⟩,
        .inl ⟨write, ?_, there⟩⟩)
    rw [foregoing, if_pos opens, List.flatMap_append, Mention.lastWrite?_append,
      Mention.lastWrite?_append, own, lastWrite?_filter_opens calm, last, Option.none_or,
      Option.some_or]

/-- The same declarations with `let`. -/
def declaringLet : SourceFile := declaring "lexical_declaration" "let x = 1; let y = 2; f(x);"

/-- The call gets what an earlier declaration has written, with another one in between. -/
theorem declaringLet_flow : declaringLet.Apart ∧ declaringLet.Simple none ∧
    ∃ source target, (Graph.ofFile .epoch declaringLet).IdAt source "a.ts:statement:0-10" ∧
      (Graph.ofFile .epoch declaringLet).IdAt target "a.ts:call:22-26" ∧
      (Graph.ofFile .epoch declaringLet).HasEdge .flow source target (some "x") := by
  have apart : declaringLet.Apart := by decide +kernel
  have simple : declaringLet.Simple none := ⟨nofun, by decide +kernel⟩
  have declares : (declaringLet.declaredIn none).lookup "x" = some "a.ts:variable:4-5" := by decide +kernel
  have plain : ∃ yield ∈ declaringLet.yields, yield.node.id = "a.ts:variable:4-5" ∧
      yield.node.kind = .var := by decide +kernel
  have size : declaringLet.looks.length = 3 := by decide +kernel
  obtain ⟨first, second, third, looks⟩ := List.length_eq_three.1 size
  have mentions : declaringLet.looks.map (Look.mentions declaringLet) =
      [[twoWrites[0]], [twoWrites[1]], twoWrites.drop 2] := by decide +kernel
  have opens : declaringLet.looks.map Look.opens = [true, true, true] := by decide +kernel
  simp only [looks, List.map_cons, List.map_nil, List.cons.injEq, and_true] at mentions opens
  obtain ⟨source, start⟩ := @exists_idAt_ofFile declaringLet "a.ts:statement:0-10" .epoch
    (by decide +kernel)
  obtain ⟨target, spot⟩ := @exists_idAt_ofFile declaringLet "a.ts:call:22-26" .epoch
    (by decide +kernel)
  obtain ⟨-, edge⟩ := apart.module_flow .epoch simple declares plain spot
    ⟨third, by simp [looks], by rw [mentions.2.2]; decide⟩
  refine ⟨apart, simple, source, target, start, spot, ?_⟩
  refine edge [first, second] third [] [.read "f" "a.ts:call:22-26"] [] twoWrites[0] source looks
    mentions.2.2 (by decide) ?_ ⟨_, rfl, start⟩ ?_ opens.2.2 ?_
  · simp only [List.flatMap_cons, List.flatMap_nil, mentions.1, mentions.2.1]
    decide
  · rintro rfl
    exact absurd (start.unique spot) (by decide)
  · intro earlier inside closed
    simp only [List.mem_cons, List.not_mem_nil, or_false] at inside
    rcases inside with rfl | rfl <;> simp_all

/-- A file with the tree of `const B = null; class A extends B {}`. -/
def extending : SourceFile where
  path := ⟨"a.ts"⟩
  source := .ofString "const B = null; class A extends B \x7b\x7d"
  tree :=
    let node (kind : String) (field : Option String) (start stop : Nat) (children : List Tree) :=
      Tree.node { kind, field, start, stop, named := true } children
    node "program" none 0 36 [
      node "lexical_declaration" none 0 15 [node "variable_declarator" none 6 14 [
        node "identifier" (some "name") 6 7 [],
        node "null" (some "value") 10 14 []]],
      node "class_declaration" none 16 36 [
        node "type_identifier" (some "name") 22 23 [],
        node "class_heritage" none 24 33 [node "extends_clause" none 24 33 [
          node "identifier" (some "value") 32 33 []]],
        node "class_body" (some "body") 34 36 []]]

/-- The class reads what the statement before it has written, but does not get it. -/
theorem extending_flow : extending.Apart ∧ extending.Simple none ∧
    (extending.declaredIn none).lookup "B" = some "a.ts:variable:6-7" ∧
    ∃ first second write source target, extending.looks = [first, second] ∧
      first.mentions extending = [write] ∧ write.writes "B" ["a.ts:variable:6-7"] = true ∧
      write.At (Graph.ofFile .epoch extending) source ∧
      second.mentions extending = [.read "B" "a.ts:class:16-36"] ∧
      (Graph.ofFile .epoch extending).IdAt target "a.ts:class:16-36" ∧ source ≠ target ∧
      ¬ (Graph.ofFile .epoch extending).HasEdge .flow source target (some "B") := by
  have apart : extending.Apart := by decide +kernel
  have simple : extending.Simple none := ⟨nofun, by decide +kernel⟩
  have has : extending.HasBody none := trivial
  have declares : (extending.declaredIn none).lookup "B" = some "a.ts:variable:6-7" := by decide +kernel
  have plain : ∃ yield ∈ extending.yields, yield.node.id = "a.ts:variable:6-7" ∧
      yield.node.kind = .var := by decide +kernel
  obtain ⟨write, written⟩ : ∃ write : Mention, write =
      { kind := .write, subject := .node "a.ts:variable:6-7", site := some "a.ts:statement:0-15" } :=
    ⟨_, rfl⟩
  have size : extending.looks.length = 2 := by decide +kernel
  obtain ⟨first, second, looks⟩ := List.length_eq_two.1 size
  have mentions : extending.looks.map (Look.mentions extending) =
      [[write], [.read "B" "a.ts:class:16-36"]] := by
    subst written
    decide +kernel
  simp only [looks, List.map_cons, List.map_nil, List.cons.injEq, and_true] at mentions
  -- The read of the class comes first, at the entry of the module.
  have order : extending.mentionsIn none = [.read "B" "a.ts:class:16-36", write] := by
    subst written
    decide +kernel
  obtain ⟨source, start⟩ := @exists_idAt_ofFile extending "a.ts:statement:0-15" .epoch (by decide +kernel)
  obtain ⟨target, spot⟩ := @exists_idAt_ofFile extending "a.ts:class:16-36" .epoch (by decide +kernel)
  have flow := apart.hasEdge_flow_iff .epoch has simple (standsFor_of_declares apart.told simple declares)
    (by decide) spot ⟨[], [write], order⟩ source
  have front : ∀ place < 2, ([.read "B" "a.ts:class:16-36", write] : List Mention)[place]? =
      some (.read "B" "a.ts:class:16-36") → place = 0 := by
    subst written
    decide
  refine ⟨apart, simple, declares, first, second, write, source, target, looks, mentions.1, ?_, ?_,
    mentions.2, spot, ?_, ?_⟩
  · rw [written]
    decide
  · exact ⟨_, congrArg Mention.site written, start⟩
  · rintro rfl
    exact absurd (start.unique spot) (by decide)
  · rw [flow, order]
    rintro ⟨-, before, behind, rest⟩
    obtain ⟨place, found, rfl⟩ := Mention.readAfter_iff_take.1 behind
    obtain rfl := front place (List.getElem?_eq_some_iff.1 found).1 found
    rcases rest with ⟨last, none_, -⟩ | ⟨-, enters⟩
    · cases none_
    · exact not_entersBody_module apart.told declares plain enters

end SourceFile

end CodeGraph

import Mathlib.Data.List.Duplicate
import Mathlib.Data.List.Flatten
import CodeGraph.Proofs.Facts.Book
import CodeGraph.Proofs.Facts.Forest

/-!
# What the walk comes by twice

The graph tells nodes by their ids, so it does not show how often the walk has come by a syntax node. The
tables of functions and calls do: they have an entry for each time (`Facts.counted_of`). Here is what the
walk comes by in its order and as often as it does (`Look.comings`), and what it comes by again after it has
come by it already (`Look.twice`). In a file whose syntax nodes are apart, the two tables are free of doubles
just if neither a function nor a call is among the latter (`SourceFile.Apart.nodup_handles_iff`).
-/

namespace CodeGraph

namespace Look

variable {file : SourceFile} {look : Look} {yield : Yield}

/-- All graph nodes that a look comes by, in order and as often as it does. -/
def comings (file : SourceFile) (look : Look) : List Yield :=
  (look.scheme file).puts file
    ++ ((look.scheme file).first file).attach.flatMap (fun next => comings file next.1)
    ++ (look.scheme file).again.attach.flatMap fun next => comings file next.1
termination_by look.weight
decreasing_by
  · exact weight_lt_of_mem_first next.2
  · exact weight_lt_of_mem_again next.2

/-- The graph nodes that a look, or one that follows it, comes by again at a node that it has looked at. -/
def twice (file : SourceFile) (look : Look) : List Yield :=
  let first := ((look.scheme file).first file).flatMap (yields file)
  let second := (look.scheme file).again.flatMap (yields file)
  second.filter (fun yield => yield ∈ first)
    ++ ((look.scheme file).first file).attach.flatMap (fun next => twice file next.1)
    ++ (look.scheme file).again.attach.flatMap fun next => twice file next.1
termination_by look.weight
decreasing_by
  · exact weight_lt_of_mem_first next.2
  · exact weight_lt_of_mem_again next.2

theorem comings_eq (file : SourceFile) (look : Look) : look.comings file =
    (look.scheme file).puts file ++ ((look.scheme file).first file).flatMap (comings file)
      ++ (look.scheme file).again.flatMap (comings file) := by
  rw [comings]
  simp only [List.flatMap_subtype, List.unattach_attach]

theorem yields_eq (file : SourceFile) (look : Look) : look.yields file =
    (look.scheme file).puts file ++ ((look.scheme file).first file).flatMap (yields file)
      ++ ((look.scheme file).again.flatMap (yields file)).filter fun yield =>
        yield ∉ ((look.scheme file).first file).flatMap (yields file) := by
  rw [yields]
  simp only [List.flatMap_subtype, List.unattach_attach]

theorem twice_eq (file : SourceFile) (look : Look) : look.twice file =
    ((look.scheme file).again.flatMap (yields file)).filter (fun yield =>
        yield ∈ ((look.scheme file).first file).flatMap (yields file))
      ++ ((look.scheme file).first file).flatMap (twice file)
      ++ (look.scheme file).again.flatMap (twice file) := by
  rw [twice]
  simp only [List.flatMap_subtype, List.unattach_attach]

/-- A look comes by what it yields, and by nothing else. -/
theorem mem_comings {file : SourceFile} {look : Look} {yield : Yield} :
    yield ∈ look.comings file ↔ yield ∈ look.yields file := by
  have each : ∀ next ∈ (look.scheme file).first file ++ (look.scheme file).again,
      (yield ∈ next.comings file ↔ yield ∈ next.yields file) := by
    intro next follows
    have := (scheme_follows file look next follows).weight_lt
    exact mem_comings
  rw [comings_eq, mem_yields, List.append_assoc, List.mem_append, ← List.flatMap_append,
    List.mem_flatMap]
  exact or_congr_right (exists_congr fun next => and_congr_right (each next))
termination_by look.weight

theorem sublist_flatMap {α β : Type} {item : α} {items : List α} {f : α → List β}
    (inside : item ∈ items) : (f item).Sublist (items.flatMap f) := by
  simpa using (List.singleton_sublist.2 inside).flatMap f

theorem filter_flatMap_congr {α β : Type} {items : List α} {f g : α → List β} {kept : β → Bool}
    (each : ∀ item ∈ items, (f item).filter kept = (g item).filter kept) :
    (items.flatMap f).filter kept = (items.flatMap g).filter kept := by
  rw [List.filter_flatMap, List.filter_flatMap, List.flatMap_congr each]

/-- What a look comes by twice is there twice. -/
theorem duplicate_of_mem_twice {file : SourceFile} {look : Look} {yield : Yield}
    (inside : yield ∈ look.twice file) : (look.comings file).Duplicate yield := by
  have each : ∀ next ∈ (look.scheme file).first file ++ (look.scheme file).again,
      yield ∈ next.twice file → (look.comings file).Duplicate yield := by
    intro next follows deeper
    have := (scheme_follows file look next follows).weight_lt
    refine (duplicate_of_mem_twice deeper).mono_sublist ?_
    rw [comings_eq file look, List.append_assoc, ← List.flatMap_append]
    exact (sublist_flatMap follows).trans (List.sublist_append_right _ _)
  rw [twice_eq, List.append_assoc, List.mem_append, ← List.flatMap_append, List.mem_flatMap] at inside
  rcases inside with both | ⟨next, follows, deeper⟩
  · obtain ⟨again, before⟩ := List.mem_filter.1 both
    have come : ∀ {looks : List Look}, yield ∈ looks.flatMap (yields file) →
        [yield].Sublist (looks.flatMap (comings file)) := by
      intro looks there
      obtain ⟨next, listed, deeper⟩ := List.mem_flatMap.1 there
      exact List.singleton_sublist.2 (List.mem_flatMap.2 ⟨next, listed, mem_comings.2 deeper⟩)
    rw [List.duplicate_iff_sublist, comings_eq]
    exact ((come (of_decide_eq_true before)).trans (List.sublist_append_right _ _)).append (come again)
  · exact each next follows deeper
termination_by look.weight

/-- What a look does not come by twice is there as often as it is yielded. -/
theorem filter_comings {file : SourceFile} {look : Look} {kept : Yield → Bool}
    (once : ∀ yield ∈ look.twice file, kept yield = false) :
    (look.comings file).filter kept = (look.yields file).filter kept := by
  rw [twice_eq] at once
  have each : ∀ next ∈ (look.scheme file).first file ++ (look.scheme file).again,
      (next.comings file).filter kept = (next.yields file).filter kept := by
    intro next follows
    have := (scheme_follows file look next follows).weight_lt
    refine filter_comings fun yield deeper => once yield ?_
    rw [List.append_assoc, ← List.flatMap_append]
    exact List.mem_append_right _ (List.mem_flatMap.2 ⟨next, follows, deeper⟩)
  rw [comings_eq, yields_eq, List.filter_append, List.filter_append, List.filter_append,
    List.filter_append, filter_flatMap_congr fun next here => each next (List.mem_append_left _ here),
    filter_flatMap_congr fun next here => each next (List.mem_append_right _ here),
    List.filter_filter]
  refine congrArg _ (List.filter_congr fun yield again => ?_)
  cases keeps : kept yield with
  | false => rfl
  | true =>
    have new : yield ∉ ((look.scheme file).first file).flatMap (yields file) := by
      intro before
      have twice := once yield (List.mem_append_left _ (List.mem_append_left _
        (List.mem_filter.2 ⟨again, decide_eq_true before⟩)))
      rw [keeps] at twice
      cases twice
    simp [new]
termination_by look.weight

end Look

namespace SourceFile

/-- All graph nodes that the walk over a file comes by, in order and as often as it does. -/
def comings (file : SourceFile) : List Yield := file.looks.flatMap (Look.comings file)

/-- The graph nodes that the walk over a file comes by again at a syntax node that it has looked at. -/
def twice (file : SourceFile) : List Yield := file.looks.flatMap (Look.twice file)

/-- In a file whose syntax nodes are apart, nodes of a kind are come by once just if none of them is come by
twice at one syntax node. -/
theorem Apart.nodup_comings_iff {file : SourceFile} (apart : file.Apart) (kept : Yield → Bool) :
    (file.comings.filter kept).Nodup ↔ ∀ yield ∈ file.twice, kept yield = false := by
  constructor
  · intro nodup yield inside
    obtain ⟨look, begun, there⟩ := List.mem_flatMap.1 inside
    cases keeps : kept yield with
    | false => rfl
    | true =>
      have doubled := ((Look.duplicate_of_mem_twice there).mono_sublist (Look.sublist_flatMap begun))
      rw [List.duplicate_iff_sublist] at doubled
      have kepts := doubled.filter kept
      rw [List.filter_cons_of_pos keeps, List.filter_cons_of_pos keeps, List.filter_nil] at kepts
      exact absurd nodup (List.duplicate_iff_sublist.2 kepts).not_nodup
  · intro once
    have same : file.comings.filter kept = file.yields.filter kept :=
      Look.filter_flatMap_congr fun look begun => Look.filter_comings fun yield there =>
        once yield (List.mem_flatMap.2 ⟨look, begun, there⟩)
    rw [same]
    exact (List.Nodup.of_map _ apart).filter _

end SourceFile

/-! ## Functions and calls among the yields -/

/-- The nodes of a kind among yields. -/
def nodesIn (kind : NodeKind) (yields : List Yield) : List Node :=
  (yields.map Yield.node).filter fun node => node.kind = kind

theorem nodesIn_append (kind : NodeKind) (yields others : List Yield) :
    nodesIn kind (yields ++ others) = nodesIn kind yields ++ nodesIn kind others := by
  rw [nodesIn, List.map_append, List.filter_append]
  rfl

theorem nodesIn_flatMap {α : Type} (kind : NodeKind) (items : List α) (yields : α → List Yield) :
    nodesIn kind (items.flatMap yields) = items.flatMap fun item => nodesIn kind (yields item) := by
  rw [nodesIn, List.map_flatMap, List.filter_flatMap]
  rfl

namespace Scheme

open Facts

variable {file : SourceFile} {cursor : Cursor} {home : Home}

/-- The functions among the yields of a scheme are those that it enters, and the calls are some nodes. -/
structure Tallies (scheme : Scheme) (calls : List Node) : Prop where
  functions : nodesIn .func scheme.yields = scheme.functions.map Entry.node
  calls : nodesIn .call scheme.yields = calls

theorem tallies_empty : Tallies {} [] := ⟨rfl, rfl⟩

theorem tallies_passes (tasks : List Task) : (passes home tasks).Tallies [] := ⟨rfl, rfl⟩

theorem tallies_opens (tasks : List Task) : (opens file cursor home tasks).Tallies [] := ⟨rfl, rfl⟩

theorem tallies_guarded : (guarded file cursor home).Tallies [] := by
  unfold guarded handled
  cases cursor.field? "handler" <;> exact ⟨rfl, rfl⟩

/-- A node of another kind is not among the nodes of a kind. -/
theorem nodesIn_puts_of_ne {node : Node} {kind : NodeKind} (other : node.kind ≠ kind) :
    nodesIn kind (home.puts cursor node) = [] := by
  simp [nodesIn, Home.puts, other]

theorem nodesIn_puts {node : Node} {kind : NodeKind} (same : node.kind = kind) :
    nodesIn kind (home.puts cursor node) = [node] := by
  simp [nodesIn, Home.puts, same]

theorem tallies_function (hint : Option Hint) (isMethod : Bool) :
    (function file cursor home hint isMethod).Tallies [] := by
  have kind := kind_functionNode file cursor (givenName file cursor hint) isMethod
    (Parameter.ofFunction cursor).length
  exact ⟨nodesIn_puts kind, nodesIn_puts_of_ne (by rw [kind]; decide)⟩

theorem tallies_member (member : Cursor) :
    nodesIn .func (Scheme.member file member home).yields =
        (Scheme.member file member home).functions.map Entry.node ∧
      nodesIn .call (Scheme.member file member home).yields = [] := by
  have method : ∀ (cursor : Cursor) (hint : Option Hint),
      nodesIn .func (Scheme.method file cursor home hint).yields =
          (Scheme.method file cursor home hint).functions.map Entry.node ∧
        nodesIn .call (Scheme.method file cursor home hint).yields = [] := fun cursor hint =>
    have tallies := tallies_function hint true
    ⟨tallies.functions, tallies.calls⟩
  unfold Scheme.member
  split
  · exact method _ _
  · split
    · split
      · exact ⟨rfl, rfl⟩
      · split
        · exact ⟨rfl, rfl⟩
        · split
          · exact method _ _
          · exact ⟨rfl, rfl⟩
    · exact ⟨rfl, rfl⟩

theorem tallies_classLike (hint : Option Hint) : (classLike file cursor home hint).Tallies [] := by
  have kind := kind_classNode file cursor (givenName file cursor hint)
  have none : ∀ other ∈ NodeKind.entered, nodesIn other (home.puts cursor
      (classNode file cursor (givenName file cursor hint))) = [] := by
    intro other entered
    refine nodesIn_puts_of_ne fun same => ?_
    rw [kind] at same
    subst same
    revert entered
    decide
  unfold classLike
  simp only
  split
  · exact ⟨none _ (by decide), none _ (by decide)⟩
  · constructor <;>
      simp only [nodesIn_append, none _ (by decide : NodeKind.func ∈ NodeKind.entered),
        none _ (by decide : NodeKind.call ∈ NodeKind.entered), nodesIn_flatMap, List.flatMap_map,
        tallies_member, List.map_flatMap, List.nil_append]
    simp

theorem tallies_call : (call file cursor home).Tallies [callNode file cursor (callSyntax file cursor)] := by
  have kind := @kind_callNode file cursor (callSyntax file cursor)
  exact ⟨nodesIn_puts_of_ne (by rw [kind]; decide), nodesIn_puts kind⟩

theorem tallies_defines {kind : NodeKind} (other : kind ≠ .expr) :
    nodesIn kind (defines file cursor home) = [] := by
  unfold defines
  split
  · rfl
  · exact nodesIn_puts_of_ne other.symm

theorem tallies_assignment (augmented : Bool) :
    (assignment file cursor home augmented).Tallies [] := by
  unfold assignment
  split
  · exact ⟨tallies_defines nofun, tallies_defines nofun⟩
  · exact tallies_passes _

theorem tallies_update : (update file cursor home).Tallies [] := by
  unfold update
  split
  · exact ⟨tallies_defines nofun, tallies_defines nofun⟩
  · exact tallies_passes _

theorem tallies_pattern (mode : BindMode) : (pattern file cursor home mode).Tallies [] := by
  unfold pattern
  split
  · cases mode <;> exact ⟨rfl, rfl⟩
  · exact tallies_passes _

theorem tallies_expression (hint : Option Hint) : (expression file cursor home hint).Tallies
    (if ExpressionForm.ofKind cursor.kind = .call then [callNode file cursor (callSyntax file cursor)]
      else []) := by
  unfold expression
  cases ExpressionForm.ofKind cursor.kind with
  | reference => exact tallies_empty
  | function => exact tallies_function _ _
  | method => exact tallies_function _ _
  | classLike => exact tallies_classLike _
  | call => exact tallies_call
  | assignment => exact tallies_assignment _
  | augmented => exact tallies_assignment _
  | update => exact tallies_update
  | pair => exact tallies_passes _
  | type => exact tallies_empty
  | compound => exact tallies_passes _

theorem tallies_statement : (statement file cursor home).Tallies [] := by
  unfold statement
  cases StatementForm.ofKind cursor.kind with
  | expression =>
    simp only [single]
    split
    · exact tallies_empty
    · split
      · exact tallies_passes _
      · exact tallies_opens _
  | exported =>
    simp only [exported]
    split
    · exact tallies_passes _
    · exact tallies_opens _
    · exact tallies_empty
  | guarded => exact tallies_guarded
  | function => exact tallies_function _ _
  | classLike => exact tallies_classLike _
  | _ => exact ⟨rfl, rfl⟩

/-- Expressions in place of bodies are neither functions nor calls. -/
theorem nodesIn_puts_scheme (scheme : Scheme) {kind : NodeKind} (entered : kind ∈ NodeKind.entered) :
    nodesIn kind (scheme.puts file) = nodesIn kind scheme.yields := by
  have none : ∀ entry : Entry, nodesIn kind (entry.yields file) = [] := by
    intro entry
    simp only [NodeKind.entered, List.mem_cons, List.not_mem_nil, or_false] at entered
    unfold Entry.yields
    split
    · rfl
    · split
      · rfl
      · rcases entered with rfl | rfl <;> rfl
  rw [Scheme.puts, nodesIn_append, nodesIn_flatMap]
  simp [none]

end Scheme

/-- The functions among the yields of a look are those that it enters. -/
theorem Look.functions_scheme (file : SourceFile) (look : Look) :
    nodesIn .func (look.scheme file).yields = (look.scheme file).functions.map Entry.node := by
  cases look with
  | statement cursor home => exact Scheme.tallies_statement.functions
  | loopHeader cursor home => exact (Scheme.tallies_opens _).functions
  | bind cursor home mode => exact (Scheme.tallies_pattern mode).functions
  | expression cursor home hint => exact (Scheme.tallies_expression hint).functions

/-- The looks of the sights of a scheme are those that follow in it, in order. -/
theorem Scheme.looks_sights (file : SourceFile) (scheme : Scheme) (function : Option Nat)
    (count : Nat) : (scheme.sights file function count).map Sight.look =
      scheme.first file ++ scheme.again := by
  have inside : ∀ (function : Option Nat) (looks : List Look),
      (sightsIn function looks).map Sight.look = looks := by
    intro function looks
    rw [sightsIn, List.map_map]
    exact List.map_id looks
  have entered : (Entry.sights file scheme.functions count).map Sight.look =
      scheme.functions.reverse.flatMap (Entry.looks file) := by
    simp only [Entry.sights, List.map_flatMap, inside]
    rw [← List.flatMap_map Prod.fst (Entry.looks file), List.map_reverse, List.zipIdx_map_fst]
  rw [sights, List.map_append, List.map_append, inside, inside, entered]
  rfl

namespace Facts

variable {file : SourceFile} {facts : Facts} {task : Task} {rest : List Task} {sight : Sight}
  {ahead : List Sight}

/-- The nodes in the table of functions or of calls, in order. -/
def handles (facts : Facts) : NodeKind → List Nat
  | .func => facts.signatures.map Signature.node
  | .call => facts.calls.toList.map CallFact.node
  | _ => []

/-- Handles are those of nodes, one by one. -/
def AllAt (graph : Graph) : List Nat → List Node → Prop :=
  List.Forall₂ fun handle node => graph.IdAt handle node.id

theorem AllAt.kept {before after : Graph} {handles : List Nat} {nodes : List Node}
    (all : AllAt before handles nodes) (kept : before.Kept after) : AllAt after handles nodes :=
  all.imp fun _ _ there => there.kept kept

/-- A step enters the functions of its scheme into the table, in order. -/
theorem Charted.step_functions (charted : Charted file facts (task :: rest) (sight :: ahead)) :
    ∃ more, (facts.step file task).1.handles .func = facts.handles .func ++ more ∧
      AllAt (facts.step file task).1.graph more
        ((sight.look.scheme file).functions.map Entry.node) := by
  have plays := charted.plays
  obtain ⟨more, whole⟩ := plays.extend.signatures
  refine ⟨more.map Signature.node, ?_, ?_⟩
  · rw [handles, handles, ← whole, List.map_append]
  · have size := plays.size
    rw [← length_signatures, ← length_signatures, ← whole, List.length_append, Nat.add_left_cancel_iff] at size
    rw [AllAt, List.forall₂_map_left_iff, List.forall₂_map_right_iff, List.forall₂_iff_get]
    refine ⟨size, fun place less there => ?_⟩
    obtain ⟨signature, found, stands⟩ := (plays.entered place _ (List.getElem?_eq_getElem there)).about
    rw [← whole, ← length_signatures, List.getElem?_append_right (Nat.le_add_right _ _), Nat.add_sub_cancel_left,
      List.getElem?_eq_getElem less] at found
    obtain rfl := Option.some.inj found
    exact stands

/-- A step enters a call into the table where it comes to one, and none elsewhere. -/
theorem Charted.step_calls (charted : Charted file facts (task :: rest) (sight :: ahead)) :
    ∃ more, (facts.step file task).1.handles .call = facts.handles .call ++ more ∧
      AllAt (facts.step file task).1.graph more (nodesIn .call (sight.look.scheme file).yields) := by
  rw [← charted.head.same]
  generalize sight.look.home = home
  cases called : task.call? with
  | none =>
    refine ⟨[], ?_, ?_⟩
    · rw [handles, handles, calls_step called, List.append_nil]
    · have none : nodesIn .call ((task.look home).scheme file).yields = [] := by
        cases task with
        | statement cursor context => exact Scheme.tallies_statement.calls
        | loopHeader cursor context => exact (Scheme.tallies_opens _).calls
        | bind cursor context mode => exact (Scheme.tallies_pattern _).calls
        | expression cursor context hint =>
          refine (Scheme.tallies_expression hint).calls.trans (if_neg fun form => ?_)
          simp [Task.call?, form] at called
      rw [none]
      exact .nil
  | some place =>
    obtain ⟨cursor, context⟩ := place
    obtain ⟨stepped, -⟩ := step_call file facts called
    cases task with
    | expression at_ around hint =>
      simp only [Task.call?, Option.ite_none_right_eq_some, Option.some.injEq, Prod.mk.injEq] at called
      obtain ⟨form, rfl, rfl⟩ := called
      have tallies : nodesIn .call (Scheme.expression file at_ home hint).yields =
          [callNode file at_ (callSyntax file at_)] :=
        (Scheme.tallies_expression hint).calls.trans (if_pos form)
      let placed := facts.place (callNode file at_ (callSyntax file at_)) around.parent
      refine ⟨[placed.2], ?_, ?_⟩
      · rw [handles, handles, stepped]
        simp only [addCall, Array.toList_push, List.map_append]
        rfl
      · rw [stepped]
        change AllAt _ _ (nodesIn .call (Scheme.expression file at_ home hint).yields)
        rw [tallies]
        exact .cons (handle_place charted.charts.formed.wellFormed _ _) .nil
    | statement at_ around => cases called
    | loopHeader at_ around => cases called
    | bind at_ around mode => cases called

/-- A step enters what its scheme yields of functions and calls into the tables, in order. -/
theorem Charted.step_handles (charted : Charted file facts (task :: rest) (sight :: ahead))
    {kind : NodeKind} (entered : kind ∈ NodeKind.entered) :
    ∃ more, (facts.step file task).1.handles kind = facts.handles kind ++ more ∧
      AllAt (facts.step file task).1.graph more
        (nodesIn kind ((sight.look.scheme file).puts file)) := by
  rw [Scheme.nodesIn_puts_scheme _ entered]
  simp only [NodeKind.entered, List.mem_cons, List.not_mem_nil, or_false] at entered
  rcases entered with rfl | rfl
  · rw [Look.functions_scheme]
    exact charted.step_functions
  · exact charted.step_calls

/-- What the walk over a file comes by of a kind is what has been entered into the table, and what is still
ahead. -/
def Counted (file : SourceFile) (facts : Facts) (ahead : List Sight) (kind : NodeKind) : Prop :=
  ∃ done, nodesIn kind file.comings =
      done ++ nodesIn kind (ahead.flatMap fun sight => sight.look.comings file) ∧
    AllAt facts.graph (facts.handles kind) done

theorem Counted.step {kind : NodeKind} (counted : Counted file facts (sight :: ahead) kind)
    (charted : Charted file facts (task :: rest) (sight :: ahead))
    (entered : kind ∈ NodeKind.entered) :
    Counted file (facts.step file task).1
      ((sight.look.scheme file).sights file sight.function facts.functions.size ++ ahead) kind := by
  obtain ⟨done, whole, all⟩ := counted
  obtain ⟨more, handles, stand⟩ := charted.step_handles entered
  refine ⟨done ++ nodesIn kind ((sight.look.scheme file).puts file), ?_, ?_⟩
  · have looks := Scheme.looks_sights file (sight.look.scheme file) sight.function
      facts.functions.size
    have ahead' : ((sight.look.scheme file).sights file sight.function facts.functions.size).flatMap
        (fun other => other.look.comings file) =
          ((sight.look.scheme file).first file ++ (sight.look.scheme file).again).flatMap
            (Look.comings file) := by
      rw [← looks, List.flatMap_map]
    rw [whole, List.flatMap_cons, List.flatMap_append, ahead', Look.comings_eq, List.flatMap_append]
    simp only [nodesIn_append, List.append_assoc]
  · rw [handles]
    exact List.rel_append (all.kept charted.plays.extend.graph) stand

theorem counted_start (file : SourceFile) {kind : NodeKind} (entered : kind ∈ NodeKind.entered) :
    Counted file {} (sightsIn none file.looks) kind := by
  refine ⟨[], ?_, ?_⟩
  · simp only [List.nil_append, sightsIn, List.flatMap_map]
    rfl
  · simp only [NodeKind.entered, List.mem_cons, List.not_mem_nil, or_false] at entered
    rcases entered with rfl | rfl <;> exact .nil

theorem Visits.counted {pending : List Task} (visits : Visits file facts pending) {kind : NodeKind}
    (entered : kind ∈ NodeKind.entered) :
    ∃ ahead, Charted file facts pending ahead ∧ Counted file facts ahead kind :=
  visits.follow (P := fun facts _ ahead => Counted file facts ahead kind)
    (counted_start file entered) fun _ charted counted => counted.step charted entered

/-- The tables of functions and of calls have an entry for each time that the walk comes by one, in order. -/
theorem counted_of (file : SourceFile) {kind : NodeKind} (entered : kind ∈ NodeKind.entered) :
    AllAt (Facts.of file).graph ((Facts.of file).handles kind) (nodesIn kind file.comings) := by
  obtain ⟨ahead, charted, done, whole, all⟩ := (Visits.last file).counted entered
  obtain rfl := charted.done
  rw [whole, List.flatMap_nil, nodesIn, List.map_nil, List.filter_nil, List.append_nil]
  simp only [NodeKind.entered, List.mem_cons, List.not_mem_nil, or_false] at entered
  rcases entered with rfl | rfl <;> exact all

end Facts

namespace SourceFile

open Facts

variable {file : SourceFile}

/-- In a file whose syntax nodes are apart, the tables of functions and of calls have no doubles just if the
walk comes by none twice. -/
theorem Apart.nodup_handles_iff (apart : file.Apart) {kind : NodeKind}
    (entered : kind ∈ NodeKind.entered) : ((Facts.of file).handles kind).Nodup ↔
      ∀ yield ∈ file.twice, yield.node.kind ≠ kind := by
  let stands := fun (yield : Yield) (handle : Nat) =>
    yield ∈ file.yields ∧ (Facts.of file).graph.IdAt handle yield.node.id
  have told : Relator.BiUnique stands := by
    refine ⟨fun yield other handle there also => ?_, fun yield handle other there also => ?_⟩
    · exact apart.told yield there.1 other also.1 (there.2.unique also.2)
    · exact (charts_of file).formed.wellFormed.idAt_unique there.2 also.2
  have each : List.Forall₂ stands (file.comings.filter fun yield => yield.node.kind = kind)
      ((Facts.of file).handles kind) := by
    have all := counted_of file entered
    rw [nodesIn, List.filter_map, AllAt, List.forall₂_map_right_iff] at all
    refine (List.forall₂_and_left _ _).2 ⟨fun yield inside => ?_, all.flip⟩
    obtain ⟨look, begun, there⟩ := List.mem_flatMap.1 (List.mem_of_mem_filter inside)
    exact mem_yields.2 ⟨look, begun, Look.mem_comings.1 there⟩
  refine (List.rel_nodup told each).symm.trans ((apart.nodup_comings_iff _).trans ?_)
  simp only [decide_eq_false_iff_not, ne_eq]

end SourceFile

end CodeGraph

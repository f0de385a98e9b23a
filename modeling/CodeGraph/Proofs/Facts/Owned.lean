import Mathlib.Data.List.Nodup
import CodeGraph.Proofs.Facts.Recorded
import CodeGraph.Proofs.Facts.StepExpression
import CodeGraph.Proofs.Facts.Yield

/-!
# Whose yields they are

What a look yields belongs to the function around the look, or to a function that is entered on the way
(`Look.owns_or_entered`). Each yield has the id of its kind and of its syntax node (`Look.drawn`), so in a
file whose syntax nodes are apart a yield is told by its id (`SourceFile.Apart.told`).
-/

namespace CodeGraph

/-- A yield has the id of a node of its kind at its syntax node. -/
def Yield.Drawn (file : SourceFile) (yield : Yield) : Prop :=
  yield.node.id = (file.nodeOf yield.cursor yield.node.kind none).id

/-- The forms of the expressions that write, and so define a value. -/
def ExpressionForm.Writes (form : ExpressionForm) : Prop :=
  form ∈ [assignment, augmented, update]

instance (form : ExpressionForm) : Decidable form.Writes :=
  inferInstanceAs (Decidable (form ∈ [.assignment, .augmented, .update]))

/-- A yield is no parameter, and no site at which a function returns; if it is an expression, that one
writes. -/
structure Yield.Silent (yield : Yield) : Prop where
  kind : yield.node.kind ≠ .param
  stays : yield.returns = false
  writes : yield.node.kind = .expr → (ExpressionForm.ofKind yield.cursor.kind).Writes

namespace Scheme

open Facts

variable {file : SourceFile} {cursor : Cursor} {home : Home}

/-- What a scheme yields belongs to the function around a home, and what follows is in that function. -/
structure Fits (file : SourceFile) (home : Home) (scheme : Scheme) : Prop where
  drawn : ∀ yield ∈ scheme.yields, yield.Drawn file
  around : ∀ yield ∈ scheme.yields, yield.home.function = home.function
  looks : ∀ look ∈ scheme.next ++ scheme.again, look.home.function = home.function
  functions : ∀ entry ∈ scheme.functions, entry.node.kind = .func ∧
    ∃ yield ∈ scheme.yields, yield.cursor = entry.cursor ∧ yield.node = entry.node

/-- A scheme that fits yields neither parameters nor sites at which a function returns. -/
structure Plain (file : SourceFile) (home : Home) (scheme : Scheme) : Prop
    extends Fits file home scheme where
  silent : ∀ yield ∈ scheme.yields, yield.Silent

/-! ## Parts of schemes -/

/-- Yields in the function around a home, none of them a parameter or a site at which it returns. -/
structure AllPlain (file : SourceFile) (home : Home) (yields : List Yield) : Prop where
  drawn : ∀ yield ∈ yields, yield.Drawn file
  around : ∀ yield ∈ yields, yield.home.function = home.function
  silent : ∀ yield ∈ yields, yield.Silent

/-- Looks in the function around a home. -/
def Around (home : Home) (looks : List Look) : Prop :=
  ∀ look ∈ looks, look.home.function = home.function

theorem AllPlain.nil : AllPlain file home [] :=
  ⟨List.forall_mem_nil _, List.forall_mem_nil _, List.forall_mem_nil _⟩

theorem AllPlain.puts {node : Node} (same : node.id = (file.nodeOf cursor node.kind none).id)
    (other : node.kind ≠ .param)
    (writes : node.kind = .expr → (ExpressionForm.ofKind cursor.kind).Writes) :
    AllPlain file home (home.puts cursor node) := by
  refine ⟨fun yield inside => ?_, fun yield inside => ?_, fun yield inside => ?_⟩
  all_goals obtain rfl := List.mem_singleton.1 inside
  · exact same
  · rfl
  · exact ⟨other, rfl, writes⟩

theorem AllPlain.append {yields others : List Yield} (left : AllPlain file home yields)
    (right : AllPlain file home others) : AllPlain file home (yields ++ others) :=
  ⟨List.forall_mem_append.2 ⟨left.drawn, right.drawn⟩,
    List.forall_mem_append.2 ⟨left.around, right.around⟩,
    List.forall_mem_append.2 ⟨left.silent, right.silent⟩⟩

theorem AllPlain.flatMap {α : Type} {items : List α} {yields : α → List Yield}
    (each : ∀ item ∈ items, AllPlain file home (yields item)) :
    AllPlain file home (items.flatMap yields) := by
  refine ⟨fun yield inside => ?_, fun yield inside => ?_, fun yield inside => ?_⟩
  all_goals obtain ⟨item, there, here⟩ := List.mem_flatMap.1 inside
  · exact (each item there).drawn yield here
  · exact (each item there).around yield here
  · exact (each item there).silent yield here

/-- Yields at a home further down in the same function. -/
theorem AllPlain.outward {other : Home} {yields : List Yield} (all : AllPlain file other yields)
    (same : other.function = home.function) : AllPlain file home yields :=
  { all with around := fun yield inside => (all.around yield inside).trans same }

theorem Around.nil : Around home [] := List.forall_mem_nil _

theorem Around.append {looks others : List Look} (left : Around home looks)
    (right : Around home others) : Around home (looks ++ others) :=
  List.forall_mem_append.2 ⟨left, right⟩

theorem Around.looks {inner : Home} (same : inner.function = home.function) (tasks : List Task) :
    Around home (inner.looks tasks) := by
  intro look inside
  obtain ⟨task, -, rfl⟩ := List.mem_map.1 inside
  cases task <;> exact same

/-- A scheme that enters no function. -/
theorem Plain.of_parts {yields : List Yield} {next again : List Look}
    (all : AllPlain file home yields) (around : Around home next) (second : Around home again) :
    Plain file home { yields, next, again } :=
  { drawn := all.drawn, around := all.around, silent := all.silent
    looks := around.append second, functions := List.forall_mem_nil _ }

/-! ## The schemes -/

theorem plain_statement (cursor : Cursor) :
    AllPlain file home (home.puts cursor (statementNode file cursor)) :=
  .puts rfl nofun nofun

theorem plain_passes (tasks : List Task) : Plain file home (passes home tasks) :=
  .of_parts .nil (.looks rfl tasks) .nil

theorem plain_empty : Plain file home {} := .of_parts .nil .nil .nil

theorem plain_opens (tasks : List Task) : Plain file home (opens file cursor home tasks) :=
  .of_parts (plain_statement cursor) (.looks rfl tasks) .nil

theorem plain_handled : Plain file home (handled file cursor home) := by
  unfold handled
  split
  · exact plain_empty
  · exact .of_parts (plain_statement _) (.looks rfl _) .nil

theorem plain_guarded : Plain file home (guarded file cursor home) := by
  have clause : Plain file (home.below (statementNode file cursor))
      (handled file cursor (home.below (statementNode file cursor))) := plain_handled
  have yields : AllPlain file (home.below (statementNode file cursor))
      (handled file cursor (home.below (statementNode file cursor))).yields :=
    ⟨clause.drawn, clause.around, clause.silent⟩
  exact .of_parts ((plain_statement cursor).append (yields.outward rfl))
    (.append (.append (.looks rfl _) fun look inside =>
      clause.looks look (List.mem_append_left _ inside)) (.looks rfl _)) .nil

theorem plain_function (hint : Option Hint) (isMethod : Bool) :
    Plain file home (function file cursor home hint isMethod) := by
  have kind := kind_functionNode file cursor (givenName file cursor hint) isMethod
    (Parameter.ofFunction cursor).length
  have all : AllPlain file home (function file cursor home hint isMethod).yields := by
    refine .puts ?_ (by rw [kind]; decide) (by rw [kind]; nofun)
    rw [id_functionNode, kind]
  refine { drawn := all.drawn, around := all.around, silent := all.silent, looks := List.forall_mem_nil _,
           functions := fun entry inside => ?_ }
  obtain rfl := List.mem_singleton.1 inside
  exact ⟨kind, _, List.mem_singleton_self _, rfl, rfl⟩

/-- What a member adds to its class fits as a scheme does. -/
structure Member.Plain (file : SourceFile) (home : Home) (member : Member) : Prop where
  yields : AllPlain file home member.yields
  own : Around home member.own
  functions : ∀ entry ∈ member.functions, entry.node.kind = .func ∧
    ∃ yield ∈ member.yields, yield.cursor = entry.cursor ∧ yield.node = entry.node

theorem plain_method (hint : Option Hint) : (method file cursor home hint).Plain file home := by
  have plain : Scheme.Plain file home (function file cursor home hint true) := plain_function hint true
  exact ⟨⟨plain.drawn, plain.around, plain.silent⟩, .nil, plain.functions⟩

theorem plain_member : (member file cursor home).Plain file home := by
  have field : ∀ name : Cursor, AllPlain file home (home.puts name (fieldNode file name)) :=
    fun _ => .puts rfl nofun nofun
  unfold member
  split
  · exact plain_method none
  · split
    · split
      · exact ⟨.nil, .nil, List.forall_mem_nil _⟩
      · split
        · exact ⟨field _, .nil, List.forall_mem_nil _⟩
        · split
          · exact plain_method _
          · exact ⟨field _, .looks rfl _, List.forall_mem_nil _⟩
    · exact ⟨.nil, .nil, List.forall_mem_nil _⟩

theorem id_classNode (file : SourceFile) (cursor : Cursor) (name : Option String) :
    (classNode file cursor name).id = (file.nodeOf cursor .cls none).id := by
  unfold classNode
  simp only
  split <;> rfl

theorem plain_classLike (hint : Option Hint) :
    Plain file home (classLike file cursor home hint) := by
  let node := classNode file cursor (givenName file cursor hint)
  have kind : node.kind = .cls := kind_classNode _ _ _
  have itself : AllPlain file home (home.puts cursor node) := by
    refine .puts ?_ (by rw [kind]; decide) (by rw [kind]; nofun)
    rw [kind]
    exact id_classNode _ _ _
  unfold classLike
  simp only
  split
  · exact .of_parts itself .nil .nil
  · have member : ∀ entry : Cursor,
        (member file entry (home.below node)).Plain file (home.below node) := fun _ => plain_member
    have members : AllPlain file (home.below node)
        (((((cursor.field? "body").map Cursor.named).getD []).map fun entry =>
          Scheme.member file entry (home.below node)).flatMap Member.yields) := by
      refine .flatMap fun added there => ?_
      obtain ⟨entry, -, rfl⟩ := List.mem_map.1 there
      exact (member entry).yields
    have all := itself.append (members.outward rfl)
    refine { drawn := all.drawn, around := all.around, silent := all.silent, looks := ?_,
             functions := fun entry inside => ?_ }
    · refine Around.append (Around.append (.looks rfl _) fun look inside => ?_) .nil
      obtain ⟨added, there, here⟩ := List.mem_flatMap.1 inside
      obtain ⟨entry, -, rfl⟩ := List.mem_map.1 there
      exact (member entry).own look here
    · obtain ⟨added, there, here⟩ := List.mem_flatMap.1 inside
      obtain ⟨cursor, low, rfl⟩ := List.mem_map.1 there
      obtain ⟨function, yield, held, same⟩ := (member cursor).functions entry here
      exact ⟨function, yield, List.mem_append_right _ (List.mem_flatMap.2
        ⟨_, List.mem_map_of_mem low, held⟩), same⟩

theorem plain_call : Plain file home (call file cursor home) := by
  obtain ⟨name, id, kind, -⟩ := sameNode_callNode file cursor (callSyntax file cursor)
  have kind : (callNode file cursor (callSyntax file cursor)).kind = .call := kind
  have itself : AllPlain file home (home.puts cursor (callNode file cursor (callSyntax file cursor))) := by
    refine .puts ?_ (by rw [kind]; decide) (by rw [kind]; nofun)
    rw [kind]
    exact id
  exact .of_parts itself (.looks rfl _) .nil

section Writes

variable (writes : (ExpressionForm.ofKind cursor.kind).Writes)
include writes

theorem plain_defines : AllPlain file home (defines file cursor home) := by
  unfold defines
  split
  · exact .nil
  · exact .puts rfl nofun fun _ => writes

theorem plain_assignment (augmented : Bool) :
    Plain file home (assignment file cursor home augmented) := by
  unfold assignment
  split
  · cases augmented with
    | true => exact .of_parts (plain_defines writes) (.looks rfl _) (.looks rfl _)
    | false => exact .of_parts (plain_defines writes) (.looks rfl _) .nil
  · exact plain_passes _

theorem plain_update : Plain file home (update file cursor home) := by
  unfold update
  split
  · exact .of_parts (plain_defines writes) (.looks rfl _) (.looks rfl _)
  · exact plain_passes _

end Writes

theorem plain_single : Plain file home (single file cursor home) := by
  unfold single
  split
  · exact plain_empty
  · split
    · exact plain_passes _
    · exact plain_opens _

theorem plain_exported : Plain file home (exported file cursor home) := by
  unfold exported
  split
  · exact plain_passes _
  · exact plain_opens _
  · exact plain_empty

theorem plain_expression (hint : Option Hint) :
    Plain file home (expression file cursor home hint) := by
  unfold expression
  split
  case h_6 form => exact plain_assignment (by rw [form]; decide) _
  case h_7 form => exact plain_assignment (by rw [form]; decide) _
  case h_8 form => exact plain_update (by rw [form]; decide)
  · exact plain_empty
  · exact plain_function _ _
  · exact plain_function _ _
  · exact plain_classLike _
  · exact plain_call
  · exact plain_passes _
  · exact plain_empty
  · exact plain_passes _

/-- A statement yields no parameter, and a site at which a function returns only if it is one. -/
theorem plain_of_not_returns (other : StatementForm.ofKind cursor.kind ≠ .returns) :
    Plain file home (statement file cursor home) := by
  unfold statement
  split
  case h_4 form => exact absurd form other
  · exact plain_passes _
  · exact plain_opens _
  · exact plain_single
  · exact plain_opens _
  · exact plain_opens _
  · exact plain_passes _
  · exact plain_opens _
  · exact plain_opens _
  · exact plain_opens _
  · exact plain_guarded
  · exact plain_opens _
  · exact plain_opens _
  · exact plain_passes _
  · exact plain_exported
  · exact plain_function _ _
  · exact plain_classLike _
  · exact plain_passes _
  · exact plain_passes _
  · exact plain_empty
  · exact plain_opens _

theorem fits_answers : Fits file home (answers file cursor home) := by
  refine ⟨fun yield inside => ?_, fun yield inside => ?_, Around.append (.looks rfl _) .nil,
    List.forall_mem_nil _⟩
  all_goals obtain rfl := List.mem_singleton.1 inside
  all_goals rfl

theorem fits_statement : Fits file home (statement file cursor home) := by
  by_cases returns : StatementForm.ofKind cursor.kind = .returns
  · unfold statement
    rw [returns]
    exact fits_answers
  · exact (plain_of_not_returns returns).toFits

theorem fits_pattern (mode : BindMode) : Fits file home (pattern file cursor home mode) := by
  unfold pattern
  split
  · cases mode with
    | declare word site =>
      refine ⟨fun yield inside => ?_, fun yield inside => ?_, List.forall_mem_nil _,
        List.forall_mem_nil _⟩
      all_goals obtain rfl := List.mem_singleton.1 inside
      all_goals rfl
    | assign site => exact plain_empty.toFits
    | param position rest optional hasDefault =>
      refine ⟨fun yield inside => ?_, fun yield inside => ?_, List.forall_mem_nil _,
        List.forall_mem_nil _⟩
      all_goals obtain rfl := List.mem_singleton.1 inside
      all_goals rfl
  · exact (plain_passes _).toFits

end Scheme

namespace Look

open Scheme

variable {file : SourceFile}

/-- What a look comes to fits the home of the look. -/
theorem fits (file : SourceFile) (look : Look) : (look.scheme file).Fits file look.home := by
  cases look with
  | statement cursor home => exact fits_statement
  | loopHeader cursor home => exact (plain_opens _).toFits
  | bind cursor home mode => exact fits_pattern mode
  | expression cursor home hint => exact (plain_expression hint).toFits

end Look

namespace Entry

variable {file : SourceFile} {entry : Entry}

/-- A function returns at the expression that it has in place of a body, right below it. -/
theorem of_mem_yields {yield : Yield} (inside : yield ∈ entry.yields file) :
    ∃ body, yield = ⟨body, Facts.expressionNode file body, Home.inside entry.node, true⟩ := by
  unfold yields at inside
  split at inside
  · cases inside
  · next body _ =>
    split at inside
    · cases inside
    · exact ⟨body, List.mem_singleton.1 inside⟩

theorem around_looks : ∀ look ∈ entry.looks file, look.home.function = some entry.node.id := by
  have same : Scheme.Around (Home.inside entry.node) (entry.looks file) := by
    unfold looks
    refine .append (.looks rfl _) ?_
    split
    · exact .nil
    · split
      · exact .looks rfl _
      · exact .looks rfl _
  exact same

end Entry

/-! ## Owned yields -/

/-- A look owns what it yields on its way without entering a function. -/
inductive Look.Owns (file : SourceFile) : Look → Yield → Prop
  | here {look : Look} {yield : Yield} : yield ∈ (look.scheme file).yields → Owns file look yield
  | next {look next : Look} {yield : Yield} :
      next ∈ (look.scheme file).next ++ (look.scheme file).again → Owns file next yield →
      Owns file look yield

/-- A function owns what is inside it, but not inside functions in it. -/
def Entry.Owns (file : SourceFile) (entry : Entry) (yield : Yield) : Prop :=
  yield ∈ entry.yields file ∨ ∃ look ∈ entry.looks file, look.Owns file yield

namespace Look

variable {file : SourceFile} {look : Look} {yield : Yield}

theorem Owns.around (owns : look.Owns file yield) : yield.home.function = look.home.function := by
  induction owns with
  | @here look yield inside => exact (look.fits file).around yield inside
  | @next look next yield inside _ ih => exact ih.trans ((look.fits file).looks next inside)

theorem Owns.drawn (owns : look.Owns file yield) : yield.Drawn file := by
  induction owns with
  | @here look yield inside => exact (look.fits file).drawn yield inside
  | next _ _ ih => exact ih

/-- The yield of a function that is entered. -/
def Entered (yields : List Yield) (entry : Entry) : Prop :=
  entry.node.kind = .func ∧ ∃ yield ∈ yields, yield.cursor = entry.cursor ∧ yield.node = entry.node

/-- What a look yields, it owns, or a function does that is entered. -/
theorem owns_or_entered (file : SourceFile) (look : Look) (inside : yield ∈ look.yields file) :
    look.Owns file yield ∨ ∃ entry, Entered (look.yields file) entry ∧ entry.Owns file yield := by
  have entered : ∀ entry ∈ (look.scheme file).functions, Entered (look.yields file) entry := by
    intro entry there
    obtain ⟨kind, yield, held, same⟩ := (look.fits file).functions entry there
    exact ⟨kind, yield, mem_yields.2 (.inl (List.mem_append_left _ held)), same⟩
  have deeper : ∀ next ∈ (look.scheme file).first file ++ (look.scheme file).again, ∀ entry,
      Entered (next.yields file) entry → Entered (look.yields file) entry :=
    fun next there entry ⟨kind, yield, held, same⟩ =>
      ⟨kind, yield, mem_yields.2 (.inr ⟨next, there, held⟩), same⟩
  rcases mem_yields.1 inside with here | ⟨next, follows, there⟩
  · rcases List.mem_append.1 here with own | returned
    · exact .inl (.here own)
    · obtain ⟨entry, function, held⟩ := List.mem_flatMap.1 returned
      exact .inr ⟨entry, entered entry function, .inl held⟩
  · have lighter : next.weight < look.weight := (scheme_follows file look next follows).weight_lt
    rcases owns_or_entered file next there with owns | ⟨entry, function, owns⟩
    · rcases List.mem_append.1 follows with first | second
      · rcases List.mem_append.1 first with same | inner
        · exact .inl (.next (List.mem_append_left _ same) owns)
        · obtain ⟨entry, function, held⟩ := List.mem_flatMap.1 inner
          exact .inr ⟨entry, entered entry (List.mem_reverse.1 function), .inr ⟨next, held, owns⟩⟩
      · exact .inl (.next (List.mem_append_right _ second) owns)
    · exact .inr ⟨entry, deeper next follows entry function, owns⟩
termination_by look.weight

end Look

theorem Entry.Owns.around {file : SourceFile} {entry : Entry} {yield : Yield}
    (owns : entry.Owns file yield) : yield.home.function = some entry.node.id := by
  rcases owns with returned | ⟨look, inside, owns⟩
  · obtain ⟨body, rfl⟩ := of_mem_yields returned
    rfl
  · exact owns.around.trans (around_looks look inside)

theorem Entry.Owns.drawn {file : SourceFile} {entry : Entry} {yield : Yield}
    (owns : entry.Owns file yield) : yield.Drawn file := by
  rcases owns with returned | ⟨look, inside, owns⟩
  · obtain ⟨body, rfl⟩ := of_mem_yields returned
    rfl
  · exact owns.drawn

namespace SourceFile

variable {file : SourceFile}

/-- The looks with which a file is begun. -/
def looks (file : SourceFile) : List Look :=
  ({} : Home).looks (Facts.statementTasks { tree := file.tree } {})

theorem mem_yields {yield : Yield} : yield ∈ file.yields ↔ ∃ look ∈ file.looks,
    yield ∈ look.yields file := List.mem_flatMap

/-- A yield of a file belongs to no function, or to one that is entered, which owns it. -/
theorem owned {yield : Yield} (inside : yield ∈ file.yields) :
    yield.Drawn file ∧ (yield.home.function = none ∨
      ∃ entry, Look.Entered file.yields entry ∧ entry.Owns file yield) := by
  obtain ⟨look, begun, there⟩ := mem_yields.1 inside
  rcases look.owns_or_entered file there with owns | ⟨entry, ⟨kind, other, held, same⟩, owns⟩
  · obtain ⟨task, -, rfl⟩ := List.mem_map.1 begun
    refine ⟨owns.drawn, .inl (owns.around.trans ?_)⟩
    cases task <;> rfl
  · exact ⟨owns.drawn, .inr ⟨entry, ⟨kind, other, mem_yields.2 ⟨look, begun, held⟩, same⟩, owns⟩⟩

end SourceFile

/-- The yields of a chart are told by their ids. -/
def Told (chart : List Yield) : Prop :=
  ∀ yield ∈ chart, ∀ other ∈ chart, yield.node.id = other.node.id → yield = other

/-- In a file whose syntax nodes are apart, yields are told by their ids. -/
theorem SourceFile.Apart.told {file : SourceFile} (apart : file.Apart) : Told file.yields := by
  intro yield inside other inside' same
  have drawn := (owned inside).1
  have drawn' := (owned inside').1
  obtain ⟨kind, start, stop⟩ := id_inj ((drawn.symm.trans same).trans drawn')
  exact List.inj_on_of_nodup_map apart inside inside' (by rw [kind, start, stop])

end CodeGraph

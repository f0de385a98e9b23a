import CodeGraph.Proofs.Facts.Yield

/-!
# What a syntax tree reads and writes

What a syntax tree reads, writes and declares, told from the tree alone. A *mention* is an access without
its handles (`Mention`): in place of nodes it has their ids, and in place of a scope nothing. What a look
mentions in its own function is what it mentions itself and what the looks that follow do
(`Look.mentions`); what is inside of the functions that it enters is mentioned there.

The statements of a *simple* body (`Look.isSimple`) have no statements inside. Some of them have accesses of
their own, the others mention what they do at the entry of the body (`Look.opens`). So the accesses of such a
body are in two parts, and the first one comes first however the text goes (`Script.of`). Looking at one
thing after the other comes to the same (`Script.playAll_eq`).
-/

namespace CodeGraph

/-- What a mention is about. -/
inductive Subject where
  /-- Whatever a name stands for. -/
  | name (text : String)
  /-- The variable whose node has an id. -/
  | node (id : String)
deriving DecidableEq, Repr

/-- A read or write at a site, as the syntax tells of it. -/
structure Mention where
  kind : AccessKind
  subject : Subject
  site : Option String
deriving DecidableEq, Repr

/-- The fields that a class writes, by what it yields. -/
def Mention.fields (yields : List Yield) : List Mention :=
  (yields.filter fun yield => yield.node.kind = .var).map fun yield =>
    { kind := .write, subject := .node yield.node.id, site := yield.home.container }

namespace Look

open Facts

/-- What a look mentions by itself. -/
def mentioned (file : SourceFile) : Look → List Mention
  | .statement cursor home =>
    if StatementForm.ofKind cursor.kind = .classLike then
      Mention.fields (Scheme.classLike file cursor home none).yields
    else []
  | .loopHeader _ _ => []
  | .bind cursor home mode =>
    if PatternForm.ofKind cursor.kind = .name then
      match mode with
      | .declare word _ =>
        [{ kind := .write, subject := .node (variableNode file cursor word).id
           site := home.container }]
      | .assign _ =>
        [{ kind := .write, subject := .name (file.textOf cursor), site := home.container }]
      | .param _ _ _ _ => []
    else []
  | .expression cursor home hint =>
    match ExpressionForm.ofKind cursor.kind with
    | .reference =>
      [{ kind := .read, subject := .name (file.textOf cursor), site := home.container }]
    | .classLike => Mention.fields (Scheme.classLike file cursor home hint).yields
    | _ => []

/-- The name of the variable or parameter that a look declares, and the id of its graph node. -/
def declared (file : SourceFile) : Look → List (String × String)
  | .bind cursor _ mode =>
    if PatternForm.ofKind cursor.kind = .name then
      match mode with
      | .declare word _ => [(file.textOf cursor, (variableNode file cursor word).id)]
      | .assign _ => []
      | .param position rest optional hasDefault =>
        [(file.textOf cursor, (paramNode file cursor position rest optional hasDefault).id)]
    else []
  | _ => []

theorem weight_lt_of_mem_inside {file : SourceFile} {look next : Look}
    (inside : next ∈ (look.scheme file).next ++ (look.scheme file).again) :
    next.weight < look.weight := by
  rcases List.mem_append.1 inside with first | again
  · exact weight_lt_of_mem_first (List.mem_append_left _ first)
  · exact weight_lt_of_mem_again again

/-- What a look and those that follow it in the same function come to. -/
def gather {α : Type} (file : SourceFile) (own : Look → List α) (look : Look) : List α :=
  own look ++ ((look.scheme file).next ++ (look.scheme file).again).attach.flatMap fun next =>
    gather file own next.1
termination_by look.weight
decreasing_by exact weight_lt_of_mem_inside next.2

theorem gather_eq {α : Type} (file : SourceFile) (own : Look → List α) (look : Look) :
    look.gather file own = own look ++
      ((look.scheme file).next ++ (look.scheme file).again).flatMap (gather file own) := by
  rw [gather]
  simp only [List.flatMap_subtype, List.unattach_attach]

/-- What a look reads and writes in its own function. -/
def mentions (file : SourceFile) (look : Look) : List Mention := look.gather file (mentioned file)

/-- What a look declares in its own function. -/
def declarations (file : SourceFile) (look : Look) : List (String × String) :=
  look.gather file (declared file)

end Look

/-! ## Simple bodies -/

/-- Whether a simple statement has accesses of its own. -/
def Cursor.opens (cursor : Cursor) : Bool :=
  match StatementForm.ofKind cursor.kind with
  | .declaration => true
  | .plain => true
  | .expression => cursor.firstNamed?.isSome
  | _ => false

/-- Whether a statement declares, or is an expression, a class, a function or nothing. A module in the place
of an expression is none. -/
def Cursor.isSimple (cursor : Cursor) : Bool :=
  match StatementForm.ofKind cursor.kind with
  | .declaration => true
  | .plain => true
  | .classLike => true
  | .function => true
  | .inert => true
  | .expression => !cursor.firstNamed?.any fun inner =>
      inner.kind == "internal_module" || inner.kind == "module"
  | _ => false

namespace Look

/-- Whether a look is at a statement with accesses of its own. -/
def opens : Look → Bool
  | .statement cursor _ => cursor.opens
  | _ => false

/-- Whether a look is at no statement, or at a simple one. -/
def isSimple : Look → Bool
  | .statement cursor _ => cursor.isSimple
  | .loopHeader _ _ => false
  | .bind _ _ _ => true
  | .expression _ _ _ => true

/-- Whether a look is at a pattern or at an expression. -/
def isPart : Look → Bool
  | .statement _ _ => false
  | .loopHeader _ _ => false
  | .bind _ _ _ => true
  | .expression _ _ _ => true

theorem isSimple_of_isPart {look : Look} (part : look.isPart = true) : look.isSimple = true := by
  cases look <;> first | rfl | cases part

theorem opens_of_isPart {look : Look} (part : look.isPart = true) : look.opens = false := by
  cases look <;> first | rfl | cases part

section Parts

open Facts

variable {file : SourceFile}

/-- All looks of a list are at patterns and expressions. -/
def AllParts (looks : List Look) : Prop := ∀ look ∈ looks, look.isPart = true

theorem allParts_nil : AllParts [] := nofun

theorem AllParts.append {looks others : List Look} (left : AllParts looks) (right : AllParts others) :
    AllParts (looks ++ others) := by
  intro look inside
  rcases List.mem_append.1 inside with first | second
  · exact left look first
  · exact right look second

/-- Tasks at patterns and expressions come to looks at them. -/
theorem allParts_looks {home : Home} {tasks : List Task} (parts : ∀ task ∈ tasks, task.adds = false) :
    AllParts (home.looks tasks) := by
  intro look inside
  obtain ⟨task, there, rfl⟩ := List.mem_map.1 inside
  have part := parts task there
  cases task <;> first | rfl | cases part

theorem parts_expressions {cursors : List Cursor} {context : Context} {hint : Option Hint} :
    ∀ task ∈ cursors.map fun child => Task.expression child context hint, task.adds = false := by
  intro task inside
  obtain ⟨child, -, rfl⟩ := List.mem_map.1 inside
  rfl

theorem parts_declaratorTasks (context : Context) (word : String) (site : Nat) (declarator : Cursor) :
    ∀ task ∈ declaratorTasks file context word site declarator, task.adds = false := by
  intro task inside
  unfold declaratorTasks at inside
  split at inside
  · split at inside
    · cases inside
    · rcases List.mem_append.1 inside with value | bound
      · obtain ⟨child, -, rfl⟩ := Option.map_eq_some_iff.1 (Option.mem_toList.1 value)
        rfl
      · obtain rfl := List.mem_singleton.1 bound
        rfl
  · cases inside

theorem parts_patternTasks (cursor : Cursor) (context : Context) (mode : BindMode) :
    ∀ task ∈ patternTasks cursor context mode, task.adds = false := by
  intro task inside
  unfold patternTasks at inside
  split at inside
  all_goals simp only [List.mem_map, List.mem_append, Option.mem_toList, Option.map_eq_some_iff,
    List.mem_singleton, List.not_mem_nil] at inside
  · obtain ⟨child, -, rfl⟩ := inside
    rfl
  · obtain ⟨child, -, rfl⟩ := inside
    rfl
  · obtain ⟨child, -, rfl⟩ | ⟨child, -, rfl⟩ := inside <;> rfl
  · obtain ⟨child, -, rfl⟩ := inside
    rfl
  · obtain rfl := inside
    rfl

theorem parts_pairTasks (cursor : Cursor) (context : Context) :
    ∀ task ∈ pairTasks file cursor context, task.adds = false := by
  intro task inside
  unfold pairTasks at inside
  simp only [List.mem_append, Option.mem_toList, Option.map_eq_some_iff] at inside
  obtain ⟨child, -, rfl⟩ | ⟨child, -, rfl⟩ := inside <;> rfl

theorem allParts_classLike (cursor : Cursor) (home : Home) (hint : Option Hint) :
    AllParts (Scheme.classLike file cursor home hint).next := by
  have member : ∀ (entry : Cursor) (inner : Home), AllParts (Scheme.member file entry inner).own := by
    intro entry inner
    unfold Scheme.member
    split
    · exact allParts_nil
    · split
      · split
        · exact allParts_nil
        · split
          · exact allParts_nil
          · split
            · exact allParts_nil
            · exact allParts_looks (by simp [Task.adds])
      · exact allParts_nil
  unfold Scheme.classLike
  simp only
  split
  · exact allParts_nil
  · refine .append (allParts_looks fun task inside => ?_) fun look inside => ?_
    · obtain ⟨base, -, rfl⟩ := Option.map_eq_some_iff.1 (Option.mem_toList.1 inside)
      rfl
    · obtain ⟨owner, listed, there⟩ := List.mem_flatMap.1 inside
      obtain ⟨entry, -, rfl⟩ := List.mem_map.1 listed
      exact member entry _ look there

theorem allParts_expression (cursor : Cursor) (home : Home) (hint : Option Hint) :
    AllParts ((Scheme.expression file cursor home hint).next
      ++ (Scheme.expression file cursor home hint).again) := by
  have descended : AllParts (home.looks (descend cursor {})) := allParts_looks parts_expressions
  have assigned : ∀ augmented, AllParts ((Scheme.assignment file cursor home augmented).next
      ++ (Scheme.assignment file cursor home augmented).again) := by
    intro augmented
    unfold Scheme.assignment
    split
    · cases augmented <;> intro look inside <;> simp [Home.looks, Task.look] at inside <;>
        rcases inside with rfl | rfl | rfl <;> rfl
    · exact descended.append allParts_nil
  unfold Scheme.expression
  split
  · exact allParts_nil
  · exact allParts_nil
  · exact allParts_nil
  · refine (allParts_classLike cursor home hint).append ?_
    unfold Scheme.classLike
    simp only
    split <;> exact allParts_nil
  · refine (allParts_looks fun task inside => ?_).append allParts_nil
    rcases List.mem_append.1 inside with target | argument
    · obtain ⟨child, -, rfl⟩ := Option.map_eq_some_iff.1 (Option.mem_toList.1 target)
      rfl
    · exact parts_expressions task argument
  · exact assigned false
  · exact assigned true
  · unfold Scheme.update
    split
    · intro look inside
      simp [Home.looks, Task.look] at inside
      rcases inside with rfl | rfl <;> rfl
    · exact descended.append allParts_nil
  · exact (allParts_looks (parts_pairTasks cursor {})).append allParts_nil
  · exact allParts_nil
  · exact descended.append allParts_nil

/-- What follows a simple look in its function is at patterns and expressions. -/
theorem allParts_of_isSimple {look : Look} (simple : look.isSimple = true) :
    AllParts ((look.scheme file).next ++ (look.scheme file).again) := by
  cases look with
  | loopHeader cursor home => cases simple
  | expression cursor home hint => exact allParts_expression cursor home hint
  | bind cursor home mode =>
    show AllParts ((Scheme.pattern file cursor home mode).next
      ++ (Scheme.pattern file cursor home mode).again)
    unfold Scheme.pattern
    split
    · split <;> exact allParts_nil
    · exact (allParts_looks (parts_patternTasks cursor {} mode)).append allParts_nil
  | statement cursor home =>
    have single : ∀ (value : Cursor) (inner : Home),
        AllParts (inner.looks [.expression value {} none] ++ []) := fun value inner =>
      (allParts_looks (by simp [Task.adds])).append allParts_nil
    show AllParts ((Scheme.statement file cursor home).next
      ++ (Scheme.statement file cursor home).again)
    change cursor.isSimple = true at simple
    unfold Cursor.isSimple at simple
    unfold Scheme.statement
    cases form : StatementForm.ofKind cursor.kind <;> simp only [form] at simple ⊢ <;>
      try contradiction
    case declaration =>
      refine (allParts_looks fun task inside => ?_).append allParts_nil
      obtain ⟨declarator, -, there⟩ := List.mem_flatMap.1 inside
      exact parts_declaratorTasks _ _ _ declarator task there
    case expression =>
      unfold Scheme.single
      cases found : cursor.firstNamed? with
      | none => exact allParts_nil
      | some inner =>
        have plain : ¬(inner.kind = "internal_module" ∨ inner.kind = "module") := by
          rw [found] at simple
          simpa [not_or] using simple
        simp only [if_neg plain]
        exact single _ _
    case function => exact allParts_nil
    case classLike =>
      refine (allParts_classLike cursor home none).append ?_
      unfold Scheme.classLike
      simp only
      split <;> exact allParts_nil
    case inert => exact allParts_nil
    case plain => exact single _ _

/-- A statement with accesses of its own mentions nothing but what is inside. -/
theorem mentioned_of_opens {look : Look} (opens : look.opens = true) : look.mentioned file = [] := by
  cases look with
  | statement cursor home =>
    refine if_neg fun form => ?_
    change cursor.opens = true at opens
    unfold Cursor.opens at opens
    rw [form] at opens
    cases opens
  | loopHeader cursor home => cases opens
  | bind cursor home mode => cases opens
  | expression cursor home hint => cases opens

end Parts

end Look

/-! ## Scripts -/

/-- What is mentioned in a body: at its entry, and in its statements one after the other. -/
structure Script where
  entry : List Mention := []
  statements : List (List Mention) := []
deriving DecidableEq, Repr

namespace Script

/-- What looks mention: those at statements with accesses of their own there, and the others at the entry. -/
def of (file : SourceFile) (looks : List Look) : Script where
  entry := (looks.filter fun look => !look.opens).flatMap (Look.mentions file)
  statements := (looks.filter Look.opens).map (Look.mentions file)

/-- All that is mentioned, in the order in which it happens. -/
def mentions (script : Script) : List Mention := script.entry ++ script.statements.flatten

/-- More is mentioned in a statement or at the entry. -/
def record (script : Script) (statement : Option Nat) (mentions : List Mention) : Script :=
  match statement with
  | none => { script with entry := script.entry ++ mentions }
  | some number =>
    { script with statements := script.statements.modify number fun list => list ++ mentions }

/-- There is one more statement. -/
def push (script : Script) : Script := { script with statements := script.statements ++ [[]] }

/-- A look at a statement, or at none. -/
abbrev Entry := Option Nat × Look

/-- What is mentioned when a look is done by itself. -/
def enter (file : SourceFile) (script : Script) (entry : Entry) : Script :=
  if entry.2.opens then script.push else script.record entry.1 (entry.2.mentioned file)

/-- The statement at which the looks are that follow a look. -/
def place (script : Script) (entry : Entry) : Option Nat :=
  if entry.2.opens then some script.statements.length else entry.1

/-- What is mentioned when a look is done together with those that follow. -/
def play (file : SourceFile) (script : Script) (entry : Entry) : Script :=
  if entry.2.opens then { script with statements := script.statements ++ [entry.2.mentions file] }
  else script.record entry.1 (entry.2.mentions file)

/-- What is mentioned when looks are done one after the other. -/
def playAll (file : SourceFile) (script : Script) (entries : List Entry) : Script :=
  entries.foldl (play file) script

variable {file : SourceFile}

theorem record_nil (script : Script) (statement : Option Nat) : script.record statement [] = script := by
  cases statement with
  | none => simp [record]
  | some number =>
    have same : (fun list : List Mention => list ++ []) = id := funext List.append_nil
    rw [record, same, List.modify_id]

theorem record_record (script : Script) (statement : Option Nat) (mentions others : List Mention) :
    (script.record statement mentions).record statement others =
      script.record statement (mentions ++ others) := by
  cases statement with
  | none => simp [record]
  | some number =>
    simp only [record, List.modify_modify_eq]
    congr 2
    funext list
    simp

/-- What is mentioned in a new statement is mentioned in the last one. -/
theorem record_push (script : Script) (mentions : List Mention) :
    script.push.record (some script.statements.length) mentions =
      { script with statements := script.statements ++ [mentions] } := by
  have last : ∀ list : List (List Mention), (list ++ [[]]).modify list.length (· ++ mentions) =
      list ++ [mentions] := by
    intro list
    induction list with
    | nil => rfl
    | cons first rest ih => exact congrArg (first :: ·) ih
  rw [record, push, last]

theorem playAll_append (script : Script) (entries others : List Entry) :
    script.playAll file (entries ++ others) = (script.playAll file entries).playAll file others :=
  List.foldl_append

/-- Looks at patterns and expressions mention all at one place. -/
theorem playAll_parts {looks : List Look} (parts : Look.AllParts looks) (script : Script)
    (statement : Option Nat) : script.playAll file (looks.map fun look => (statement, look)) =
      script.record statement (looks.flatMap (Look.mentions file)) := by
  induction looks generalizing script with
  | nil => exact (record_nil script statement).symm
  | cons look rest ih =>
    have step : script.play file (statement, look) = script.record statement (look.mentions file) :=
      if_neg (by simp [Look.opens_of_isPart (parts look List.mem_cons_self)])
    rw [List.map_cons, playAll, List.foldl_cons, step, ← playAll,
      ih fun other there => parts other (List.mem_cons_of_mem _ there), record_record,
      List.flatMap_cons]

/-- Doing a simple look is doing it by itself, and then what follows. -/
theorem play_eq {entry : Entry} (simple : entry.2.isSimple = true) (script : Script) :
    (script.enter file entry).playAll file
        (((entry.2.scheme file).next ++ (entry.2.scheme file).again).map fun next =>
          (script.place entry, next)) = script.play file entry := by
  obtain ⟨statement, look⟩ := entry
  rw [playAll_parts (Look.allParts_of_isSimple simple), play, enter, place]
  have whole := look.gather_eq file (Look.mentioned file)
  by_cases opens : look.opens = true
  · rw [Look.mentioned_of_opens opens, List.nil_append] at whole
    simp only [if_pos opens]
    rw [record_push, Look.mentions, whole]
    rfl
  · simp only [if_neg opens]
    rw [record_record, Look.mentions, whole]
    rfl

/-- What looks mention, done one after the other. -/
theorem playAll_eq (script : Script) (looks : List Look) :
    script.playAll file (looks.map fun look => (none, look)) =
      ⟨script.entry ++ (of file looks).entry, script.statements ++ (of file looks).statements⟩ := by
  induction looks generalizing script with
  | nil => simp [playAll, of]
  | cons look rest ih =>
    rw [List.map_cons, playAll, List.foldl_cons, ← playAll, ih]
    by_cases opens : look.opens = true <;> simp [play, record, of, opens]

end Script

end CodeGraph

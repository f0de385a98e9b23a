import CodeGraph.Proofs.Facts.Visit

/-!
# What names stand for in a file

The functions, classes, parameters and calls of a file, and what the names in it stand for, read off its
visits. A name stands for the function that is declared first under it, in the nearest scope around that
declares it (`SourceFile.resolve?`); what a call may reach by names is `SourceFile.Reaches`. Nothing here
mentions what the walk collects.
-/

namespace CodeGraph

open Facts

/-- A class that is visited: its name, and the functions that are entered for its methods. -/
structure Group where
  name : Option String
  methods : List Entry

namespace Look

variable (file : SourceFile)

/-- The function at a look, with the name that its surroundings suggest. A method is none. -/
def function? : Look → Option (Cursor × Option Hint)
  | statement cursor _ =>
    if StatementForm.ofKind cursor.kind = .function then some (cursor, none) else none
  | expression cursor _ hint =>
    if ExpressionForm.ofKind cursor.kind = .function then some (cursor, hint) else none
  | _ => none

/-- The syntax node of a class at a look, with the name that its surroundings suggest. -/
def class? : Look → Option (Cursor × Option Hint)
  | statement cursor _ =>
    if StatementForm.ofKind cursor.kind = .classLike then some (cursor, none) else none
  | expression cursor _ hint =>
    if ExpressionForm.ofKind cursor.kind = .classLike then some (cursor, hint) else none
  | _ => none

/-- The class at a look, with the functions that are entered for its methods. -/
def group? (look : Look) : Option Group :=
  look.class?.map fun made =>
    { name := givenName file made.1 made.2, methods := (look.scheme file).functions }

/-- The call at a look. -/
def call? : Look → Option Cursor
  | expression cursor _ _ =>
    if ExpressionForm.ofKind cursor.kind = .call then some cursor else none
  | _ => none

/-- The parameter that a look binds: its position and the id of its node. -/
def param? : Look → Option (Nat × String)
  | bind cursor _ (.param position _ _ _) =>
    if PatternForm.ofKind cursor.kind = .name then some (position, (file.nodeOf cursor .param none).id)
    else none
  | _ => none

end Look

namespace Visit

variable (file : SourceFile) (visit : Visit) (visits : List Visit)

/-- The functions that a visit enters. -/
def entered : List (Enclosure × Entry) :=
  (visit.look.scheme file).functions.zipIdx.map fun entry => (⟨visit.way, entry.2⟩, entry.1)

/-- What a visit declares: in a scope, under a name, the function of an id. -/
def declares? : Option ((Enclosure × String) × String) :=
  visit.look.function?.bind fun made =>
    visit.scopes.head?.bind fun around =>
      (declaredIn? file made.1 around ⟨visit.way, 0⟩ made.2).map fun declared =>
        (declared, (file.nodeOf made.1 .func none).id)

/-- The parameter that a visit binds, if it is in a function. -/
def paramOf? (function : Enclosure) : Option (Nat × String) :=
  if visit.function = some function then visit.look.param? file else none

/-- The functions that visits enter. -/
def functionsOf : List (Enclosure × Entry) := visits.flatMap (entered file)

/-- What visits declare. -/
def declarationsOf : List ((Enclosure × String) × String) := visits.filterMap (declares? file)

/-- The classes that are visited. -/
def classesOf : List Group := visits.filterMap fun visit => visit.look.group? file

/-- The parameters of a function that are bound. -/
def paramsOf (function : Enclosure) : List (Nat × String) :=
  visits.filterMap fun visit => visit.paramOf? file function

/-- The calls that are visited. -/
def callsOf : List (Visit × Cursor) :=
  visits.filterMap fun visit => visit.look.call?.map fun cursor => (visit, cursor)

end Visit

namespace SourceFile

variable (file : SourceFile)

/-- The functions of a file. -/
def functions : List (Enclosure × Entry) := Visit.functionsOf file file.course

/-- The classes of a file. -/
def classes : List Group := Visit.classesOf file file.course

/-- The calls of a file. -/
def calls : List (Visit × Cursor) := Visit.callsOf file.course

/-- The id of the node of a call. -/
def callId (cursor : Cursor) : String := (file.nodeOf cursor .call none).id

/-- The call of an id. Of several the last one counts. -/
def call? (id : String) : Option (Visit × Cursor) :=
  file.calls.reverse.find? fun made => file.callId made.2 = id

/-- The function of an id. Of several the last one counts. -/
def function? (id : String) : Option (Enclosure × Entry) :=
  file.functions.reverse.find? fun function => function.2.node.id = id

/-- The parameters of a function, with their positions. -/
def params (function : Enclosure) : List (Nat × String) := Visit.paramsOf file file.course function

/-- The function that is declared first in a scope under a name. -/
def declared? (scope : Enclosure) (name : String) : Option String :=
  (Visit.declarationsOf file file.course).lookup (scope, name)

/-- The function that a name stands for inside scopes, the nearest of which comes first. -/
def resolve? (scopes : List Enclosure) (name : String) : Option String :=
  scopes.findSome? fun scope => file.declared? scope name

/-- The function of an id has a name. -/
def Named (id name : String) : Prop :=
  ∃ function entry, file.function? id = some (function, entry) ∧ entry.node.name = some name

/-- The functions that a call may reach, by their ids.

* `declared`: what the name of a plain call stands for.
* `free`: any function of the name that is no method, if the name stands for nothing.
* `method`: a method of a class, for a call of a member.
* `constructor`: a constructor of a class of the name, for a call that makes an object. -/
inductive Reaches (visit : Visit) (cursor : Cursor) : String → Prop
  | declared {name id : String} : (callSyntax file cursor).callee = .function name →
      file.resolve? visit.scopes name = some id → Reaches visit cursor id
  | free {name : String} {function : Enclosure} {entry : Entry} :
      (callSyntax file cursor).callee = .function name → file.resolve? visit.scopes name = none →
      (function, entry) ∈ file.functions → entry.node.properties.isSet "isMethod" = false →
      entry.node.name = some name → Reaches visit cursor entry.node.id
  | method {receiver name : String} {group : Group} {entry : Entry} :
      (callSyntax file cursor).callee = .method receiver name → group ∈ file.classes →
      entry ∈ group.methods → file.Named entry.node.id name → Reaches visit cursor entry.node.id
  | constructor {name : String} {group : Group} {entry : Entry} :
      (callSyntax file cursor).callee = .constructor name → group ∈ file.classes →
      group.name = some name → entry ∈ group.methods → file.Named entry.node.id "constructor" →
      Reaches visit cursor entry.node.id

end SourceFile

end CodeGraph

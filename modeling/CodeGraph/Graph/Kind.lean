/-!
# Kinds of nodes and edges

The schema of the graph: seven kinds of nodes and eight kinds of edges, each with the name under
which it is written. Reading a name undoes writing it (`NodeKind.ofName?_name`,
`EdgeKind.ofName?_name`), and no other name is read (`NodeKind.name_of_ofName?`,
`EdgeKind.name_of_ofName?`).
-/

namespace CodeGraph

/-- The kind of unit that a node stands for. -/
inductive NodeKind where
  /-- A function declaration, function expression, arrow function or method. -/
  | func
  /-- A class declaration or class expression; an enumeration counts as a class. -/
  | cls
  /-- A declared variable name: a local, a class field or the name that a handler catches. -/
  | var
  /-- A formal parameter. -/
  | param
  /-- A call or a `new` expression. -/
  | call
  /-- A statement that takes part in control flow or data flow. -/
  | stmt
  /-- An expression that defines a value: an assignment, an update, an implicit return. -/
  | expr
deriving DecidableEq, Repr, Inhabited

namespace NodeKind

/-- Every kind, in the order of the schema. -/
def all : List NodeKind := [func, cls, var, param, call, stmt, expr]

/-- The name under which a kind is written. -/
def name : NodeKind → String
  | func => "function"
  | cls => "class"
  | var => "variable"
  | param => "parameter"
  | call => "call"
  | stmt => "statement"
  | expr => "expression"

/-- The kind of a given name. -/
def ofName? (text : String) : Option NodeKind :=
  all.find? fun kind => kind.name == text

theorem ofName?_name (kind : NodeKind) : ofName? kind.name = some kind := by
  cases kind <;> decide

theorem name_of_ofName? {text : String} {kind : NodeKind} (found : ofName? text = some kind) :
    kind.name = text := by
  have := List.find?_some found
  simpa using this

/-- Variables and parameters carry the values that data flow tracks. -/
def isBinding : NodeKind → Bool
  | var => true
  | param => true
  | _ => false

end NodeKind

/-- The kind of relation that an edge stands for. -/
inductive EdgeKind where
  /-- Containment: function to parameter, class to method, statement to call. -/
  | child
  /-- Execution may go from the source to the target. -/
  | successor
  /-- The converse of `successor`. -/
  | predecessor
  /-- A definition reaches a use. -/
  | flow
  /-- A function calls a function. -/
  | call
  /-- A function returns its value to a call. -/
  | result
  /-- A site defines a variable. -/
  | defines
  /-- A site reads a variable. -/
  | uses
deriving DecidableEq, Repr, Inhabited

namespace EdgeKind

/-- Every kind, in the order of the schema. -/
def all : List EdgeKind := [child, successor, predecessor, flow, call, result, defines, uses]

/-- The name under which a kind is written. -/
def name : EdgeKind → String
  | child => "ast_child"
  | successor => "cfg_successor"
  | predecessor => "cfg_predecessor"
  | flow => "data_flow"
  | call => "call"
  | result => "return"
  | defines => "defines"
  | uses => "uses"

/-- The kind of a given name. -/
def ofName? (text : String) : Option EdgeKind :=
  all.find? fun kind => kind.name == text

theorem ofName?_name (kind : EdgeKind) : ofName? kind.name = some kind := by
  cases kind <;> decide

theorem name_of_ofName? {text : String} {kind : EdgeKind} (found : ofName? text = some kind) :
    kind.name = text := by
  have := List.find?_some found
  simpa using this

/-- The edges of the dependency view: definitions, uses and def-use edges. -/
def isDependency : EdgeKind → Bool
  | defines => true
  | uses => true
  | flow => true
  | _ => false

end EdgeKind

/-- A name that is no kind of the schema. -/
structure UnknownKind where
  name : String
deriving DecidableEq, Repr

/-- The wording of the complaint about an unknown kind. -/
def UnknownKind.message (unknown : UnknownKind) : String :=
  "unknown graph type: " ++ unknown.name

/-- The node kind of a given name, or the complaint that there is none. -/
def NodeKind.parse (text : String) : Except UnknownKind NodeKind :=
  match ofName? text with
  | some kind => .ok kind
  | none => .error ⟨text⟩

/-- The edge kind of a given name, or the complaint that there is none. -/
def EdgeKind.parse (text : String) : Except UnknownKind EdgeKind :=
  match ofName? text with
  | some kind => .ok kind
  | none => .error ⟨text⟩

end CodeGraph

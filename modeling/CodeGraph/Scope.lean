import Std.Data.HashMap

/-!
# Lexical scopes

A table of scopes, each below its parent. Variables and functions have a name space each. A name
declared twice in a scope keeps its first declaration, and a name is looked up in the nearest scope
of the chain that declares it. A parent is always older than its children (`Scopes.parent_lt`), so
every chain ends in a scope without a parent. A scope is named by its number in the table; the scope
of the module is number 0.
-/

namespace CodeGraph

/-- One scope: its parent, whether it receives the hoisted declarations of the scopes below it, and
what it declares. -/
structure Scope where
  parent : Option Nat
  hoists : Bool
  declaredVariables : Std.HashMap String Nat := {}
  declaredFunctions : Std.HashMap String Nat := {}

/-- A table of scopes. -/
structure Scopes where
  list : Array Scope
  /-- A parent is older than its children. -/
  parent_lt : ∀ (id : Nat) (scope : Scope) (parent : Nat),
    list[id]? = some scope → scope.parent = some parent → parent < id

namespace Scopes

/-- The scope of the module itself. -/
def moduleScope : Nat := 0

/-- The table that holds the scope of the module alone. -/
def initial : Scopes where
  list := #[{ parent := none, hoists := true }]
  parent_lt := by
    intro id scope parent found named
    cases id with
    | zero => simp at found; subst found; simp at named
    | succ n => simp at found

/-- The parent that a new scope gets: one that is in the table. -/
def parentIn (scopes : Scopes) (parent : Nat) : Option Nat :=
  if parent < scopes.list.size then some parent else none

/-- Add a scope below a parent. -/
def push (scopes : Scopes) (parent : Nat) (hoists : Bool) : Scopes × Nat :=
  ({ list := scopes.list.push { parent := scopes.parentIn parent, hoists }
     parent_lt := by
      intro id scope above found named
      rw [Array.getElem?_push] at found
      split at found
      · rename_i last
        obtain rfl := Option.some.inj found
        simp only [parentIn, Option.ite_none_right_eq_some, Option.some.injEq] at named
        omega
      · exact scopes.parent_lt id scope above found named },
   scopes.list.size)

/-- Change a scope without touching its parent. -/
def modify (scopes : Scopes) (id : Nat) (change : Scope → Scope)
    (keeps : ∀ scope, (change scope).parent = scope.parent) : Scopes where
  list := scopes.list.modify id change
  parent_lt := by
    intro other scope parent found named
    rw [Array.getElem?_modify] at found
    split at found
    · obtain ⟨before, held, rfl⟩ := Option.map_eq_some_iff.1 found
      exact scopes.parent_lt other before parent held (by rw [← keeps before]; exact named)
    · exact scopes.parent_lt other scope parent found named

/-- Declare a variable; a name that the scope declares already stays as it is. -/
def declareVariable (scopes : Scopes) (id : Nat) (name : String) (node : Nat) : Scopes :=
  scopes.modify id
    (fun scope =>
      { scope with declaredVariables := scope.declaredVariables.insertIfNew name node })
    fun _ => rfl

/-- Declare a function; a name that the scope declares already stays as it is. -/
def declareFunction (scopes : Scopes) (id : Nat) (name : String) (node : Nat) : Scopes :=
  scopes.modify id
    (fun scope =>
      { scope with declaredFunctions := scope.declaredFunctions.insertIfNew name node })
    fun _ => rfl

/-- The first answer on the chain from a scope outwards. -/
def search {α : Type} (scopes : Scopes) (answer : Nat → Scope → Option α) (id : Nat) :
    Option α :=
  match found : scopes.list[id]? with
  | none => none
  | some scope =>
    match answer id scope with
    | some value => some value
    | none =>
      match named : scope.parent with
      | none => none
      | some parent =>
        have : parent < id := scopes.parent_lt id scope parent found named
        scopes.search answer parent
termination_by id

/-- The variable that a name stands for in a scope. -/
def resolveVariable (scopes : Scopes) (id : Nat) (name : String) : Option Nat :=
  scopes.search (fun _ scope => scope.declaredVariables[name]?) id

/-- The function that a name stands for in a scope. -/
def resolveFunction (scopes : Scopes) (id : Nat) (name : String) : Option Nat :=
  scopes.search (fun _ scope => scope.declaredFunctions[name]?) id

/-- The nearest scope of the chain that receives hoisted declarations. A scope without a parent
receives them in any case. -/
def hoistTarget (scopes : Scopes) (id : Nat) : Nat :=
  (scopes.search
    (fun at_ scope => if scope.hoists || scope.parent.isNone then some at_ else none) id).getD id

end Scopes

end CodeGraph

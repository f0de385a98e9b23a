import CodeGraph.Scope

/-!
# What scopes answer

A search through a chain of scopes gives the answer of the nearest scope that has one
(`Scopes.Nearest`). So a hoisted declaration goes to a scope that is there, a name stands for a node
under which it was declared (`Scopes.Declares`), and a name of a function for what the nearest scope that
declares it has under that name (`Scopes.resolveFunction_eq_some`).
-/

namespace CodeGraph

namespace Scopes

/-- A search asks a scope, and then goes on with the parent of the scope. -/
theorem search_eq {α : Type} {scopes : Scopes} (answer : Nat → Scope → Option α) {id : Nat}
    {scope : Scope} (held : scopes.list[id]? = some scope) :
    scopes.search answer id =
      (answer id scope).or (scope.parent.bind (scopes.search answer)) := by
  rw [search]
  split
  · next missing =>
    rw [missing] at held
    cases held
  · next other found =>
    obtain rfl : other = scope := Option.some.inj (found.symm.trans held)
    split
    · next value answered =>
      rw [answered]
      rfl
    · next silent =>
      rw [silent, Option.none_or]
      split
      · next top => simp only [top, Option.bind_none]
      · next parent above => simp only [above, Option.bind_some]

theorem search_of_missing {α : Type} {scopes : Scopes} (answer : Nat → Scope → Option α) {id : Nat}
    (missing : scopes.list[id]? = none) : scopes.search answer id = none := by
  rw [search]
  split
  · rfl
  · next found =>
    rw [missing] at found
    cases found

/-- What a search gives is the answer of a scope of the table. -/
theorem search_sound {α : Type} {scopes : Scopes} {answer : Nat → Scope → Option α} {id : Nat}
    {value : α} (found : scopes.search answer id = some value) :
    ∃ (number : Nat) (scope : Scope), scopes.list[number]? = some scope ∧
      answer number scope = some value := by
  induction id using Nat.strongRecOn with
  | ind id ih =>
    rw [search] at found
    split at found
    · cases found
    · next scope held =>
      split at found
      · next other here => exact ⟨id, scope, held, here.trans found⟩
      · split at found
        · cases found
        · next parent named => exact ih parent (scopes.parent_lt id scope parent held named) found

/-- Hoisting leads from a scope of the table to a scope of the table. -/
theorem hoistTarget_lt {scopes : Scopes} {id : Nat} (inside : id < scopes.list.size) :
    scopes.hoistTarget id < scopes.list.size := by
  unfold hoistTarget
  cases found : scopes.search _ id with
  | none => exact inside
  | some target =>
    obtain ⟨number, scope, held, here⟩ := search_sound found
    simp only [Option.ite_none_right_eq_some, Option.some.injEq] at here
    exact here.2 ▸ (Array.getElem?_eq_some_iff.1 held).1

/-- Some scope of the table declares a variable for a node. -/
def Declares (scopes : Scopes) (node : Nat) : Prop :=
  ∃ (number : Nat) (scope : Scope) (name : String), scopes.list[number]? = some scope ∧
    scope.declaredVariables[name]? = some node

theorem declares_of_resolveVariable {scopes : Scopes} {id : Nat} {name : String} {node : Nat}
    (found : scopes.resolveVariable id name = some node) : scopes.Declares node := by
  obtain ⟨number, scope, held, here⟩ := search_sound found
  exact ⟨number, scope, name, held, here⟩

theorem not_declares_initial (node : Nat) : ¬ initial.Declares node := by
  rintro ⟨number, scope, name, held, here⟩
  cases number with
  | zero =>
    have empty : scope = { parent := none, hoists := true } := (Option.some.inj held).symm
    rw [empty, Std.HashMap.getElem?_empty] at here
    cases here
  | succ number => simp [initial] at held

/-- A new scope declares nothing. -/
theorem declares_push {scopes : Scopes} {parent : Nat} {hoists : Bool} {node : Nat}
    (declares : (scopes.push parent hoists).1.Declares node) : scopes.Declares node := by
  obtain ⟨number, scope, name, held, here⟩ := declares
  simp only [push, Array.getElem?_push] at held
  split at held
  · obtain rfl := Option.some.inj held
    rw [Std.HashMap.getElem?_empty] at here
    cases here
  · exact ⟨number, scope, name, held, here⟩

/-- A declaration adds at most the node that it is about. -/
theorem declares_declareVariable {scopes : Scopes} {id declared : Nat} {text : String} {node : Nat}
    (declares : (scopes.declareVariable id text declared).Declares node) :
    scopes.Declares node ∨ node = declared := by
  obtain ⟨number, scope, name, held, here⟩ := declares
  simp only [declareVariable, modify, Array.getElem?_modify] at held
  split at held
  · obtain ⟨before, stood, rfl⟩ := Option.map_eq_some_iff.1 held
    rw [Std.HashMap.getElem?_insertIfNew] at here
    split at here
    · exact .inr (Option.some.inj here).symm
    · exact .inl ⟨number, before, name, stood, here⟩
  · exact .inl ⟨number, scope, name, held, here⟩

/-- Functions have a name space of their own. -/
theorem declares_declareFunction {scopes : Scopes} {id declared : Nat} {text : String} {node : Nat}
    (declares : (scopes.declareFunction id text declared).Declares node) : scopes.Declares node := by
  obtain ⟨number, scope, name, held, here⟩ := declares
  simp only [declareFunction, modify, Array.getElem?_modify] at held
  split at held
  · obtain ⟨before, stood, rfl⟩ := Option.map_eq_some_iff.1 held
    exact ⟨number, before, name, stood, here⟩
  · exact ⟨number, scope, name, held, here⟩

/-! ## The two tables of a scope -/

/-- What a scope itself has under a name, in one of its tables. -/
def entryIn? (scopes : Scopes) (table : Scope → Std.HashMap String Nat) (id : Nat) (name : String) :
    Option Nat :=
  scopes.list[id]?.bind fun scope => (table scope)[name]?

section Tables

variable {table : Scope → Std.HashMap String Nat} (scopes : Scopes) (id : Nat) (name : String)

theorem entryIn?_initial (empty : table { parent := none, hoists := true } = {}) :
    initial.entryIn? table id name = none := by
  cases id with
  | zero =>
    simp only [entryIn?, initial, List.getElem?_toArray, List.getElem?_cons_zero, Option.bind_some, empty]
    exact Std.HashMap.getElem?_empty
  | succ id => simp [initial, entryIn?]

theorem entryIn?_of_le {scopes : Scopes} {id : Nat} (beyond : scopes.list.size ≤ id) :
    scopes.entryIn? table id name = none := by
  rw [entryIn?, Array.getElem?_eq_none beyond, Option.bind_none]

/-- A new scope has nothing in its tables. -/
theorem entryIn?_push (parent : Nat) (hoists : Bool)
    (empty : ∀ above, table { parent := above, hoists } = {}) :
    (scopes.push parent hoists).1.entryIn? table id name = scopes.entryIn? table id name := by
  simp only [entryIn?, push, Array.getElem?_push]
  split
  · next last =>
    rw [last, Array.getElem?_eq_none (Nat.le_refl _), Option.bind_some, empty]
    exact Std.HashMap.getElem?_empty
  · rfl

/-- A change of a scope that leaves a table as it is. -/
theorem entryIn?_modify_of_keeps (declaring : Nat) {change : Scope → Scope}
    {keeps : ∀ scope, (change scope).parent = scope.parent}
    (same : ∀ scope, table (change scope) = table scope) :
    (scopes.modify declaring change keeps).entryIn? table id name = scopes.entryIn? table id name := by
  simp only [entryIn?, modify, Array.getElem?_modify]
  split
  · cases scopes.list[id]? with
    | none => rfl
    | some scope => simp only [Option.map_some, Option.bind_some, same]
  · rfl

/-- A change of a scope that declares a name in a table. A name that is there already stays as it is. -/
theorem entryIn?_modify_of_inserts {declaring : Nat} (there : declaring < scopes.list.size)
    {change : Scope → Scope} {keeps : ∀ scope, (change scope).parent = scope.parent} {text : String}
    {node : Nat} (inserts : ∀ scope, table (change scope) = (table scope).insertIfNew text node) :
    (scopes.modify declaring change keeps).entryIn? table id name =
      (scopes.entryIn? table id name).or (if declaring = id ∧ text = name then some node else none) := by
  simp only [entryIn?, modify, Array.getElem?_modify]
  by_cases here : declaring = id
  · subst here
    rw [if_pos rfl, Array.getElem?_eq_getElem there, Option.map_some, Option.bind_some,
      Option.bind_some, inserts, Std.HashMap.getElem?_insertIfNew]
    by_cases same : text = name
    · subst same
      by_cases held : text ∈ table scopes.list[declaring]
      · rw [Std.HashMap.getElem?_eq_some_getElem held]
        simp [held]
      · rw [Std.HashMap.getElem?_eq_none held]
        simp [held]
    · simp [same]
  · rw [if_neg here, if_neg fun both => here both.1, Option.or_none]

end Tables

/-! ## Functions by name -/

/-- The function that a scope itself declares under a name. -/
def functionIn? (scopes : Scopes) (id : Nat) (name : String) : Option Nat :=
  scopes.list[id]?.bind fun scope => scope.declaredFunctions[name]?

theorem functionIn?_initial (id : Nat) (name : String) : initial.functionIn? id name = none :=
  entryIn?_initial id name rfl

/-- A new scope declares no functions. -/
theorem functionIn?_push (scopes : Scopes) (parent : Nat) (hoists : Bool) (id : Nat)
    (name : String) : (scopes.push parent hoists).1.functionIn? id name =
      scopes.functionIn? id name :=
  entryIn?_push scopes id name parent hoists fun _ => rfl

/-- Variables have a name space of their own. -/
theorem functionIn?_declareVariable (scopes : Scopes) (declaring : Nat) (text : String)
    (node id : Nat) (name : String) :
    (scopes.declareVariable declaring text node).functionIn? id name =
      scopes.functionIn? id name :=
  entryIn?_modify_of_keeps scopes id name declaring fun _ => rfl

/-- A name that a scope declares already keeps its function. -/
theorem functionIn?_declareFunction (scopes : Scopes) {declaring : Nat}
    (there : declaring < scopes.list.size) (text : String) (node id : Nat) (name : String) :
    (scopes.declareFunction declaring text node).functionIn? id name =
      (scopes.functionIn? id name).or (if declaring = id ∧ text = name then some node else none) :=
  entryIn?_modify_of_inserts scopes id name there fun _ => rfl

/-- `scopes.Nearest declares id found`: on the chain from the scope `id` outwards, `found` is the first
scope that declares. -/
inductive Nearest (scopes : Scopes) (declares : Nat → Prop) : Nat → Nat → Prop
  | here {id : Nat} : declares id → Nearest scopes declares id id
  | above {id parent found : Nat} {scope : Scope} : ¬ declares id → scopes.list[id]? = some scope →
      scope.parent = some parent → Nearest scopes declares parent found →
      Nearest scopes declares id found

/-- What is found declares. -/
theorem Nearest.declares {scopes : Scopes} {declares : Nat → Prop} {id found : Nat}
    (nearest : scopes.Nearest declares id found) : declares found := by
  induction nearest with
  | here there => exact there
  | above _ _ _ _ ih => exact ih

/-- A scope that declares is the nearest one from itself. -/
theorem Nearest.eq_of_declares {scopes : Scopes} {declares : Nat → Prop} {id found : Nat}
    (nearest : scopes.Nearest declares id found) (there : declares id) : found = id := by
  cases nearest with
  | here _ => rfl
  | above silent _ _ _ => exact absurd there silent

/-- From a scope that does not declare, the nearest one is that from its parent. -/
theorem Nearest.of_silent {scopes : Scopes} {declares : Nat → Prop} {id found : Nat}
    (nearest : scopes.Nearest declares id found) (silent : ¬ declares id) : ∃ scope parent,
      scopes.list[id]? = some scope ∧ scope.parent = some parent ∧
        scopes.Nearest declares parent found := by
  cases nearest with
  | here there => exact absurd there silent
  | above _ held above rest => exact ⟨_, _, held, above, rest⟩

/-- A name stands for the function that the scope declares, and else for that of the parent. -/
theorem resolveFunction_eq (scopes : Scopes) (id : Nat) (name : String) :
    scopes.resolveFunction id name = (scopes.functionIn? id name).or
      ((scopes.list[id]?.bind Scope.parent).bind fun parent => scopes.resolveFunction parent name) := by
  cases held : scopes.list[id]? with
  | none => rw [resolveFunction, search_of_missing _ held, functionIn?, held]; rfl
  | some scope => rw [resolveFunction, search_eq _ held, functionIn?, held]; rfl

/-- A name stands for the function of the nearest scope that declares it. -/
theorem resolveFunction_eq_some {scopes : Scopes} {id : Nat} {name : String} {node : Nat} :
    scopes.resolveFunction id name = some node ↔
      ∃ scope, scopes.Nearest (fun scope => (scopes.functionIn? scope name).isSome) id scope ∧
        scopes.functionIn? scope name = some node := by
  induction id using Nat.strongRecOn with
  | ind id ih =>
    rw [resolveFunction_eq]
    cases found : scopes.functionIn? id name with
    | some function =>
      have declares : (scopes.functionIn? id name).isSome = true := by rw [found]; rfl
      rw [Option.some_or]
      constructor
      · intro same
        exact ⟨id, .here declares, found.trans same⟩
      · rintro ⟨other, nearest, there⟩
        obtain rfl := nearest.eq_of_declares declares
        exact found.symm.trans there
    | none =>
      have silent : ¬ (scopes.functionIn? id name).isSome = true := by simp [found]
      simp only [Option.none_or, Option.bind_eq_some_iff]
      constructor
      · rintro ⟨parent, ⟨scope, held, above⟩, resolved⟩
        obtain ⟨other, nearest, there⟩ :=
          (ih parent (scopes.parent_lt id scope parent held above)).1 resolved
        exact ⟨other, .above silent held above nearest, there⟩
      · rintro ⟨other, nearest, there⟩
        obtain ⟨scope, parent, held, above, rest⟩ := nearest.of_silent silent
        exact ⟨parent, ⟨scope, held, above⟩,
          (ih parent (scopes.parent_lt id scope parent held above)).2 ⟨other, rest, there⟩⟩

/-! ## Variables by name -/

/-- The variable that a scope itself declares under a name. -/
def variableIn? (scopes : Scopes) (id : Nat) (name : String) : Option Nat :=
  scopes.list[id]?.bind fun scope => scope.declaredVariables[name]?

theorem variableIn?_initial (id : Nat) (name : String) : initial.variableIn? id name = none :=
  entryIn?_initial id name rfl

theorem variableIn?_of_le {scopes : Scopes} {id : Nat} (beyond : scopes.list.size ≤ id) (name : String) :
    scopes.variableIn? id name = none :=
  entryIn?_of_le name beyond

/-- A new scope declares no variables. -/
theorem variableIn?_push (scopes : Scopes) (parent : Nat) (hoists : Bool) :
    (scopes.push parent hoists).1.variableIn? = scopes.variableIn? :=
  funext fun id => funext fun name => entryIn?_push scopes id name parent hoists fun _ => rfl

/-- Functions have a name space of their own. -/
theorem variableIn?_declareFunction (scopes : Scopes) (declaring : Nat) (text : String) (node : Nat) :
    (scopes.declareFunction declaring text node).variableIn? = scopes.variableIn? :=
  funext fun id => funext fun name => entryIn?_modify_of_keeps scopes id name declaring fun _ => rfl

/-- A name that a scope declares already keeps its variable. -/
theorem variableIn?_declareVariable (scopes : Scopes) {declaring : Nat}
    (there : declaring < scopes.list.size) (text : String) (node id : Nat) (name : String) :
    (scopes.declareVariable declaring text node).variableIn? id name =
      (scopes.variableIn? id name).or (if declaring = id ∧ text = name then some node else none) :=
  entryIn?_modify_of_inserts scopes id name there fun _ => rfl

/-- A name stands for the variable that the scope itself declares. -/
theorem resolveVariable_of_variableIn? {scopes : Scopes} {id : Nat} {name : String} {node : Nat}
    (found : scopes.variableIn? id name = some node) :
    scopes.resolveVariable id name = some node := by
  obtain ⟨scope, held, here⟩ := Option.bind_eq_some_iff.1 found
  rw [resolveVariable, search_eq _ held, here, Option.some_or]

/-- A name stands for a variable that some scope declares under it. -/
theorem variableIn?_of_resolveVariable {scopes : Scopes} {id : Nat} {name : String} {node : Nat}
    (found : scopes.resolveVariable id name = some node) :
    ∃ number, scopes.variableIn? number name = some node := by
  obtain ⟨number, scope, held, here⟩ := search_sound found
  exact ⟨number, Option.bind_eq_some_iff.2 ⟨scope, held, here⟩⟩

/-! ## Hoisting -/

/-- The parents of the scopes, and which of them receive hoisted declarations. -/
def frames (scopes : Scopes) : List (Option Nat × Bool) :=
  scopes.list.toList.map fun scope => (scope.parent, scope.hoists)

theorem frames_push (scopes : Scopes) (parent : Nat) (hoists : Bool) :
    (scopes.push parent hoists).1.frames = scopes.frames ++ [(scopes.parentIn parent, hoists)] := by
  simp only [frames, push, Array.toList_push, List.map_append, List.map_singleton]

theorem frames_modify (scopes : Scopes) (id : Nat) {change : Scope → Scope}
    (keeps : ∀ scope, (change scope).parent = scope.parent)
    (same : ∀ scope, (change scope).hoists = scope.hoists) :
    (scopes.modify id change keeps).frames = scopes.frames := by
  refine List.ext_getElem? fun place => ?_
  simp only [frames, modify, List.getElem?_map, Array.getElem?_toList, Array.getElem?_modify]
  split
  · cases scopes.list[place]? with
    | none => rfl
    | some scope => simp only [Option.map_some, keeps, same]
  · rfl

theorem frames_declareVariable (scopes : Scopes) (id : Nat) (name : String) (node : Nat) :
    (scopes.declareVariable id name node).frames = scopes.frames :=
  scopes.frames_modify id _ fun _ => rfl

theorem frames_declareFunction (scopes : Scopes) (id : Nat) (name : String) (node : Nat) :
    (scopes.declareFunction id name node).frames = scopes.frames :=
  scopes.frames_modify id _ fun _ => rfl

theorem length_frames (scopes : Scopes) : scopes.frames.length = scopes.list.size := by
  rw [frames, List.length_map, Array.length_toList]

theorem frame_eq_some {scopes : Scopes} {id : Nat} {frame : Option Nat × Bool} :
    scopes.frames[id]? = some frame ↔
      ∃ scope, scopes.list[id]? = some scope ∧ (scope.parent, scope.hoists) = frame := by
  rw [frames, List.getElem?_map, Array.getElem?_toList, Option.map_eq_some_iff]

/-- Whether a scope receives the hoisted declarations of the scopes below it. -/
def hoistsAt (scopes : Scopes) (id : Nat) : Bool := (scopes.frames[id]?.map Prod.snd).getD false

/-- A scope that hoists receives its own hoisted declarations. -/
theorem hoistTarget_of_hoists {scopes : Scopes} {id : Nat} (hoists : scopes.hoistsAt id = true) :
    scopes.hoistTarget id = id := by
  unfold hoistsAt at hoists
  cases held : scopes.frames[id]? with
  | none => rw [held] at hoists; cases hoists
  | some frame =>
    obtain ⟨scope, found, rfl⟩ := frame_eq_some.1 held
    rw [held] at hoists
    have hoists : scope.hoists = true := hoists
    rw [hoistTarget, search_eq _ found]
    simp [hoists]

/-- The answer of a scope to the question who receives hoisted declarations. -/
def receiver? (id : Nat) (scope : Scope) : Option Nat :=
  if scope.hoists || scope.parent.isNone then some id else none

/-- Somebody receives the hoisted declarations of each scope of the table. -/
theorem search_receiver? {scopes : Scopes} {id : Nat} (there : id < scopes.list.size) :
    scopes.search receiver? id = some (scopes.hoistTarget id) := by
  have found : (scopes.search receiver? id).isSome = true := by
    induction id using Nat.strongRecOn with
    | ind id ih =>
      have held := Array.getElem?_eq_getElem there
      rw [search_eq _ held, receiver?]
      cases above : scopes.list[id].parent with
      | none => simp
      | some parent =>
        have less := scopes.parent_lt id _ parent held above
        have further := ih parent less (Nat.lt_trans less there)
        cases scopes.list[id].hoists
        · simpa using further
        · simp
  obtain ⟨target, search⟩ := Option.isSome_iff_exists.1 found
  have same : scopes.hoistTarget id = (scopes.search receiver? id).getD id := rfl
  rw [same, search, Option.getD_some]

/-- The hoisted declarations of any other scope go where those of its parent go. -/
theorem hoistTarget_of_block {scopes : Scopes} {id parent : Nat}
    (held : scopes.frames[id]? = some (some parent, false)) :
    scopes.hoistTarget id = scopes.hoistTarget parent := by
  obtain ⟨scope, found, same⟩ := frame_eq_some.1 held
  obtain ⟨above, blocks⟩ := Prod.mk.inj same
  have less := scopes.parent_lt id scope parent found above
  have there := (Array.getElem?_eq_some_iff.1 found).1
  refine Option.some.inj ?_
  rw [← search_receiver? there, ← search_receiver? (Nat.lt_trans less there), search_eq _ found,
    receiver?, above, blocks]
  simp

/-- The scope to which hoisted declarations go hoists, or has no parent; in any case it receives its own. -/
theorem hoistTarget_hoistTarget {scopes : Scopes} {id : Nat} (there : id < scopes.list.size) :
    scopes.hoistTarget (scopes.hoistTarget id) = scopes.hoistTarget id := by
  obtain ⟨number, scope, held, here⟩ := search_sound (search_receiver? there)
  rw [receiver?, Option.ite_none_right_eq_some, Option.some.injEq] at here
  obtain ⟨receives, rfl⟩ := here
  refine Option.some.inj ?_
  rw [← search_receiver? (Array.getElem?_eq_some_iff.1 held).1, search_eq _ held, receiver?,
    if_pos receives, Option.some_or]

/-- Where hoisted declarations go does not change when scopes are added. -/
theorem hoistTarget_of_prefix {scopes after : Scopes} (grown : scopes.frames <+: after.frames)
    {id : Nat} (there : id < scopes.list.size) : after.hoistTarget id = scopes.hoistTarget id := by
  have later := grown.length_le
  rw [length_frames, length_frames] at later
  refine Option.some.inj ?_
  rw [← search_receiver? there, ← search_receiver? (Nat.lt_of_lt_of_le there later)]
  induction id using Nat.strongRecOn with
  | ind id ih =>
    have found := Array.getElem?_eq_getElem there
    have held : after.frames[id]? = some (scopes.list[id].parent, scopes.list[id].hoists) := by
      obtain ⟨more, whole⟩ := grown
      rw [← whole, List.getElem?_append_left (by rw [length_frames]; exact there)]
      exact frame_eq_some.2 ⟨_, found, rfl⟩
    obtain ⟨scope, found', same⟩ := frame_eq_some.1 held
    obtain ⟨parent, hoists⟩ := Prod.mk.inj same
    rw [search_eq _ found, search_eq _ found', receiver?, receiver?, parent, hoists]
    refine congrArg _ (Option.bind_congr fun above given => ?_)
    have less := scopes.parent_lt id _ above found given
    exact ih above less (Nat.lt_trans less there)

/-! ### Bodies -/

/-- The scopes that receive the hoisted declarations of the scopes below them: those of the module and of
the functions, in the order in which they were added. -/
def bodies (scopes : Scopes) : List Nat :=
  (List.range scopes.frames.length).filter scopes.hoistsAt

theorem nodup_bodies (scopes : Scopes) : scopes.bodies.Nodup := List.nodup_range.filter _

theorem mem_bodies {scopes : Scopes} {id : Nat} : id ∈ scopes.bodies ↔ scopes.hoistsAt id = true := by
  rw [bodies, List.mem_filter, List.mem_range, and_iff_right_iff_imp]
  refine fun hoists => Nat.lt_of_not_le fun outside => ?_
  rw [hoistsAt, List.getElem?_eq_none outside] at hoists
  cases hoists

theorem bodies_of_frames_eq {scopes after : Scopes} (same : after.frames = scopes.frames) :
    after.bodies = scopes.bodies := by
  have hoists : after.hoistsAt = scopes.hoistsAt := by
    funext id
    rw [hoistsAt, hoistsAt, same]
  rw [bodies, bodies, same, hoists]

theorem bodies_of_frames_push {scopes after : Scopes} {frame : Option Nat × Bool}
    (pushed : after.frames = scopes.frames ++ [frame]) :
    after.bodies = scopes.bodies ++ if frame.2 then [scopes.list.size] else [] := by
  have old : ∀ id ∈ List.range scopes.frames.length, after.hoistsAt id = scopes.hoistsAt id := by
    intro id inside
    rw [hoistsAt, hoistsAt, pushed, List.getElem?_append_left (List.mem_range.1 inside)]
  have new : after.hoistsAt scopes.frames.length = frame.2 := by
    rw [hoistsAt, pushed, List.getElem?_concat_length]
    rfl
  rw [bodies, bodies, pushed, List.length_append, List.length_singleton, List.range_succ,
    List.filter_append, List.filter_congr old, List.filter_cons, new, List.filter_nil, length_frames]

/-- When scopes are added, the bodies among them come behind the others. -/
theorem exists_bodies_of_prefix {scopes after : Scopes} (grown : scopes.frames <+: after.frames) :
    ∃ more, after.bodies = scopes.bodies ++ more ∧ ∀ id ∈ more, scopes.list.size ≤ id := by
  obtain ⟨more, whole⟩ := grown
  have old : ∀ id ∈ List.range scopes.frames.length, after.hoistsAt id = scopes.hoistsAt id := by
    intro id inside
    rw [hoistsAt, hoistsAt, ← whole, List.getElem?_append_left (List.mem_range.1 inside)]
  rw [bodies, bodies, ← List.filter_congr old, ← whole, List.length_append, List.range_add,
    List.filter_append]
  refine ⟨_, rfl, fun id inside => ?_⟩
  obtain ⟨offset, -, rfl⟩ := List.mem_map.1 (List.mem_filter.1 inside).1
  rw [← length_frames]
  exact Nat.le_add_right _ _

theorem bodies_of_prefix {scopes after : Scopes} (grown : scopes.frames <+: after.frames) :
    scopes.bodies <+: after.bodies := by
  obtain ⟨more, whole, -⟩ := exists_bodies_of_prefix grown
  exact ⟨more, whole.symm⟩

/-- The scope of a body that was added is new. -/
theorem le_of_bodies_of_prefix {scopes after : Scopes} (grown : scopes.frames <+: after.frames)
    {number id : Nat} (new : scopes.bodies.length ≤ number) (body : after.bodies[number]? = some id) :
    scopes.list.size ≤ id := by
  obtain ⟨more, whole, beyond⟩ := exists_bodies_of_prefix grown
  rw [whole, List.getElem?_append_right new] at body
  exact beyond id (List.mem_of_getElem? body)

end Scopes

end CodeGraph

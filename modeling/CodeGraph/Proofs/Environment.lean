import CodeGraph.Proofs.Checked.Table
import CodeGraph.Proofs.Facts.Run
import CodeGraph.Proofs.Halts

/-!
# Scopes as environments

A table of scopes is an environment chain (`Scopes.environment`). It is made by a history of acts: scopes
are added, and names declared, in two name spaces. What such a table answers is told by the history
alone (`Scopes.Chained`): a name stands for the node that was declared first under it, in the nearest scope
of the chain that declares it, and hoisted declarations go to the nearest scope that hoists.

All of it rests on two readings of a history. Adding scopes makes the chains (`Scopes.frames_after`), and
of the declarations in a scope, under a name and in a name space the first one counts
(`Scopes.declaredIn?_after`). Two tables that agree in both along a chain agree in what they answer there
(`Scopes.resolve_congr`).
-/

namespace CodeGraph

/-- The two name spaces of a scope. -/
inductive NameSpace where
  | variableNames
  | functionNames
deriving DecidableEq, Repr

/-- What a scope declares in a name space. -/
def Scope.table (scope : Scope) : NameSpace → Std.HashMap String Nat
  | .variableNames => scope.declaredVariables
  | .functionNames => scope.declaredFunctions

namespace Scopes

/-! ## Histories -/

/-- What can happen to a table of scopes: a scope is added below another one, or a name is declared in a
scope for a node. -/
inductive Act where
  | push (parent : Nat) (hoists : Bool)
  | declare (space : NameSpace) (scope : Nat) (name : String) (node : Nat)
deriving DecidableEq, Repr

namespace Act

/-- The parent of the scope that an act adds, and whether that scope hoists. -/
def frame? : Act → Option (Option Nat × Bool)
  | push parent hoists => some (some parent, hoists)
  | declare _ _ _ _ => none

/-- The node for which an act declares a name in a scope. -/
def declared? (space : NameSpace) (scope : Nat) (name : String) : Act → Option Nat
  | push _ _ => none
  | declare space' scope' name' node =>
    if space' = space ∧ scope' = scope ∧ name' = name then some node else none

end Act

/-- `Fits count history`: if there are `count` scopes in the beginning, then each act of the history is
about a scope that is there by then. -/
def Fits : Nat → List Act → Prop
  | _, [] => True
  | count, .push parent _ :: rest => parent < count ∧ Fits (count + 1) rest
  | count, .declare _ scope _ _ :: rest => scope < count ∧ Fits count rest

/-- The parents of the scopes that a history leads to, and which of them hoist: that of the module has no
parent, and hoists. -/
def framesOf (history : List Act) : List (Option Nat × Bool) :=
  (none, true) :: history.filterMap Act.frame?

/-- The node that is first declared under a name in a scope. -/
def firstDeclared? (history : List Act) (space : NameSpace) (scope : Nat) (name : String) :
    Option Nat :=
  history.findSome? (Act.declared? space scope name)

/-- One history is another one with declarations in other places: the scopes are added in the same order,
and so are the declarations of each name in each scope. -/
structure Reordered (history other : List Act) : Prop where
  frames : history.filterMap Act.frame? = other.filterMap Act.frame?
  declared : ∀ (space : NameSpace) (scope : Nat) (name : String),
    history.filterMap (Act.declared? space scope name) =
      other.filterMap (Act.declared? space scope name)

/-! ## Chains -/

/-- The parent of a scope. -/
def parentOf? (frames : List (Option Nat × Bool)) (id : Nat) : Option Nat :=
  frames[id]?.bind Prod.fst

/-- Whether a scope receives the hoisted declarations of the scopes below it. -/
def HoistsIn (frames : List (Option Nat × Bool)) (id : Nat) : Prop :=
  ∃ parent, frames[id]? = some (parent, true)

/-- `OnChain frames id above`: the chain from the scope `id` outwards comes by the scope `above`. -/
inductive OnChain (frames : List (Option Nat × Bool)) : Nat → Nat → Prop
  | here {id : Nat} : id < frames.length → OnChain frames id id
  | outwards {id parent above : Nat} : parentOf? frames id = some parent →
      OnChain frames parent above → OnChain frames id above

/-- `NearestOf frames holds id found`: on the chain from the scope `id` outwards, `found` is the first
scope for which `holds` holds. -/
inductive NearestOf (frames : List (Option Nat × Bool)) (holds : Nat → Prop) : Nat → Nat → Prop
  | here {id : Nat} : holds id → NearestOf frames holds id id
  | outwards {id parent found : Nat} : ¬ holds id → parentOf? frames id = some parent →
      NearestOf frames holds parent found → NearestOf frames holds id found

/-! ## What a table answers -/

/-- The table after an act. -/
def act (scopes : Scopes) : Act → Scopes
  | .push parent hoists => (scopes.push parent hoists).1
  | .declare .variableNames scope name node => scopes.declareVariable scope name node
  | .declare .functionNames scope name node => scopes.declareFunction scope name node

/-- The table that a history leads to. -/
def after (history : List Act) : Scopes := history.foldl act initial

/-- What a name stands for in a scope. -/
def resolve (scopes : Scopes) : NameSpace → Nat → String → Option Nat
  | .variableNames => scopes.resolveVariable
  | .functionNames => scopes.resolveFunction

/-- What a scope itself declares under a name. -/
def declaredIn? (scopes : Scopes) : NameSpace → Nat → String → Option Nat
  | .variableNames => scopes.variableIn?
  | .functionNames => scopes.functionIn?

/-- Two tables give the same answers. -/
structure SameAnswers (scopes other : Scopes) : Prop where
  resolve : ∀ (space : NameSpace) (id : Nat) (name : String),
    scopes.resolve space id name = other.resolve space id name
  hoistTarget : ∀ id : Nat, scopes.hoistTarget id = other.hoistTarget id

/-- Where the search for a name is: it looks at a scope, or is over. -/
inductive Search where
  | looking (id : Nat)
  | over (found : Option Nat)

/-- Where the search for a name goes from a scope: it is over where the name is declared, and where there is
no parent. -/
def Search.behind (scope : Scope) (space : NameSpace) (name : String) : Search :=
  match (scope.table space)[name]?, scope.parent with
  | some node, _ => .over (some node)
  | none, some parent => .looking parent
  | none, none => .over none

open Checked in
/-- One move of the search for a name, with every scope looked up. -/
def seek (scopes : Scopes) (space : NameSpace) (name : String) :
    Search → Except Missing (Option Search)
  | .looking id => do
    let scope ← entry .scopes scopes.list id
    return some (.behind scope space name)
  | .over _ => return none

open Checked in
/-- One move of the search for the scope to which hoisted declarations go. -/
def rise (scopes : Scopes) (id : Nat) : Except Missing (Option Nat) := do
  let scope ← entry .scopes scopes.list id
  return if scope.hoists then none else scope.parent

open Checked in
/-- What a table answers, told by a history: the searches end, wherever they begin, and come by scopes of
the table only; and they end at what is nearest on the chain. -/
structure Chained (scopes : Scopes) (history : List Act) : Prop where
  resolve_ends : ∀ (space : NameSpace) (name : String), ∀ id < (framesOf history).length,
    Halts (loop (scopes.seek space name)) (.ok (.looking id))
      (.ok (.over (scopes.resolve space id name)))
  resolve_eq_some : ∀ (space : NameSpace) (name : String) (node : Nat),
    ∀ id < (framesOf history).length, scopes.resolve space id name = some node ↔
      ∃ found, NearestOf (framesOf history)
          (fun scope => (firstDeclared? history space scope name).isSome) id found ∧
        firstDeclared? history space found name = some node
  resolve_eq_none : ∀ (space : NameSpace) (name : String), ∀ id < (framesOf history).length,
    scopes.resolve space id name = none ↔
      ∀ above, OnChain (framesOf history) id above →
        firstDeclared? history space above name = none
  hoist_ends : ∀ id < (framesOf history).length,
    Halts (loop scopes.rise) (.ok id) (.ok (scopes.hoistTarget id))
  hoist_nearest : ∀ id < (framesOf history).length,
    NearestOf (framesOf history) (HoistsIn (framesOf history)) id (scopes.hoistTarget id)

variable {scopes other : Scopes} {history : List Act} {space : NameSpace} {name : String} {id : Nat}

/-! ## Two readings of a history -/

theorem frames_act {act : Act} {rest : List Act} (fits : Fits scopes.list.size (act :: rest)) :
    (scopes.act act).frames = scopes.frames ++ act.frame?.toList ∧
      Fits (scopes.act act).list.size rest := by
  cases act with
  | push parent hoists =>
    obtain ⟨there, fits⟩ := fits
    refine ⟨?_, ?_⟩
    · rw [Scopes.act, frames_push, parentIn, if_pos there]
      rfl
    · simpa [Scopes.act, push] using fits
  | declare space scope name node =>
    obtain ⟨-, fits⟩ := fits
    cases space with
    | variableNames =>
      refine ⟨?_, ?_⟩
      · rw [Scopes.act, frames_declareVariable, Act.frame?, Option.toList_none, List.append_nil]
      · simpa [Scopes.act, declareVariable, modify] using fits
    | functionNames =>
      refine ⟨?_, ?_⟩
      · rw [Scopes.act, frames_declareFunction, Act.frame?, Option.toList_none, List.append_nil]
      · simpa [Scopes.act, declareFunction, modify] using fits

/-- The scopes of a history are those that its acts add, in order. -/
theorem frames_foldl (fits : Fits scopes.list.size history) :
    (history.foldl act scopes).frames = scopes.frames ++ history.filterMap Act.frame? := by
  induction history generalizing scopes with
  | nil => exact (List.append_nil _).symm
  | cons first rest ih =>
    obtain ⟨frames, fits⟩ := frames_act fits
    rw [List.foldl_cons, ih fits, frames, List.append_assoc, List.filterMap_cons]
    cases first.frame? <;> rfl

theorem frames_after (fits : Fits 1 history) : (after history).frames = framesOf history :=
  frames_foldl fits

/-- An act declares at most what it is about, and nothing that a scope declares already. -/
theorem declaredIn?_act {act : Act} {rest : List Act}
    (fits : Fits scopes.list.size (act :: rest)) (scope : Nat) (name : String) :
    (scopes.act act).declaredIn? space scope name =
      (scopes.declaredIn? space scope name).or (act.declared? space scope name) := by
  cases act with
  | push parent hoists =>
    rw [Act.declared?, Option.or_none]
    cases space with
    | variableNames => exact congrFun (congrFun (variableIn?_push scopes parent hoists) scope) name
    | functionNames => exact functionIn?_push scopes parent hoists scope name
  | declare declaring at_ text node =>
    have there := fits.1
    cases declaring with
    | variableNames =>
      cases space with
      | variableNames =>
        simpa [Scopes.act, declaredIn?, Act.declared?] using
          variableIn?_declareVariable scopes there text node scope name
      | functionNames =>
        simpa [Scopes.act, declaredIn?, Act.declared?] using
          functionIn?_declareVariable scopes at_ text node scope name
    | functionNames =>
      cases space with
      | variableNames =>
        simpa [Scopes.act, declaredIn?, Act.declared?] using
          congrFun (congrFun (variableIn?_declareFunction scopes at_ text node) scope) name
      | functionNames =>
        simpa [Scopes.act, declaredIn?, Act.declared?] using
          functionIn?_declareFunction scopes there text node scope name

/-- Of the declarations in a scope under a name the first one counts. -/
theorem declaredIn?_foldl (fits : Fits scopes.list.size history) (scope : Nat) (name : String) :
    (history.foldl act scopes).declaredIn? space scope name =
      (scopes.declaredIn? space scope name).or (firstDeclared? history space scope name) := by
  induction history generalizing scopes with
  | nil => exact (Option.or_none).symm
  | cons first rest ih =>
    rw [List.foldl_cons, ih (frames_act fits).2, declaredIn?_act fits, Option.or_assoc,
      firstDeclared?, firstDeclared?, List.findSome?_cons]
    cases first.declared? space scope name <;> rfl

theorem declaredIn?_after (fits : Fits 1 history) (scope : Nat) (name : String) :
    (after history).declaredIn? space scope name = firstDeclared? history space scope name := by
  have start : initial.declaredIn? space scope name = none := by
    cases space with
    | variableNames => exact variableIn?_initial scope name
    | functionNames => exact functionIn?_initial scope name
  have begun : Fits initial.list.size history := fits
  rw [after, declaredIn?_foldl begun, start, Option.none_or]

/-! ## Searches along a chain -/

theorem parentOf?_eq {scope : Scope} (held : scopes.list[id]? = some scope) :
    parentOf? scopes.frames id = scope.parent := by
  rw [parentOf?, frame_eq_some.2 ⟨scope, held, rfl⟩]
  rfl

/-- A parent is older, and a scope of the table. -/
theorem parentOf?_lt {parent : Nat} (above : parentOf? scopes.frames id = some parent) :
    parent < id ∧ id < scopes.list.size := by
  obtain ⟨frame, found, here⟩ := Option.bind_eq_some_iff.1 above
  obtain ⟨scope, held, rfl⟩ := frame_eq_some.1 found
  exact ⟨scopes.parent_lt id scope parent held here, (Array.getElem?_eq_some_iff.1 held).1⟩

/-- A name stands for what the scope itself declares, or else for what it stands for in the parent. -/
theorem resolve_eq (there : id < scopes.list.size) :
    scopes.resolve space id name = (scopes.declaredIn? space id name).or
      ((parentOf? scopes.frames id).bind fun parent => scopes.resolve space parent name) := by
  have held := Array.getElem?_eq_getElem there
  rw [parentOf?_eq held]
  cases space with
  | variableNames =>
    show scopes.search _ id = _
    rw [search_eq _ held, declaredIn?, variableIn?, held]
    rfl
  | functionNames =>
    show scopes.search _ id = _
    rw [search_eq _ held, declaredIn?, functionIn?, held]
    rfl

theorem resolve_of_le (beyond : scopes.list.size ≤ id) : scopes.resolve space id name = none := by
  have missing := Array.getElem?_eq_none beyond
  cases space with
  | variableNames => exact search_of_missing _ missing
  | functionNames => exact search_of_missing _ missing

/-- Tables with the same chains agree in what a name stands for, if they agree in what the scopes of the chain
declare under it. -/
theorem resolve_congr (same : scopes.frames = other.frames)
    (declared : ∀ above, OnChain scopes.frames id above →
      scopes.declaredIn? space above name = other.declaredIn? space above name) :
    scopes.resolve space id name = other.resolve space id name := by
  have size : scopes.list.size = other.list.size := by
    rw [← length_frames, ← length_frames, same]
  induction id using Nat.strongRecOn with
  | ind id ih =>
    rcases Nat.lt_or_ge id scopes.list.size with there | beyond
    · rw [resolve_eq there, resolve_eq (size ▸ there), declared id (.here (length_frames _ ▸ there)),
        ← same]
      refine congrArg _ (Option.bind_congr fun parent above => ?_)
      exact ih parent (parentOf?_lt above).1 fun further inside =>
        declared further (.outwards above inside)
    · rw [resolve_of_le beyond, resolve_of_le (size ▸ beyond)]

theorem hoistTarget_congr (same : scopes.frames = other.frames) (id : Nat) :
    scopes.hoistTarget id = other.hoistTarget id := by
  rcases Nat.lt_or_ge id other.list.size with there | beyond
  · exact hoistTarget_of_prefix (same ▸ List.prefix_rfl) there
  · have size : scopes.list.size = other.list.size := by
      rw [← length_frames, ← length_frames, same]
    rw [hoistTarget, hoistTarget, search_of_missing _ (Array.getElem?_eq_none beyond),
      search_of_missing _ (Array.getElem?_eq_none (size ▸ beyond))]

/-- A name stands for what the nearest scope declares that declares it. -/
theorem resolve_eq_some_iff {node : Nat} (there : id < scopes.list.size) :
    scopes.resolve space id name = some node ↔
      ∃ found, NearestOf scopes.frames (fun scope => (scopes.declaredIn? space scope name).isSome)
          id found ∧ scopes.declaredIn? space found name = some node := by
  induction id using Nat.strongRecOn with
  | ind id ih =>
    rw [resolve_eq there]
    cases here : scopes.declaredIn? space id name with
    | some first =>
      have holds : (scopes.declaredIn? space id name).isSome = true := by rw [here]; rfl
      rw [Option.some_or]
      constructor
      · intro same
        exact ⟨id, .here holds, here.trans same⟩
      · rintro ⟨found, nearest, declared⟩
        cases nearest with
        | here _ => exact here.symm.trans declared
        | outwards silent _ _ => exact absurd holds silent
    | none =>
      have silent : ¬ (scopes.declaredIn? space id name).isSome = true := by simp [here]
      rw [Option.none_or]
      constructor
      · intro resolved
        obtain ⟨parent, above, further⟩ := Option.bind_eq_some_iff.1 resolved
        obtain ⟨less, -⟩ := parentOf?_lt above
        obtain ⟨found, nearest, declared⟩ := (ih parent less (Nat.lt_trans less there)).1 further
        exact ⟨found, .outwards silent above nearest, declared⟩
      · rintro ⟨found, nearest, declared⟩
        cases nearest with
        | here holds => exact absurd holds silent
        | outwards _ above nearest =>
          obtain ⟨less, -⟩ := parentOf?_lt above
          exact Option.bind_eq_some_iff.2 ⟨_, above,
            (ih _ less (Nat.lt_trans less there)).2 ⟨found, nearest, declared⟩⟩

/-- A name stands for nothing if no scope of the chain declares it. -/
theorem resolve_eq_none_iff (there : id < scopes.list.size) :
    scopes.resolve space id name = none ↔
      ∀ above, OnChain scopes.frames id above → scopes.declaredIn? space above name = none := by
  induction id using Nat.strongRecOn with
  | ind id ih =>
    rw [resolve_eq there, Option.or_eq_none_iff, Option.bind_eq_none_iff]
    constructor
    · rintro ⟨here, further⟩ above chain
      cases chain with
      | here _ => exact here
      | outwards up chain =>
        obtain ⟨less, -⟩ := parentOf?_lt up
        exact (ih _ less (Nat.lt_trans less there)).1 (further _ up) above chain
    · intro silent
      refine ⟨silent id (.here (length_frames _ ▸ there)), fun parent up => ?_⟩
      obtain ⟨less, -⟩ := parentOf?_lt up
      exact (ih parent less (Nat.lt_trans less there)).2 fun above chain =>
        silent above (.outwards up chain)

/-! ## The searches end -/

open Checked in
/-- The search for a name ends, and comes by scopes of the table only. -/
theorem halts_seek (there : id < scopes.list.size) :
    Halts (loop (scopes.seek space name)) (.ok (.looking id))
      (.ok (.over (scopes.resolve space id name))) := by
  induction id using Nat.strongRecOn with
  | ind id ih =>
    have held := Array.getElem?_eq_getElem there
    have declared : scopes.declaredIn? space id name =
        (scopes.list[id].table space)[name]? := by
      cases space with
      | variableNames => rw [declaredIn?, variableIn?, held]; rfl
      | functionNames => rw [declaredIn?, functionIn?, held]; rfl
    have moves : scopes.seek space name (.looking id) =
        .ok (some (.behind scopes.list[id] space name)) := bind_eq (entry_eq .scopes held) rfl
    refine .next (by rw [loop, moves]) ?_
    rw [resolve_eq there, declared, parentOf?_eq held, Search.behind]
    cases (scopes.list[id].table space)[name]? with
    | some node => exact .ended rfl
    | none =>
      cases above : scopes.list[id].parent with
      | none => exact .ended rfl
      | some parent =>
        have less := scopes.parent_lt id _ parent held above
        exact ih parent less (Nat.lt_trans less there)

/-- A scope without a parent receives its own hoisted declarations. -/
theorem hoistTarget_of_top {scope : Scope} (held : scopes.list[id]? = some scope)
    (top : scope.parent = none) : scopes.hoistTarget id = id := by
  have receives : receiver? id scope = some id := by rw [receiver?, top]; simp
  have found := search_receiver? (Array.getElem?_eq_some_iff.1 held).1
  rw [search_eq _ held, receives, Option.some_or] at found
  exact (Option.some.inj found).symm

open Checked in
/-- The search for the scope to which hoisted declarations go ends. -/
theorem halts_rise (there : id < scopes.list.size) :
    Halts (loop scopes.rise) (.ok id) (.ok (scopes.hoistTarget id)) := by
  induction id using Nat.strongRecOn with
  | ind id ih =>
    have held := Array.getElem?_eq_getElem there
    have frame := frame_eq_some.2 ⟨_, held, rfl⟩
    have moves : scopes.rise id =
        .ok (if scopes.list[id].hoists then none else scopes.list[id].parent) :=
      bind_eq (entry_eq .scopes held) rfl
    cases hoists : scopes.list[id].hoists with
    | true =>
      have self : scopes.hoistTarget id = id :=
        hoistTarget_of_hoists (by rw [hoistsAt, frame, hoists]; rfl)
      exact self.symm ▸ .ended (by rw [loop, moves, if_pos hoists])
    | false =>
      have onward : loop scopes.rise (.ok id) = scopes.list[id].parent.map Except.ok := by
        rw [loop, moves, hoists]
        cases scopes.list[id].parent <;> rfl
      cases above : scopes.list[id].parent with
      | none =>
        rw [above] at onward
        exact (hoistTarget_of_top held above).symm ▸ .ended onward
      | some parent =>
        rw [above] at onward
        rw [above, hoists] at frame
        have less := scopes.parent_lt id _ parent held above
        rw [hoistTarget_of_block frame]
        exact .next onward (ih parent less (Nat.lt_trans less there))

/-- Each chain of a history ends in the scope of the module, which hoists. -/
theorem hoist_nearest (fits : Fits 1 history) (there : id < (framesOf history).length) :
    NearestOf (framesOf history) (HoistsIn (framesOf history)) id
      ((after history).hoistTarget id) := by
  have frames := frames_after fits
  induction id using Nat.strongRecOn with
  | ind id ih =>
    obtain ⟨⟨parent, hoists⟩, found⟩ : ∃ frame, (framesOf history)[id]? = some frame :=
      ⟨_, List.getElem?_eq_getElem there⟩
    cases hoists with
    | true =>
      have self : (after history).hoistTarget id = id :=
        hoistTarget_of_hoists (by rw [hoistsAt, frames, found]; rfl)
      exact self.symm ▸ .here ⟨parent, found⟩
    | false =>
      have blocks : ¬ HoistsIn (framesOf history) id := by
        rintro ⟨other, held⟩
        cases found.symm.trans held
      obtain ⟨outer, rfl⟩ : ∃ outer, parent = some outer := by
        rcases List.mem_cons.1 (List.mem_of_getElem? found) with same | pushed
        · cases same
        · obtain ⟨act, -, added⟩ := List.mem_filterMap.1 pushed
          cases act with
          | push outer hoists => exact ⟨outer, (Prod.mk.inj (Option.some.inj added)).1.symm⟩
          | declare => cases added
      have above : parentOf? (framesOf history) id = some outer := by rw [parentOf?, found]; rfl
      have less := (parentOf?_lt (frames ▸ above)).1
      rw [hoistTarget_of_block (frames ▸ found)]
      exact .outwards blocks above (ih outer less (Nat.lt_trans less there))

/-! ## Environments -/

/-- The table that a history leads to answers by the history. -/
theorem chained_after (fits : Fits 1 history) : (after history).Chained history := by
  have frames := frames_after fits
  have inside : ∀ {id}, id < (framesOf history).length → id < (after history).list.size := by
    intro id there
    rwa [← length_frames, frames]
  refine ⟨?resolve_ends, ?resolve_eq_some, ?resolve_eq_none, ?hoist_ends, ?hoist_nearest⟩
  case resolve_ends => exact fun space name id there => halts_seek (inside there)
  case resolve_eq_some =>
    intro space name node id there
    rw [resolve_eq_some_iff (inside there), frames]
    simp only [declaredIn?_after fits]
  case resolve_eq_none =>
    intro space name id there
    rw [resolve_eq_none_iff (inside there), frames]
    simp only [declaredIn?_after fits]
  case hoist_ends => exact fun id there => halts_rise (inside there)
  case hoist_nearest => exact fun id there => hoist_nearest fits there

/-- Histories with the same chains agree in what a name stands for where they agree in what is declared
first under it along the chain. -/
theorem resolve_after_congr {others : List Act} (fits : Fits 1 history) (fits' : Fits 1 others)
    (same : framesOf history = framesOf others)
    (first : ∀ above, OnChain (framesOf history) id above →
      firstDeclared? history space above name = firstDeclared? others space above name) :
    (after history).resolve space id name = (after others).resolve space id name := by
  have frames := frames_after fits
  refine resolve_congr (frames.trans (same.trans (frames_after fits').symm)) fun above chain => ?_
  rw [declaredIn?_after fits, declaredIn?_after fits']
  exact first above (frames ▸ chain)

theorem hoistTarget_after_congr {others : List Act} (fits : Fits 1 history) (fits' : Fits 1 others)
    (same : framesOf history = framesOf others) (id : Nat) :
    (after history).hoistTarget id = (after others).hoistTarget id :=
  hoistTarget_congr ((frames_after fits).trans (same.trans (frames_after fits').symm)) id

/-! ## One more declaration -/

theorem firstDeclared?_append (front back : List Act) (space : NameSpace) (scope : Nat)
    (name : String) : firstDeclared? (front ++ back) space scope name =
      (firstDeclared? front space scope name).or (firstDeclared? back space scope name) :=
  List.findSome?_append

/-- A declaration adds no scope. -/
theorem framesOf_insert (front back : List Act) (space : NameSpace) (scope : Nat) (name : String)
    (node : Nat) : framesOf (front ++ .declare space scope name node :: back) =
      framesOf (front ++ back) := by
  rw [framesOf, framesOf, List.filterMap_append, List.filterMap_append]
  rfl

theorem fits_append {front back : List Act} {count : Nat} : Fits count (front ++ back) ↔
    Fits count front ∧ Fits (count + (front.filterMap Act.frame?).length) back := by
  induction front generalizing count with
  | nil => exact ⟨fun fits => ⟨trivial, fits⟩, And.right⟩
  | cons act rest ih =>
    cases act with
    | push parent hoists =>
      have total : ((Act.push parent hoists :: rest).filterMap Act.frame?).length =
          (rest.filterMap Act.frame?).length + 1 := rfl
      rw [List.cons_append, Fits, Fits, ih, and_assoc, total, Nat.add_right_comm, Nat.add_assoc]
    | declare space scope name node =>
      have total : (Act.declare space scope name node :: rest).filterMap Act.frame? =
          rest.filterMap Act.frame? := rfl
      rw [List.cons_append, Fits, Fits, ih, and_assoc, total]

theorem Fits.insert {front back : List Act} (fits : Fits 1 (front ++ back)) {scope : Nat}
    (there : scope < (framesOf front).length) (space : NameSpace) (name : String) (node : Nat) :
    Fits 1 (front ++ .declare space scope name node :: back) := by
  obtain ⟨before, behind⟩ := fits_append.1 fits
  refine fits_append.2 ⟨before, ?_, behind⟩
  rwa [framesOf, List.length_cons, Nat.add_comm] at there

/-- Names are declared in scopes that are there. -/
theorem lt_of_firstDeclared? (fits : Fits 1 history) {scope : Nat}
    (declared : (firstDeclared? history space scope name).isSome) :
    scope < (framesOf history).length := by
  rw [← frames_after fits, length_frames]
  refine Nat.lt_of_not_le fun beyond => ?_
  have missing := Array.getElem?_eq_none beyond
  rw [← declaredIn?_after fits] at declared
  cases space with
  | variableNames => rw [declaredIn?, variableIn?, missing] at declared; cases declared
  | functionNames => rw [declaredIn?, functionIn?, missing] at declared; cases declared

/-- A declaration counts in its scope, for its name and in its name space only, and only if it is the
first one. -/
theorem firstDeclared?_insert {front back : List Act} {space' : NameSpace} {scope' : Nat}
    {name' : String} {scope node : Nat}
    (other : (space = space' ∧ scope = scope' ∧ name = name') →
      (firstDeclared? front space' scope' name').isSome) :
    firstDeclared? (front ++ .declare space scope name node :: back) space' scope' name' =
      firstDeclared? (front ++ back) space' scope' name' := by
  rw [firstDeclared?_append, firstDeclared?_append]
  by_cases same : space = space' ∧ scope = scope' ∧ name = name'
  · obtain ⟨first, found⟩ := Option.isSome_iff_exists.1 (other same)
    rw [found, Option.some_or, Option.some_or]
  · refine congrArg _ ?_
    rw [firstDeclared?, List.findSome?_cons, Act.declared?, if_neg same]
    rfl

/-- A table of scopes is an environment chain. It answers by what is declared first, in the scopes of the
chain from the nearest outwards, and its searches end. Where declarations in other scopes, of other names
or in the other name space stand in its history, and where scopes are added, does not matter. To declare a
name again in a scope changes nothing. And a declaration changes what its own name stands for, in its own
name space, in the scopes whose chain comes by its own, and no other answers. -/
theorem environment (history : List Act) (fits : Fits 1 history) :
    (after history).Chained history ∧
      (∀ others, Fits 1 others → Reordered history others →
        SameAnswers (after others) (after history)) ∧
      (∀ front back, history = front ++ back → ∀ space scope name node,
        (firstDeclared? front space scope name).isSome →
          SameAnswers (after (front ++ .declare space scope name node :: back)) (after history)) ∧
      ∀ front back, history = front ++ back → ∀ space scope name node,
        scope < (framesOf front).length →
          (∀ id, (after (front ++ .declare space scope name node :: back)).hoistTarget id =
            (after history).hoistTarget id) ∧
          ∀ space' id name', (after (front ++ .declare space scope name node :: back)).resolve space'
              id name' ≠ (after history).resolve space' id name' →
            space' = space ∧ name' = name ∧ OnChain (framesOf history) id scope := by
  refine ⟨chained_after fits, ?reordered, ?again, ?more⟩
  case reordered =>
    intro others fits' reordered
    have same : framesOf others = framesOf history := by rw [framesOf, framesOf, reordered.frames]
    refine ⟨fun space id name => resolve_after_congr fits' fits same fun above _ => ?_,
      hoistTarget_after_congr fits' fits same⟩
    rw [firstDeclared?, firstDeclared?, ← List.head?_filterMap, ← List.head?_filterMap,
      reordered.declared]
  case again =>
    rintro front back rfl space scope name node declared
    have fits' := fits.insert (lt_of_firstDeclared? (fits_append.1 fits).1 declared) space name node
    have same := framesOf_insert front back space scope name node
    refine ⟨fun space' id name' => resolve_after_congr fits' fits same fun above _ => ?_,
      hoistTarget_after_congr fits' fits same⟩
    refine firstDeclared?_insert ?_
    rintro ⟨rfl, rfl, rfl⟩
    exact declared
  case more =>
    rintro front back rfl space scope name node there
    have fits' := fits.insert there space name node
    have same := framesOf_insert front back space scope name node
    refine ⟨hoistTarget_after_congr fits' fits same, fun space' id name' differ => ?_⟩
    by_contra elsewhere
    refine differ (resolve_after_congr fits' fits same fun above chain => ?_)
    refine firstDeclared?_insert ?_
    rintro ⟨rfl, rfl, rfl⟩
    exact absurd ⟨rfl, rfl, same ▸ chain⟩ elsewhere

/-- A function below the module, which declares a name of the module again, and a block in it, where the
same name is that of a function. -/
def shadowed : List Act :=
  [.declare .variableNames 0 "x" 10, .push 0 true, .declare .variableNames 1 "x" 11, .push 1 false,
    .declare .functionNames 2 "x" 12]

theorem shadowed_answers :
    Fits 1 shadowed ∧ (after shadowed).resolve .variableNames 2 "x" = some 11 ∧
      (∀ id < 3, NearestOf (framesOf shadowed) (HoistsIn (framesOf shadowed)) id
        ((after shadowed).hoistTarget id)) ∧
      SameAnswers (after (shadowed ++ [.declare .variableNames 1 "x" 13])) (after shadowed) ∧
      (after (shadowed ++ [.declare .variableNames 2 "x" 14])).resolve .variableNames 1 "x" =
        some 11 := by
  have fits : Fits 1 shadowed := by simp [shadowed, Fits]
  obtain ⟨chained, -, again, more⟩ := environment shadowed fits
  have below : (after shadowed).resolve .variableNames 2 "x" = some 11 :=
    (chained.resolve_eq_some .variableNames "x" 11 2 (by decide)).2
      ⟨1, .outwards (by decide) rfl (.here (by decide)), by decide⟩
  have inside : (after shadowed).resolve .variableNames 1 "x" = some 11 :=
    (chained.resolve_eq_some .variableNames "x" 11 1 (by decide)).2
      ⟨1, .here (by decide), by decide⟩
  refine ⟨fits, below, chained.hoist_nearest, ?_, ?_⟩
  · exact again shadowed [] (List.append_nil _).symm .variableNames 1 "x" 13 (by decide)
  · by_contra differ
    -- the block is not on the chain of the function
    obtain ⟨-, -, chain⟩ := (more shadowed [] (List.append_nil _).symm .variableNames 2 "x" 14
      (by decide)).2 .variableNames 1 "x" (inside ▸ differ)
    cases chain with
    | outwards up chain =>
      cases up
      cases chain with
      | outwards up _ => cases up

/-! ## The scopes of a file -/

/-- A table is made by a history. -/
def Made (scopes : Scopes) : Prop := ∃ history, Fits 1 history ∧ scopes = after history

/-- What a table that is made by a history becomes by one more act is made by a history. -/
theorem Made.act (made : scopes.Made) (act : Act) (fits : Fits scopes.list.size [act]) :
    (scopes.act act).Made := by
  obtain ⟨history, before, rfl⟩ := made
  have size : (after history).list.size = 1 + (history.filterMap Act.frame?).length := by
    rw [← length_frames, frames_after before, framesOf, List.length_cons, Nat.add_comm]
  refine ⟨history ++ [act], fits_append.2 ⟨before, size ▸ fits⟩, ?_⟩
  rw [after, after, List.foldl_append]
  rfl

theorem Made.push (made : scopes.Made) {parent : Nat} (there : parent < scopes.list.size)
    (hoists : Bool) : (scopes.push parent hoists).1.Made :=
  made.act (.push parent hoists) ⟨there, trivial⟩

theorem Made.declareVariable (made : scopes.Made) {scope : Nat} (there : scope < scopes.list.size)
    (name : String) (node : Nat) : (scopes.declareVariable scope name node).Made :=
  made.act (.declare .variableNames scope name node) ⟨there, trivial⟩

theorem Made.declareFunction (made : scopes.Made) {scope : Nat} (there : scope < scopes.list.size)
    (name : String) (node : Nat) : (scopes.declareFunction scope name node).Made :=
  made.act (.declare .functionNames scope name node) ⟨there, trivial⟩

end Scopes

namespace Facts

variable {file : SourceFile} {base facts : Facts} {outer : Context} {adds : Bool}

/-- A function is declared in the scope around it, in the scope inside it, or nowhere. -/
theorem made_declareFunction (made : facts.scopes.Made) {around inside : Nat}
    (there : around < facts.scopes.list.size) (below : inside < facts.scopes.list.size)
    (cursor : Cursor) (ownName : Option String) (hint : Option Hint) (isMethod : Bool)
    (node : Nat) :
    (facts.declareFunction cursor around inside ownName hint isMethod node).scopes.Made := by
  unfold Facts.declareFunction
  simp only
  repeat' split
  all_goals first
    | exact made
    | exact made.declareFunction there _ _
    | exact made.declareFunction below _ _

/-- What the walk makes of scopes that a history made is made by a history. -/
theorem Makes.scopes_made (makes : Makes file base outer adds facts) (made : base.scopes.Made) :
    facts.scopes.Made := by
  induction makes with
  | start => exact made
  | place node parent _ _ _ _ ih => exact ih
  | record context access _ _ _ _ ih => exact ih
  | pushScope parent _ there ih => exact ih.push there false
  | pushStatement context site kind _ _ _ _ _ ih => rwa [pushStatement_eq]
  | pushArm context statement role _ _ _ _ _ ih => rwa [pushArm_eq]
  | recordReturn function site _ _ ih => cases function <;> exact ih
  | declareVariable scope name node _ there _ ih => exact ih.declareVariable there name node
  | declareIn context node _ _ _ _ ih => exact ih
  | addParam context node _ _ _ _ ih => exact ih
  | noteParam number position node _ _ _ ih => exact ih
  | @enterFunction facts cursor context hint isMethod _ known _ ih =>
    have size : (facts.scopes.push context.scope true).1.list.size = facts.scopes.list.size + 1 :=
      Array.size_push _
    exact made_declareFunction (ih.push known.scope true) (size ▸ Nat.lt_succ_of_lt known.scope)
      (size ▸ Nat.lt_succ_self _) cursor _ hint isMethod _
  | pushClass name _ ih => exact ih
  | noteMethod number node _ _ _ ih => exact ih
  | enterCall cursor context _ _ _ _ _ ih => exact ih

/-- The names of a file are looked up in an environment chain, which holds all scopes and all declarations
of the file by then. -/
theorem exists_history (file : SourceFile) :
    ∃ history, Scopes.Fits 1 history ∧ (Facts.of file).scopes = Scopes.after history ∧
      (Facts.of file).scopes.Chained history := by
  have visited : ∀ {facts tasks}, Visits file facts tasks → facts.scopes.Made := by
    intro facts tasks visits
    induction visits with
    | start => exact ⟨[], trivial, rfl⟩
    | @step facts task rest visits ih =>
      obtain ⟨sound, ready⟩ := visits.sound
      obtain ⟨known, has⟩ := ready task List.mem_cons_self
      exact (proceeds_step sound known has).made.scopes_made ih
  obtain ⟨history, fits, same⟩ := visited (.last file)
  exact ⟨history, fits, same, same ▸ Scopes.chained_after fits⟩

end Facts

end CodeGraph

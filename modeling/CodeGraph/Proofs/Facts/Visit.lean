import CodeGraph.Proofs.Facts.Owned

/-!
# Visits

In what order the syntax nodes of a file are looked at, and which scopes and which function are around
each, told from the tree alone. A *visit* is a look with what is around it (`Visit`), and the *course* over
a file lists its visits, each before those that follow it (`SourceFile.course`).

A scope or a function is told by the visit that opens it (`Enclosure`), and a visit by its *way*: its place
among those that follow the same visit, then the place of that one, and so on. No two visits have one way
(`SourceFile.nodup_course`), though some syntax nodes are visited twice.
-/

namespace CodeGraph

/-- A scope that a visit opens or a function that it enters: the way of the visit, and the number among
what it opens or enters. -/
structure Enclosure where
  way : List Nat
  number : Nat
deriving DecidableEq

/-- The scope of the module. -/
def Enclosure.module : Enclosure := ⟨[], 0⟩

/-- Where a look is that follows another one.

* `level`: in the same scope.
* `block`: in the scope that the other one opens.
* `inside`: in a function that the other one enters, by its number. -/
inductive Depth where
  | level
  | block
  | inside (number : Nat)

/-- Looks at one depth. -/
def Depth.looks (depth : Depth) (looks : List Look) : List (Look × Depth) :=
  looks.map fun look => (look, depth)

/-- Whether a look is one at a statement. -/
def Look.isStatement : Look → Bool
  | statement _ _ => true
  | _ => false

/-- The looks inside the functions that a scheme enters. Those of the last function come first. -/
def Scheme.inside (file : SourceFile) (scheme : Scheme) : List (Look × Depth) :=
  scheme.functions.zipIdx.reverse.flatMap fun entry =>
    (Depth.inside entry.2).looks (entry.1.looks file)

namespace Look

open Facts

variable (file : SourceFile)

/-- The looks that follow a statement in the same function. A block and a loop with a header have a scope
for all that is in them, a switch for the statements of its cases, and a guarded statement for its
handler. -/
def alongStatement (cursor : Cursor) (home : Home) : List (Look × Depth) :=
  let next := (Scheme.statement file cursor home).next
  match StatementForm.ofKind cursor.kind with
  | .block => Depth.block.looks next
  | .forLoop => Depth.block.looks next
  | .forEach => Depth.block.looks next
  | .switch => next.map fun look => (look, if look.isStatement then .block else .level)
  | .guarded =>
    let inner := home.below (statementNode file cursor)
    let cleanup := (cursor.field? "finalizer").bind fun finalizer => finalizer.field? "body"
    Depth.level.looks (inner.looks (fieldStatement cursor "body" {}))
      ++ Depth.block.looks (Scheme.handled file cursor inner).next
      ++ Depth.level.looks (inner.looks (cleanup.map fun body => Task.statement body {}).toList)
  | _ => Depth.level.looks next

/-- The looks that follow in the same function. -/
def along : Look → List (Look × Depth)
  | statement cursor home => alongStatement file cursor home
  | look => Depth.level.looks (look.scheme file).next

/-- The looks that follow a look, with their depths. -/
def onward (look : Look) : List (Look × Depth) :=
  look.along file ++ (look.scheme file).inside file ++ Depth.level.looks (look.scheme file).again

/-- How many scopes a statement opens: one for a block, or one for each function that it enters. -/
def scopeCountStatement (cursor : Cursor) (home : Home) : Nat :=
  match StatementForm.ofKind cursor.kind with
  | .block => 1
  | .forLoop => 1
  | .forEach => 1
  | .switch => 1
  | .guarded => if (cursor.field? "handler").isSome then 1 else 0
  | _ => (Scheme.statement file cursor home).functions.length

/-- How many scopes a look opens. -/
def scopeCount : Look → Nat
  | statement cursor home => scopeCountStatement file cursor home
  | look => (look.scheme file).functions.length

variable {file}

theorem map_fst_looks (depth : Depth) (looks : List Look) :
    (depth.looks looks).map Prod.fst = looks := by
  rw [Depth.looks, List.map_map]
  exact List.map_id looks

theorem map_fst_along (look : Look) : (look.along file).map Prod.fst = (look.scheme file).next := by
  cases look with
  | statement cursor home =>
    simp only [along, alongStatement, scheme]
    cases form : StatementForm.ofKind cursor.kind with
    | switch =>
      rw [List.map_map]
      exact List.map_id _
    | guarded =>
      simp only [Scheme.statement, form, Scheme.guarded, List.map_append, map_fst_looks]
    | _ => exact map_fst_looks _ _
  | loopHeader cursor home => exact map_fst_looks _ _
  | bind cursor home mode => exact map_fst_looks _ _
  | expression cursor home hint => exact map_fst_looks _ _

theorem map_fst_inside (scheme : Scheme) : (scheme.inside file).map Prod.fst =
    scheme.functions.reverse.flatMap (Entry.looks file) := by
  have named : scheme.functions.reverse = scheme.functions.zipIdx.reverse.map Prod.fst := by
    rw [List.map_reverse, List.zipIdx_map_fst]
  rw [Scheme.inside, List.map_flatMap, named, List.flatMap_map]
  exact List.flatMap_congr fun entry _ => map_fst_looks _ _

/-- What follows a look are the looks of its scheme. -/
theorem map_fst_onward (look : Look) : (look.onward file).map Prod.fst =
    (look.scheme file).first file ++ (look.scheme file).again := by
  rw [onward, List.map_append, List.map_append, map_fst_along, map_fst_inside, map_fst_looks,
    Scheme.first]

theorem weight_lt_of_mem_onward {look : Look} {next : Look × Depth}
    (inside : next ∈ look.onward file) : next.1.weight < look.weight := by
  have follows := List.mem_map_of_mem (f := Prod.fst) inside
  rw [map_fst_onward] at follows
  exact (scheme_follows file look next.1 follows).weight_lt

end Look

/-- A look, and what is around it. -/
structure Visit where
  /-- The place among what follows the visit before, then the place of that one, and so on. -/
  way : List Nat
  /-- The scopes around, from the nearest one outwards. -/
  scopes : List Enclosure
  function : Option Enclosure
  look : Look

namespace Visit

variable (file : SourceFile) (visit : Visit)

/-- The scopes around a look that follows at a depth. -/
def scopesAt : Depth → List Enclosure
  | .level => visit.scopes
  | .block => ⟨visit.way, 0⟩ :: visit.scopes
  | .inside number => ⟨visit.way, number⟩ :: visit.scopes

/-- The function around a look that follows at a depth. -/
def functionAt : Depth → Option Enclosure
  | .level => visit.function
  | .block => visit.function
  | .inside number => some ⟨visit.way, number⟩

/-- The visit that follows at a place. -/
def enter (look : Look) (depth : Depth) (place : Nat) : Visit where
  way := place :: visit.way
  scopes := visit.scopesAt depth
  function := visit.functionAt depth
  look := look

/-- The visits that follow. -/
def followers : List Visit :=
  (visit.look.onward file).zipIdx.map fun next => visit.enter next.1.1 next.1.2 next.2

variable {file} {visit}

theorem mem_followers {next : Visit} : next ∈ visit.followers file ↔ ∃ look depth place,
    (visit.look.onward file)[place]? = some (look, depth) ∧ visit.enter look depth place = next := by
  simp only [followers, List.mem_map, Prod.exists, List.mem_zipIdx_iff_getElem?]

theorem weight_lt_of_mem_followers {next : Visit} (inside : next ∈ visit.followers file) :
    next.look.weight < visit.look.weight := by
  obtain ⟨look, depth, place, there, rfl⟩ := mem_followers.1 inside
  exact Look.weight_lt_of_mem_onward (List.mem_of_getElem? there)

/-- A visit and all that follow it, each before those that follow it in turn. -/
def course (file : SourceFile) (visit : Visit) : List Visit :=
  visit :: (visit.followers file).attach.flatMap fun next => course file next.1
termination_by visit.look.weight
decreasing_by exact weight_lt_of_mem_followers next.2

theorem course_eq (visit : Visit) :
    visit.course file = visit :: (visit.followers file).flatMap (course file) := by
  rw [course, List.flatMap_subtype (g := course file) fun _ _ => rfl, List.unattach_attach]

end Visit

namespace SourceFile

variable (file : SourceFile)

/-- The visits of the statements of the module, in which nothing but the module is around. -/
def starts : List Visit :=
  file.looks.zipIdx.map fun start =>
    { way := [start.2], scopes := [.module], function := none, look := start.1 }

/-- All visits of a file, in their order. -/
def course : List Visit := file.starts.flatMap (Visit.course file)

end SourceFile

/-! ## Ways -/

namespace Visit

variable {file : SourceFile}

/-- What follows a visit is further on the way. -/
theorem way_of_mem_course {visit next : Visit} (inside : next ∈ visit.course file) :
    visit.way <:+ next.way := by
  induction visit using course.induct file with
  | case1 visit ih =>
    rw [course_eq] at inside
    rcases List.mem_cons.1 inside with rfl | later
    · exact List.suffix_refl _
    · obtain ⟨follower, there, here⟩ := List.mem_flatMap.1 later
      have further := ih ⟨follower, there⟩ here
      obtain ⟨look, depth, place, -, rfl⟩ := mem_followers.1 there
      exact (List.suffix_cons place visit.way).trans further

/-- The visits of courses have different ways if the courses begin at different ways of one length. -/
theorem nodup_courses {visits : List Visit} {length : Nat}
    (even : ∀ visit ∈ visits, visit.way.length = length) (apart : (visits.map Visit.way).Nodup)
    (each : ∀ visit ∈ visits, ((visit.course file).map Visit.way).Nodup) :
    ((visits.flatMap (course file)).map Visit.way).Nodup := by
  rw [List.map_flatMap, List.nodup_flatMap]
  refine ⟨each, (List.pairwise_map.1 apart).imp_of_mem fun {visit other} inside inside' differ => ?_⟩
  refine List.disjoint_left.2 fun way here there => differ ?_
  obtain ⟨next, listed, rfl⟩ := List.mem_map.1 here
  obtain ⟨next', listed', same⟩ := List.mem_map.1 there
  have further := way_of_mem_course listed'
  rw [same] at further
  have lengths := (even visit inside).trans (even other inside').symm
  exact (List.suffix_of_suffix_length_le (way_of_mem_course listed) further
    (Nat.le_of_eq lengths)).eq_of_length lengths

/-- Places on one way are different ways. -/
theorem nodup_ways {α : Type} (items : List α) (way : List Nat) :
    (items.zipIdx.map fun item => item.2 :: way).Nodup := by
  have places : (items.zipIdx.map Prod.snd).Nodup := by
    rw [List.zipIdx_map_snd]
    exact List.nodup_range'
  have further := places.map fun place other (same : place :: way = other :: way) =>
    (List.cons.inj same).1
  rw [List.map_map] at further
  exact further

theorem map_way_followers (visit : Visit) : (visit.followers file).map Visit.way =
    (visit.look.onward file).zipIdx.map fun next => next.2 :: visit.way := by
  rw [followers, List.map_map]
  rfl

/-- No two visits that follow a visit have one way. -/
theorem nodup_course (visit : Visit) : ((visit.course file).map Visit.way).Nodup := by
  induction visit using course.induct file with
  | case1 visit ih =>
    have even : ∀ next ∈ visit.followers file, next.way.length = visit.way.length + 1 := by
      intro next inside
      obtain ⟨look, depth, place, -, rfl⟩ := mem_followers.1 inside
      rfl
    rw [course_eq, List.map_cons, List.nodup_cons]
    constructor
    · intro inside
      obtain ⟨later, there, same⟩ := List.mem_map.1 inside
      obtain ⟨next, listed, here⟩ := List.mem_flatMap.1 there
      have further := (way_of_mem_course here).length_le
      rw [even next listed, same] at further
      exact Nat.not_succ_le_self _ further
    · refine nodup_courses even ?_ fun next listed => ih ⟨next, listed⟩
      rw [map_way_followers]
      exact nodup_ways _ _

end Visit

/-- No two visits of a file have one way. -/
theorem SourceFile.nodup_course (file : SourceFile) : (file.course.map Visit.way).Nodup := by
  have even : ∀ visit ∈ file.starts, visit.way.length = 1 := by
    intro visit inside
    obtain ⟨start, -, rfl⟩ := List.mem_map.1 inside
    rfl
  refine Visit.nodup_courses even ?_ fun visit _ => visit.nodup_course
  rw [starts, List.map_map]
  exact Visit.nodup_ways file.looks []

/-- No visit has the empty way. -/
theorem SourceFile.way_ne_nil {file : SourceFile} {visit : Visit} (inside : visit ∈ file.course) :
    visit.way ≠ [] := by
  obtain ⟨start, listed, there⟩ := List.mem_flatMap.1 inside
  obtain ⟨place, -, rfl⟩ := List.mem_map.1 listed
  intro empty
  have further := (Visit.way_of_mem_course there).length_le
  rw [empty] at further
  exact Nat.not_succ_le_zero _ further

end CodeGraph

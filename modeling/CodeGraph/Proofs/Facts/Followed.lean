import CodeGraph.Proofs.Facts.Depths
import CodeGraph.Proofs.Facts.Naming

/-!
# The walk follows the course

The walk over a file makes the visits of its course, in their order (`Facts.Follows`). The scope of a task has
the chain of scopes that are around the visit (`Scopes.Chained`), and the fact of its function has the number
that the function has on the course (`Task.Makes`).
-/

namespace CodeGraph

open Facts

/-! ## Chains of scopes -/

namespace Visit

variable (file : SourceFile)

/-- The chains of the scopes that a visit opens: each scope, and then those around it. -/
def opened (visit : Visit) : List (List Enclosure) :=
  (List.range (visit.look.scopeCount file)).map fun number => ⟨visit.way, number⟩ :: visit.scopes

/-- The chains of the scopes that there are after some visits, in the order in which they were opened. -/
def chainsOf (visits : List Visit) : List (List Enclosure) :=
  [.module] :: visits.flatMap (opened file)

/-- The functions that visits enter, in their order. -/
def enclosuresOf (visits : List Visit) : List Enclosure := (functionsOf file visits).map Prod.fst

variable {file} {visits : List Visit}

theorem chainsOf_concat (visits : List Visit) (visit : Visit) :
    chainsOf file (visits ++ [visit]) = chainsOf file visits ++ visit.opened file := by
  rw [chainsOf, chainsOf, List.flatMap_append, List.flatMap_singleton, List.cons_append]

theorem functionsOf_concat (visits : List Visit) (visit : Visit) :
    functionsOf file (visits ++ [visit]) = functionsOf file visits ++ visit.entered file := by
  rw [functionsOf, functionsOf, List.flatMap_append, List.flatMap_singleton]

theorem map_snd_entered (visit : Visit) :
    (visit.entered file).map Prod.snd = (visit.look.scheme file).functions := by
  rw [entered, List.map_map]
  exact List.zipIdx_map_fst 0 _

theorem enclosuresOf_concat (visits : List Visit) (visit : Visit) :
    enclosuresOf file (visits ++ [visit]) = enclosuresOf file visits ++
      (List.range (visit.look.scheme file).functions.length).map (Enclosure.mk visit.way) := by
  rw [enclosuresOf, functionsOf_concat, List.map_append]
  refine congrArg _ ?_
  rw [entered, List.map_map, List.range_eq_range', ← List.zipIdx_map_snd, List.map_map]
  rfl

/-- Scopes and functions keep their numbers. -/
theorem chainsOf_later (next : Visit) {number : Nat} {chain : List Enclosure}
    (found : (chainsOf file visits)[number]? = some chain) :
    (chainsOf file (visits ++ [next]))[number]? = some chain := by
  rw [chainsOf_concat, List.getElem?_append_left (List.getElem?_eq_some_iff.1 found).1, found]

theorem enclosuresOf_later (next : Visit) {number : Nat} {function : Enclosure}
    (found : (enclosuresOf file visits)[number]? = some function) :
    (enclosuresOf file (visits ++ [next]))[number]? = some function := by
  rw [enclosuresOf_concat, List.getElem?_append_left (List.getElem?_eq_some_iff.1 found).1, found]

/-- What is opened at different ways is different. -/
theorem nodup_enclosures (apart : (visits.map Visit.way).Nodup) (count : Visit → Nat) :
    (visits.flatMap fun visit => (List.range (count visit)).map (Enclosure.mk visit.way)).Nodup := by
  rw [List.nodup_flatMap]
  refine ⟨fun visit _ => List.nodup_range.map fun _ _ same => (Enclosure.mk.inj same).2,
    (List.pairwise_map.1 apart).imp fun {visit other} differ => ?_⟩
  refine List.disjoint_left.2 fun enclosure here there => differ ?_
  obtain ⟨number, -, rfl⟩ := List.mem_map.1 here
  obtain ⟨number', -, same⟩ := List.mem_map.1 there
  exact (Enclosure.mk.inj same).1.symm

/-- No function is entered twice. -/
theorem nodup_enclosuresOf (apart : (visits.map Visit.way).Nodup) : (enclosuresOf file visits).Nodup := by
  have numbered : enclosuresOf file visits = visits.flatMap fun visit =>
      (List.range (visit.look.scheme file).functions.length).map (Enclosure.mk visit.way) := by
    rw [enclosuresOf, functionsOf, List.map_flatMap]
    refine List.flatMap_congr fun visit _ => ?_
    rw [entered, List.map_map, List.range_eq_range', ← List.zipIdx_map_snd, List.map_map]
    rfl
  rw [numbered]
  exact nodup_enclosures apart _

/-- No scope is opened twice. -/
theorem nodup_heads (apart : (visits.map Visit.way).Nodup) (away : ∀ visit ∈ visits, visit.way ≠ []) :
    ((chainsOf file visits).map List.head?).Nodup := by
  have heads : (chainsOf file visits).map List.head? = (Enclosure.module :: visits.flatMap fun visit =>
      (List.range (visit.look.scopeCount file)).map (Enclosure.mk visit.way)).map some := by
    simp only [chainsOf, List.map_cons, List.head?_cons, List.map_flatMap, opened, List.map_map]
    rfl
  rw [heads]
  refine List.Nodup.map (Option.some_injective _) (List.nodup_cons.2 ⟨fun listed => ?_,
    nodup_enclosures apart _⟩)
  obtain ⟨visit, inside, there⟩ := List.mem_flatMap.1 listed
  obtain ⟨number, -, same⟩ := List.mem_map.1 there
  exact away visit inside (Enclosure.mk.inj same).1

/-- A scope has one chain. -/
theorem chain_unique (apart : ((chainsOf file visits).map List.head?).Nodup) {number other : Nat}
    {head : Enclosure} {tail tail' : List Enclosure}
    (found : (chainsOf file visits)[number]? = some (head :: tail))
    (found' : (chainsOf file visits)[other]? = some (head :: tail')) : number = other := by
  refine (List.getElem?_inj ?_ apart).1 ?_
  · rw [List.length_map]
    exact (List.getElem?_eq_some_iff.1 found).1
  · rw [List.getElem?_map, List.getElem?_map, found, found']
    rfl

end Visit

/-- The parents of scopes are told by their chains: each scope comes before the chain of its parent. -/
structure Chained (parents : List (Option Nat)) (chains : List (List Enclosure)) : Prop where
  length : chains.length = parents.length
  above : ∀ (number : Nat) (parent : Option Nat), parents[number]? = some parent →
    ∃ head tail, chains[number]? = some (head :: tail) ∧
      (parent = none ∧ tail = [] ∨ ∃ up, parent = some up ∧ chains[up]? = some tail)

namespace Chained

variable {parents : List (Option Nat)} {chains : List (List Enclosure)}

/-- Scopes are opened below one that is there. -/
theorem opens (chained : Chained parents chains) {around : Nat} {scopes : List Enclosure}
    (there : chains[around]? = some scopes) (heads : List Enclosure) :
    Chained (parents ++ List.replicate heads.length (some around))
      (chains ++ heads.map fun head => head :: scopes) := by
  have kept : ∀ {number : Nat} {chain : List Enclosure}, chains[number]? = some chain →
      (chains ++ heads.map fun head => head :: scopes)[number]? = some chain := fun found => by
    rw [List.getElem?_append_left (List.getElem?_eq_some_iff.1 found).1, found]
  refine ⟨?_, fun number parent found => ?_⟩
  · rw [List.length_append, List.length_append, chained.length, List.length_map,
      List.length_replicate]
  · rw [List.getElem?_append] at found
    split at found
    · obtain ⟨head, tail, listed, above⟩ := chained.above number parent found
      exact ⟨head, tail, kept listed, above.imp_right fun ⟨up, given, held⟩ => ⟨up, given, kept held⟩⟩
    · next beyond =>
      obtain ⟨less, rfl⟩ := List.getElem?_eq_some_iff.1 found
      rw [List.length_replicate] at less
      refine ⟨heads[number - parents.length], scopes, ?_, .inr ⟨around, List.getElem_replicate _, kept there⟩⟩
      rw [List.getElem?_append_right (by rw [chained.length]; exact Nat.le_of_not_lt beyond),
        chained.length, List.getElem?_map, List.getElem?_eq_getElem less, Option.map_some]

/-- A chain begins with its scope. -/
theorem exists_cons (chained : Chained parents chains) {number : Nat} {chain : List Enclosure}
    (found : chains[number]? = some chain) : ∃ head tail, chain = head :: tail := by
  have less := (List.getElem?_eq_some_iff.1 found).1
  rw [chained.length] at less
  obtain ⟨head, tail, held, -⟩ := chained.above number _ (List.getElem?_eq_getElem less)
  exact ⟨head, tail, Option.some.inj (found.symm.trans held)⟩

end Chained

/-! ## Tasks and visits -/

/-- A task is that of a visit, after some visits: its scope has the chain that is around the visit, and the
fact of its function has the number that the function has among those that were entered. -/
structure Task.Meets (file : SourceFile) (done : List Visit) (task : Task) (visit : Visit) : Prop where
  scope : (Visit.chainsOf file done)[task.context.scope]? = some visit.scopes
  function : Option.Rel (fun number enclosure =>
    (Visit.enclosuresOf file done)[number]? = some enclosure) task.context.function visit.function

theorem Task.Meets.later {file : SourceFile} {done : List Visit} {task : Task} {visit : Visit}
    (meets : task.Meets file done visit) (next : Visit) : task.Meets file (done ++ [next]) visit :=
  ⟨Visit.chainsOf_later next meets.scope, rel_imp (fun _ _ => Visit.enclosuresOf_later next) meets.function⟩

/-- A task is in the function of a number if its visit is in the function that has this number. -/
theorem Task.Meets.function_iff {file : SourceFile} {done : List Visit} {task : Task} {visit : Visit}
    (meets : task.Meets file done visit) (apart : (Visit.enclosuresOf file done).Nodup) {number : Nat}
    {function : Enclosure} (found : (Visit.enclosuresOf file done)[number]? = some function) :
    task.context.function = some number ↔ visit.function = some function := by
  constructor
  · intro around
    obtain ⟨enclosure, given, there⟩ := rel_some_left meets.function around
    rw [given, ← there, found]
  · intro given
    obtain ⟨place, around, there⟩ := rel_some_right meets.function given
    rw [around, (List.getElem?_inj (List.getElem?_eq_some_iff.1 found).1 apart).1 (found.trans there.symm)]

/-- The scope that a visit opens comes behind those that are there. -/
theorem Visit.getElem?_opened {file : SourceFile} {visit : Visit} (done : List Visit) {number : Nat}
    (less : number < visit.look.scopeCount file) :
    (chainsOf file (done ++ [visit]))[(chainsOf file done).length + number]? =
      some (⟨visit.way, number⟩ :: visit.scopes) := by
  rw [chainsOf_concat, List.getElem?_append_right (Nat.le_add_right _ _), Nat.add_sub_cancel_left, opened,
    List.getElem?_map, List.getElem?_range less, Option.map_some]

/-- The function that a visit enters comes behind those that are there. -/
theorem Visit.getElem?_entered {file : SourceFile} {visit : Visit} (done : List Visit) {number : Nat}
    (less : number < (visit.look.scheme file).functions.length) :
    (enclosuresOf file (done ++ [visit]))[(enclosuresOf file done).length + number]? =
      some ⟨visit.way, number⟩ := by
  rw [enclosuresOf_concat, List.getElem?_append_right (Nat.le_add_right _ _), Nat.add_sub_cancel_left,
    List.getElem?_map, List.getElem?_range less, Option.map_some]

namespace Facts

variable {file : SourceFile} {facts : Facts} {task : Task} {rest : List Task} {sight : Sight}
  {ahead : List Sight} {done : List Visit} {visit : Visit}

/-- The tasks that a step leaves are those of the visits that follow. -/
theorem Charted.meets_step (visits : Visits file facts (task :: rest))
    (charted : Charted file facts (task :: rest) (sight :: ahead))
    (scopes : (Visit.chainsOf file done).length = facts.scopes.list.size)
    (functions : (Visit.enclosuresOf file done).length = facts.functions.size)
    (look : visit.look = sight.look) (meets : task.Meets file done visit) :
    List.Forall₂ (Task.Meets file (done ++ [visit])) (facts.step file task).2
      (visit.followers file) := by
  have around := meets.later visit
  have opened : (facts.step file task).1.scopes.list.size =
      facts.scopes.list.size + visit.look.scopeCount file := by
    rw [← length_parents, charted.parents_step visits, List.length_append, length_parents,
      List.length_replicate, look]
  have entered : (facts.step file task).1.functions.size =
      facts.functions.size + (visit.look.scheme file).functions.length := look ▸ charted.plays.size
  have there : ∀ next ∈ (facts.step file task).2,
      next.context.scope < (facts.step file task).1.scopes.list.size := fun next inside =>
    (visits.step.sound.2 next (List.mem_append_left _ inside)).1.context.scope
  -- A look, its depth and its place make the visit that follows there.
  rw [Visit.followers, List.forall₂_map_right_iff]
  have stands := charted.stands_step
  have depths := charted.depths_step visits
  rw [← look, ← List.zipIdx_map_fst 0 (visit.look.onward file), List.forall₂_map_right_iff] at stands
  rw [← look, ← List.zipIdx_map_fst 0 (visit.look.onward file), AllDeep, List.forall₂_map_right_iff] at depths
  refine forall₂_sides (stands.mp (fun _ _ stands scope => And.intro stands scope) depths) there
    (fun _ _ => trivial) fun next item both less _ => ?_
  obtain ⟨stands, scope⟩ := both
  have function : next.context.function = item.1.2.function task.context.function facts.functions.size := by
    rw [charted.head.function]
    exact stands.function
  rw [scope, opened] at less
  obtain ⟨⟨look', depth⟩, place⟩ := item
  cases depth with
  | level => exact ⟨scope ▸ around.scope, function ▸ around.function⟩
  | block =>
    refine ⟨?_, function ▸ around.function⟩
    rw [scope, ← scopes]
    exact Visit.getElem?_opened done (Nat.pos_of_lt_add_right less)
  | inside number =>
    obtain ⟨id, -, about⟩ := stands.context.about function
    have few := about.lt
    rw [entered] at few
    constructor
    · rw [scope, ← scopes]
      exact Visit.getElem?_opened done (Nat.lt_of_add_lt_add_left less)
    · rw [function, ← functions]
      exact .some (Visit.getElem?_entered done (Nat.lt_of_add_lt_add_left few))

end Facts

end CodeGraph

import CodeGraph.Proofs.Facts.FileNodes
import CodeGraph.Proofs.Facts.Ledger

/-!
# What calls reach

The functions that the tables of a file hold for a call (`Facts.Candidate`) are those that the call may reach
by the names in the tree (`Facts.candidate_iff`). Names stand for the same in the scopes of the walk and in
those of the course (`Facts.rel_resolve`), and the facts about functions are found by the ids of their nodes
(`Facts.rel_function?`).
-/

namespace CodeGraph

namespace Facts

variable {file : SourceFile} {facts : Facts} {call : CallFact}

/-- Nodes are the same if their ids are. -/
theorem eq_iff_of_idAt {node other : Nat} {id id' : String} (there : (Facts.of file).graph.IdAt node id)
    (there' : (Facts.of file).graph.IdAt other id') : node = other ↔ id = id' := by
  obtain ⟨held, found, rfl⟩ := there
  obtain ⟨held', found', rfl⟩ := there'
  constructor
  · rintro rfl
    rw [Option.some.inj (found.symm.trans found')]
  · exact (sound_of file).formed.handle_unique found found'

/-! ## Names -/

theorem resolve?_cons (file : SourceFile) (head : Enclosure) (tail : List Enclosure) (name : String) :
    file.resolve? (head :: tail) name = (file.declared? head name).or (file.resolve? tail name) := by
  rw [SourceFile.resolve?, List.findSome?_cons]
  cases file.declared? head name <;> rfl

/-- A name stands for the function that the scopes of the course tell. -/
theorem rel_resolve (file : SourceFile) (name : String) (number : Nat) {chain : List Enclosure}
    (found : (Visit.chainsOf file file.course)[number]? = some chain) :
    Option.Rel (Facts.of file).graph.IdAt ((Facts.of file).scopes.resolveFunction number name)
      (file.resolve? chain name) := by
  have tabled := tabled_of file
  induction number using Nat.strongRecOn generalizing chain with
  | ind number ih =>
    have less := (List.getElem?_eq_some_iff.1 found).1
    rw [tabled.chained.length, length_parents] at less
    have held := Array.getElem?_eq_getElem less
    have up : (Facts.of file).parents[number]? = some (Facts.of file).scopes.list[number].parent := by
      rw [parents, Scopes.frames, List.map_map, List.getElem?_map, Array.getElem?_toList, held]
      rfl
    obtain ⟨head, tail, listed, above⟩ := tabled.chained.above number _ up
    obtain rfl := Option.some.inj (found.symm.trans listed)
    rw [Scopes.resolveFunction_eq, resolve?_cons, held, Option.bind_some]
    refine rel_or (tabled.declared number head tail name found) ?_
    rcases above with ⟨none, rfl⟩ | ⟨parent, given, outer⟩
    · rw [none]
      exact .none
    · rw [given]
      exact ih parent ((Facts.of file).scopes.parent_lt number _ parent held given) outer

/-! ## Functions by their nodes -/

/-- What meets a condition at a place, with nothing behind it that does, is the last that does. -/
theorem find?_reverse_eq_some {α : Type} {items : List α} {condition : α → Bool} {place : Nat} {item : α}
    (found : items[place]? = some item) (here : condition item = true)
    (behind : ∀ (later : Nat) (other : α), items[later]? = some other → condition other = true →
      later ≤ place) : items.reverse.find? condition = some item := by
  obtain ⟨less, rfl⟩ := List.getElem?_eq_some_iff.1 found
  have length : items.reverse.length = items.length := List.length_reverse
  refine List.find?_eq_some_iff_getElem.2 ⟨here, items.length - 1 - place, by omega, ?_, ?_⟩
  · rw [List.getElem_reverse]
    congr 1
    omega
  · intro before fewer
    rw [List.getElem_reverse, Bool.not_eq_true', Bool.eq_false_iff]
    intro also
    have := behind _ _ (List.getElem?_eq_getElem (by omega)) also
    omega

/-- The index leads from a node to the last fact about it. -/
theorem Recorded.function?_eq (recorded : Recorded file facts) (node : Nat) :
    facts.function? node = facts.functions.toList.reverse.find? fun fact => fact.node = node := by
  have signed : ∀ {place : Nat} {fact : FunctionFact}, facts.functions.toList[place]? = some fact →
      facts.signatures[place]? = some fact.signature := fun held => by
    rw [signatures, List.getElem?_map, held]
    rfl
  rw [Facts.function?]
  cases indexed : facts.functionIndex[node]? with
  | none =>
    refine (List.find?_eq_none.2 fun fact listed same => ?_).symm
    obtain ⟨place, held⟩ := List.getElem?_of_mem (List.mem_reverse.1 listed)
    obtain ⟨number, found, -⟩ := recorded.indexed place fact.signature (signed held)
    obtain rfl := of_decide_eq_true same
    cases indexed.symm.trans found
  | some number =>
    obtain ⟨signature, held, rfl⟩ := recorded.index node number indexed
    rw [signatures, List.getElem?_map, Option.map_eq_some_iff] at held
    obtain ⟨fact, held, rfl⟩ := held
    rw [Option.bind_some, ← Array.getElem?_toList, held]
    refine (find?_reverse_eq_some held (decide_eq_true rfl) fun later other listed same => ?_).symm
    obtain ⟨found, there, most⟩ := recorded.indexed later other.signature (signed listed)
    have one : other.signature.node = fact.signature.node := of_decide_eq_true same
    rw [one] at there
    exact Option.some.inj (indexed.symm.trans there) ▸ most

/-- The fact about a node tells of the function of its id. -/
theorem rel_function? {node : Nat} {id : String} (there : (Facts.of file).graph.IdAt node id) :
    Option.Rel (FunctionFact.Tells file (Facts.of file).graph) ((Facts.of file).function? node)
      (file.function? id) := by
  rw [(recorded_of file).function?_eq]
  refine rel_last (functions_of file) fun fact made tells => ?_
  exact decide_eq_decide.2 (eq_iff_of_idAt tells.signature.node there)

/-! ## Candidates -/

/-- The functions that the tables of a file hold for a call.

* `declared`: what the name of a plain call stands for in the scope of the call.
* `free`: any function of the name that is no method, if the name stands for nothing.
* `method`: a method of a class, for a call of a member.
* `constructor`: a constructor of a class of the name, for a call that makes an object. -/
inductive Candidate (file : SourceFile) (call : CallFact) : Nat → Prop
  | declared {name : String} {target : Nat} : call.callee = .function name →
      (Facts.of file).scopes.resolveFunction call.scope name = some target → Candidate file call target
  | free {name : String} {fact : FunctionFact} : call.callee = .function name →
      (Facts.of file).scopes.resolveFunction call.scope name = none →
      fact ∈ (Facts.of file).functions → fact.isMethod = false → fact.name = some name →
      Candidate file call fact.node
  | method {receiver name : String} {owner : ClassFact} {target : Nat} {fact : FunctionFact} :
      call.callee = .method receiver name → owner ∈ (Facts.of file).classes →
      target ∈ owner.methods → (Facts.of file).function? target = some fact →
      fact.name = some name → Candidate file call target
  | constructor {name : String} {owner : ClassFact} {target : Nat} {fact : FunctionFact} :
      call.callee = .constructor name → owner ∈ (Facts.of file).classes → owner.name = some name →
      target ∈ owner.methods → (Facts.of file).function? target = some fact →
      fact.name = some "constructor" → Candidate file call target

theorem isNamed_iff {name : String} {node : Nat} : facts.isNamed name node = true ↔
    ∃ fact, facts.function? node = some fact ∧ fact.name = some name := by
  rw [isNamed, beq_iff_eq, Option.bind_eq_some_iff]

theorem mem_methodsNamed {classes : List ClassFact} {name : String} {target : Nat} :
    target ∈ facts.methodsNamed classes name ↔ ∃ owner ∈ classes, target ∈ owner.methods ∧
      ∃ fact, facts.function? target = some fact ∧ fact.name = some name := by
  rw [methodsNamed, List.mem_filter, List.mem_flatMap, isNamed_iff]
  constructor
  · rintro ⟨⟨owner, listed, inside⟩, named⟩
    exact ⟨owner, listed, Array.mem_toList_iff.1 inside, named⟩
  · rintro ⟨owner, listed, inside, named⟩
    exact ⟨⟨owner, listed, Array.mem_toList_iff.2 inside⟩, named⟩

/-- The functions that are looked up for a call are those that it may reach. -/
theorem mem_candidates {target : Nat} :
    target ∈ (Facts.of file).candidates call ↔ Candidate file call target := by
  unfold candidates
  constructor
  · intro inside
    split at inside
    · next name callee =>
      split at inside
      · next function found =>
        obtain rfl := List.mem_singleton.1 inside
        exact .declared callee found
      · next missing =>
        obtain ⟨fact, listed, rfl⟩ := List.mem_map.1 inside
        simp only [List.mem_filter, Array.mem_toList_iff, Bool.and_eq_true, Bool.not_eq_true',
          beq_iff_eq] at listed
        exact .free callee missing listed.1 listed.2.1 listed.2.2
    · next receiver name callee =>
      obtain ⟨owner, listed, there, fact, known, named⟩ := mem_methodsNamed.1 inside
      exact .method callee (Array.mem_toList_iff.1 listed) there known named
    · next name callee =>
      obtain ⟨owner, listed, there, fact, known, named⟩ := mem_methodsNamed.1 inside
      simp only [List.mem_filter, Array.mem_toList_iff, beq_iff_eq] at listed
      exact .constructor callee listed.1 listed.2 there known named
    · cases inside
  · intro candidate
    cases candidate with
    | declared callee found =>
      rw [callee]
      simp only [found, List.mem_singleton]
    | free callee missing listed free named =>
      rw [callee]
      simp only [missing]
      refine List.mem_map_of_mem (List.mem_filter.2 ⟨Array.mem_toList_iff.2 listed, ?_⟩)
      simp [free, named]
    | method callee listed there known named =>
      rw [callee]
      exact mem_methodsNamed.2 ⟨_, Array.mem_toList_iff.2 listed, there, _, known, named⟩
    | constructor callee listed owned there known named =>
      rw [callee]
      refine mem_methodsNamed.2 ⟨_, List.mem_filter.2 ⟨Array.mem_toList_iff.2 listed, ?_⟩, there, _,
        known, named⟩
      rw [owned]
      exact beq_self_eq_true _

/-- The index leads from a node with a signature to a fact about it. -/
theorem Recorded.function? (recorded : Recorded file facts) {node : Nat}
    (there : ∃ signature ∈ facts.signatures, signature.node = node) :
    ∃ fact, facts.function? node = some fact ∧ fact.node = node := by
  obtain ⟨signature, listed, rfl⟩ := there
  obtain ⟨place, listed⟩ := List.getElem?_of_mem listed
  obtain ⟨number, found, -⟩ := recorded.indexed place signature listed
  obtain ⟨other, held, same⟩ := recorded.index signature.node number found
  rw [signatures, List.getElem?_map, Option.map_eq_some_iff] at held
  obtain ⟨fact, stood, rfl⟩ := held
  rw [Array.getElem?_toList] at stood
  exact ⟨fact, by rw [Facts.function?, found, Option.bind_some, stood], same⟩

/-- What a name stands for is a function of that name. -/
theorem Recorded.resolved (recorded : Recorded file facts) {scope target : Nat} {name : String}
    (found : facts.scopes.resolveFunction scope name = some target) :
    ∃ signature ∈ facts.signatures, signature.node = target ∧ signature.name = some name := by
  obtain ⟨nearest, -, here⟩ := Scopes.resolveFunction_eq_some.1 found
  obtain ⟨signature, listed, node, named, -⟩ := recorded.declared nearest name target here
  exact ⟨signature, listed, node, named⟩

/-- There is a fact about every function that a call may reach. -/
theorem Candidate.function? {target : Nat} (candidate : Candidate file call target) :
    ∃ fact, (Facts.of file).function? target = some fact ∧ fact.node = target := by
  have recorded := recorded_of file
  cases candidate with
  | declared _ found =>
    obtain ⟨signature, listed, node, -⟩ := recorded.resolved found
    exact recorded.function? ⟨signature, listed, node⟩
  | @free _ fact _ _ listed _ _ =>
    exact recorded.function? ⟨fact.signature, List.mem_map_of_mem (Array.mem_toList_iff.2 listed), rfl⟩
  | method _ listed there _ _ =>
    obtain ⟨number, found⟩ := Array.mem_iff_getElem?.1 listed
    exact recorded.function? (recorded.methods number _ found target there)
  | constructor _ listed _ there _ _ =>
    obtain ⟨number, found⟩ := Array.mem_iff_getElem?.1 listed
    exact recorded.function? (recorded.methods number _ found target there)

/-- A plain call reaches nothing where no function has its name. -/
theorem not_candidate_of_names {name : String} (callee : call.callee = .function name)
    (other : ∀ fact ∈ (Facts.of file).functions, fact.name ≠ some name) (target : Nat) :
    ¬ Candidate file call target := by
  intro candidate
  cases candidate with
  | declared written found =>
    obtain rfl := Callee.function.inj (callee.symm.trans written)
    obtain ⟨signature, listed, -, named⟩ := (recorded_of file).resolved found
    obtain ⟨fact, inside, rfl⟩ := List.mem_map.1 listed
    exact other fact (Array.mem_toList_iff.1 inside) named
  | free written _ listed _ named =>
    obtain rfl := Callee.function.inj (callee.symm.trans written)
    exact other _ listed named
  | method written => cases callee.symm.trans written
  | constructor written => cases callee.symm.trans written

/-! ## What is written in the tree -/

/-- The name of a node is that of the function of its id. -/
theorem named_iff {target : Nat} {id name : String} (there : (Facts.of file).graph.IdAt target id) :
    (∃ fact, (Facts.of file).function? target = some fact ∧ fact.name = some name) ↔
      file.Named id name := by
  have related := rel_function? there
  constructor
  · rintro ⟨fact, found, named⟩
    obtain ⟨made, listed, tells⟩ := rel_some_left related found
    exact ⟨made.1, made.2, listed, tells.signature.name.symm.trans named⟩
  · rintro ⟨function, entry, listed, named⟩
    obtain ⟨fact, found, tells⟩ := rel_some_right related listed
    exact ⟨fact, found, tells.signature.name.trans named⟩

/-- The methods of the facts about classes are those of the classes of the file. -/
theorem method_iff (condition : Option String → Prop) {target : Nat} {named : String} :
    (∃ owner ∈ (Facts.of file).classes, condition owner.name ∧ target ∈ owner.methods ∧
      ∃ fact, (Facts.of file).function? target = some fact ∧ fact.name = some named) ↔
    ∃ id, (∃ group ∈ file.classes, condition group.name ∧ ∃ entry ∈ group.methods,
      entry.node.id = id ∧ file.Named id named) ∧ (Facts.of file).graph.IdAt target id := by
  have classes := (tabled_of file).classes
  constructor
  · rintro ⟨owner, listed, meets, inside, rest⟩
    obtain ⟨group, held, tells⟩ := exists_of_mem_left classes (Array.mem_toList_iff.2 listed)
    obtain ⟨entry, given, there⟩ := exists_of_mem_left tells.methods (Array.mem_toList_iff.2 inside)
    exact ⟨_, ⟨group, held, tells.name ▸ meets, entry, given, rfl, (named_iff there).1 rest⟩, there⟩
  · rintro ⟨id, ⟨group, held, meets, entry, given, rfl, rest⟩, there⟩
    obtain ⟨owner, listed, tells⟩ := exists_of_mem_right classes held
    obtain ⟨node, inside, there'⟩ := exists_of_mem_right tells.methods given
    obtain rfl := (eq_iff_of_idAt there there').2 rfl
    exact ⟨owner, Array.mem_toList_iff.1 listed, tells.name ▸ meets, Array.mem_toList_iff.1 inside,
      (named_iff there).2 rest⟩

/-- What the tables hold for a call is what the call may reach. -/
theorem candidate_iff {made : Visit × Cursor}
    (tells : call.Tells file (Facts.of file).graph (Visit.chainsOf file file.course) made) {target : Nat} :
    Candidate file call target ↔
      ∃ id, file.Reaches made.1 made.2 id ∧ (Facts.of file).graph.IdAt target id := by
  have resolves := fun name => rel_resolve file name call.scope tells.scope
  have callee := tells.callee
  constructor
  · intro candidate
    cases candidate with
    | @declared name _ written found =>
      obtain ⟨id, stands, there⟩ := rel_some_left (resolves name) found
      exact ⟨id, .declared (callee.symm.trans written) stands, there⟩
    | @free name fact written missing listed free named =>
      obtain ⟨⟨function, entry⟩, held, told⟩ :=
        exists_of_mem_left (functions_of file) (Array.mem_toList_iff.2 listed)
      refine ⟨entry.node.id, .free (callee.symm.trans written) ?_ held
        (told.signature.isMethod.symm.trans free) (told.signature.name.symm.trans named),
        told.signature.node⟩
      exact rel_none_left (resolves name) missing
    | method written listed inside known named =>
      obtain ⟨id, ⟨group, held, -, entry, given, rfl, rest⟩, there⟩ :=
        (method_iff (fun _ => True)).1 ⟨_, listed, trivial, inside, _, known, named⟩
      exact ⟨_, .method (callee.symm.trans written) held given rest, there⟩
    | @constructor name _ _ _ written listed owned inside known named =>
      obtain ⟨id, ⟨group, held, owned, entry, given, rfl, rest⟩, there⟩ :=
        (method_iff (· = some name)).1 ⟨_, listed, owned, inside, _, known, named⟩
      exact ⟨_, .constructor (callee.symm.trans written) held owned given rest, there⟩
  · rintro ⟨id, reaches, there⟩
    cases reaches with
    | @declared name _ written stands =>
      obtain ⟨other, found, there'⟩ := rel_some_right (resolves name) stands
      obtain rfl := (eq_iff_of_idAt there there').2 rfl
      exact .declared (callee.trans written) found
    | @free name function entry written missing held plain named =>
      obtain ⟨fact, listed, told⟩ := exists_of_mem_right (functions_of file) held
      obtain rfl := (eq_iff_of_idAt there told.signature.node).2 rfl
      exact .free (callee.trans written) (rel_none_right (resolves name) missing)
        (Array.mem_toList_iff.1 listed) (told.signature.isMethod.trans plain)
        (told.signature.name.trans named)
    | method written held given rest =>
      obtain ⟨owner, listed, -, inside, fact, known, named⟩ :=
        (method_iff (fun _ => True)).2 ⟨_, ⟨_, held, trivial, _, given, rfl, rest⟩, there⟩
      exact .method (callee.trans written) listed inside known named
    | @constructor name group entry written held owned given rest =>
      obtain ⟨owner, listed, owned, inside, fact, known, named⟩ :=
        (method_iff (· = some name)).2 ⟨_, ⟨_, held, owned, _, given, rfl, rest⟩, there⟩
      exact .constructor (callee.trans written) listed owned inside known named

/-- Whatever a call may reach has a node. -/
theorem exists_idAt_of_reaches {made : Visit × Cursor}
    (tells : call.Tells file (Facts.of file).graph (Visit.chainsOf file file.course) made) {id : String}
    (reaches : file.Reaches made.1 made.2 id) : ∃ target, (Facts.of file).graph.IdAt target id := by
  have method : ∀ {group : Group} {entry : Entry}, group ∈ file.classes → entry ∈ group.methods →
      ∃ target, (Facts.of file).graph.IdAt target entry.node.id := by
    intro group entry held given
    obtain ⟨owner, -, told⟩ := exists_of_mem_right (tabled_of file).classes held
    obtain ⟨target, -, there⟩ := exists_of_mem_right told.methods given
    exact ⟨target, there⟩
  cases reaches with
  | declared _ stands =>
    obtain ⟨target, -, there⟩ := rel_some_right (rel_resolve file _ call.scope tells.scope) stands
    exact ⟨target, there⟩
  | free _ _ held _ _ =>
    obtain ⟨fact, -, told⟩ := exists_of_mem_right (functions_of file) held
    exact ⟨fact.node, told.signature.node⟩
  | method _ held given _ => exact method held given
  | constructor _ held _ given _ => exact method held given

end Facts

end CodeGraph

import CodeGraph.Proofs.Facts.Begun
import CodeGraph.Proofs.Facts.Scoping

/-!
# Bodies recite their scripts

What is left to do in the body of a region are looks at statements or at none (`Facts.agenda`). At each
moment of the walk a simple body recites a script that what is left completes to that of its looks, and what
its scope declares and what is left declares come to what its looks declare (`Facts.Recited`). So in the end
the region of a simple body recites the script of its looks (`Facts.exists_recitations`).
-/

namespace CodeGraph

/-- Tasks that stand for two lists of sights are in two parts. -/
theorem AllStand.split {facts : Facts} {chart : List Yield} {tasks : List Task} {sights others : List Sight}
    (stand : AllStand chart facts tasks (sights ++ others)) : ∃ first second, tasks = first ++ second ∧
      AllStand chart facts first sights ∧ AllStand chart facts second others :=
  ⟨_, _, (List.take_append_drop sights.length tasks).symm, List.forall₂_take_append _ _ _ stand,
    List.forall₂_drop_append _ _ _ stand⟩

namespace Facts

variable {file : SourceFile} {facts : Facts} {chart : List Yield} {number : Nat}

/-! ## What is left to do -/

/-- What is left to do in the body of a region: looks, and the statements at which they are. -/
def agenda (number : Nat) (pending : List Task) (ahead : List Sight) : List Script.Entry :=
  (pending.zip ahead).filterMap fun entry =>
    if entry.1.context.region = number then some (entry.1.context.statement, entry.2.look) else none

theorem agenda_append {pending tasks : List Task} {ahead sights : List Sight}
    (same : pending.length = ahead.length) : agenda number (pending ++ tasks) (ahead ++ sights) =
      agenda number pending ahead ++ agenda number tasks sights := by
  rw [agenda, List.zip_append same, List.filterMap_append, agenda, agenda]

theorem agenda_cons {task : Task} {rest : List Task} {sight : Sight} {ahead : List Sight} :
    agenda number (task :: rest) (sight :: ahead) =
      if task.context.region = number then
        (task.context.statement, sight.look) :: agenda number rest ahead
      else agenda number rest ahead := by
  rw [agenda, List.zip_cons_cons, List.filterMap_cons]
  by_cases here : task.context.region = number
  · simp only [if_pos here]
    rfl
  · simp only [if_neg here]
    rfl

/-- Nothing is left to do in a region in which no task is. -/
theorem agenda_of_ne {pending : List Task} {ahead : List Sight}
    (other : ∀ task ∈ pending, task.context.region ≠ number) : agenda number pending ahead = [] := by
  refine List.filterMap_eq_nil_iff.2 fun entry inside => ?_
  exact if_neg (other entry.1 (List.of_mem_zip inside).1)

/-- All that is left is to be done in the region, at one statement or at none. -/
theorem agenda_sightsIn {function statement : Option Nat} {tasks : List Task} {looks : List Look}
    (stand : AllStand chart facts tasks (sightsIn function looks))
    (here : ∀ task ∈ tasks, task.context.region = number ∧ task.context.statement = statement) :
    agenda number tasks (sightsIn function looks) = looks.map fun look => (statement, look) := by
  induction looks generalizing tasks with
  | nil =>
    cases stand
    rfl
  | cons look rest ih =>
    obtain _ | ⟨first, stand⟩ := stand
    obtain ⟨region, same⟩ := here _ List.mem_cons_self
    rw [sightsIn, List.map_cons, agenda_cons, if_pos region, same, List.map_cons,
      ← ih stand fun task there => here task (List.mem_cons_of_mem _ there)]
    rfl

/-- A task is in the region of the function of its sight. -/
theorem region_of_stands {tasks : List Task} {sights : List Sight}
    (stand : AllStand chart facts tasks sights) : ∀ task ∈ tasks, ∃ sight ∈ sights,
      task.context.region = (sight.function.map (· + 1)).getD 0 := by
  induction stand with
  | nil => exact nofun
  | cons first _ ih =>
    intro task there
    rcases List.mem_cons.1 there with rfl | later
    · exact ⟨_, List.mem_cons_self, by rw [first.context.region, first.function]⟩
    · obtain ⟨sight, listed, same⟩ := ih task later
      exact ⟨sight, List.mem_cons_of_mem _ listed, same⟩

theorem region_of_sightsIn {function : Option Nat} {tasks : List Task} {looks : List Look}
    (stand : AllStand chart facts tasks (sightsIn function looks)) : ∀ task ∈ tasks,
      task.context.region = (function.map (· + 1)).getD 0 := by
  intro task there
  obtain ⟨sight, listed, same⟩ := region_of_stands stand task there
  obtain ⟨look, -, rfl⟩ := List.mem_map.1 listed
  exact same

/-- Sights inside functions that are entered are in new regions. -/
theorem region_of_entries {entries : List Entry} {count : Nat} {tasks : List Task}
    (stand : AllStand chart facts tasks (Entry.sights file entries count)) : ∀ task ∈ tasks,
      ∃ place < entries.length, task.context.region = count + place + 1 := by
  intro task there
  obtain ⟨sight, listed, same⟩ := region_of_stands stand task there
  obtain ⟨⟨entry, index⟩, inside, here⟩ := List.mem_flatMap.1 listed
  obtain ⟨look, -, rfl⟩ := List.mem_map.1 here
  have bounds := List.mem_zipIdx (List.mem_reverse.1 inside)
  refine ⟨index - count, by omega, same.trans ?_⟩
  show index + 1 = _
  omega

/-- What is left to do inside one of several functions that are entered are its looks. -/
theorem agenda_entries {entries : List Entry} {count : Nat} {tasks : List Task}
    (stand : AllStand chart facts tasks (Entry.sights file entries count)) {place : Nat} {entry : Entry}
    (found : entries[place]? = some entry)
    (begun : ∀ task ∈ tasks, task.context.region = count + place + 1 → task.context.statement = none) :
    agenda (count + place + 1) tasks (Entry.sights file entries count) =
      (entry.looks file).map fun look => (none, look) := by
  induction entries using List.reverseRecOn generalizing tasks with
  | nil => cases found
  | append_singleton entries last ih =>
    rw [sights_concat] at stand ⊢
    obtain ⟨inner, older, rfl, first, second⟩ := stand.split
    have regions := region_of_sightsIn first
    rw [agenda_append first.length_eq]
    rw [List.getElem?_append] at found
    split at found
    · next less =>
      rw [ih second found fun task there => begun task (List.mem_append_right _ there),
        agenda_of_ne fun task there => ?_, List.nil_append]
      rw [regions task there]
      simp only [Option.map_some, Option.getD_some]
      omega
    · next beyond =>
      obtain ⟨zero, rfl⟩ := List.getElem?_eq_some_iff.1 found
      have here : place = entries.length := by
        rw [List.length_singleton] at zero
        omega
      subst here
      simp only [Nat.sub_self, List.getElem_cons_zero]
      have none : agenda (count + entries.length + 1) older (Entry.sights file entries count) = [] := by
        refine agenda_of_ne fun task there => ?_
        obtain ⟨other, less, same⟩ := region_of_entries second task there
        omega
      rw [none, List.append_nil]
      refine agenda_sightsIn first fun task there => ?_
      have region := regions task there
      exact ⟨region, begun task (List.mem_append_left _ there) region⟩

section Agenda

variable {task : Task} {rest : List Task} {sight : Sight} {ahead : List Sight}
  (charted : Charted file facts (task :: rest) (sight :: ahead))
include charted

theorem Charted.region_eq : task.context.region = (sight.function.map (· + 1)).getD 0 := by
  rw [charted.head.context.region, charted.head.function]

/-- What a step leaves is in three parts: what follows in the same body, what is inside the functions that
are entered, and what comes to nodes again. -/
theorem Charted.agenda_step : ∃ next entered again, (facts.step file task).2 = next ++ entered ++ again ∧
    AllStand file.yields (facts.step file task).1 next
      (sightsIn sight.function (sight.look.scheme file).next) ∧
    AllStand file.yields (facts.step file task).1 entered
      (Entry.sights file (sight.look.scheme file).functions facts.functions.size) ∧
    AllStand file.yields (facts.step file task).1 again
      (sightsIn sight.function (sight.look.scheme file).again) ∧
    ∀ number, agenda number (facts.step file task).2
        ((sight.look.scheme file).sights file sight.function facts.functions.size) =
      agenda number next (sightsIn sight.function (sight.look.scheme file).next) ++
        agenda number entered
          (Entry.sights file (sight.look.scheme file).functions facts.functions.size) ++
        agenda number again (sightsIn sight.function (sight.look.scheme file).again) := by
  obtain ⟨both, again, split, stand, third⟩ := charted.plays.stands.split
  obtain ⟨next, entered, rfl, first, second⟩ := stand.split
  refine ⟨next, entered, again, split, first, second, third, fun number => ?_⟩
  rw [Scheme.sights, split, agenda_append stand.length_eq, agenda_append first.length_eq]

/-- In another region that is there, nothing more is left to do. -/
theorem Charted.agenda_other {number : Nat} (old : number < facts.regions.size)
    (other : number ≠ task.context.region) :
    agenda number (facts.step file task).2
      ((sight.look.scheme file).sights file sight.function facts.functions.size) = [] := by
  have own := charted.region_eq
  have size := charted.charts.size_regions
  obtain ⟨next, entered, again, -, first, second, third, whole⟩ := charted.agenda_step
  rw [whole, agenda_of_ne fun task there => ?_, agenda_of_ne fun task there => ?_,
    agenda_of_ne fun task there => ?_]
  · rfl
  · rw [region_of_sightsIn third task there, ← own]
    exact other.symm
  · obtain ⟨place, -, same⟩ := region_of_entries second task there
    omega
  · rw [region_of_sightsIn first task there, ← own]
    exact other.symm

variable (known : task.Known facts)
include known

/-- In the body of a simple look, what follows the look is left to do. -/
theorem Charted.agenda_own (simple : sight.look.isSimple = true) :
    agenda task.context.region (facts.step file task).2
        ((sight.look.scheme file).sights file sight.function facts.functions.size) =
      ((sight.look.scheme file).next ++ (sight.look.scheme file).again).map fun look =>
        (if sight.look.opens = true then some (facts.statementsIn task.context.region)
          else task.context.statement, look) := by
  have own := charted.region_eq
  have outside := known.context.region_lt
  have size := charted.charts.size_regions
  obtain ⟨next, entered, again, split, first, second, third, whole⟩ := charted.agenda_step
  have here : ∀ other ∈ (facts.step file task).2, other.context.region = task.context.region →
      other.context.region = task.context.region ∧ other.context.statement =
        if sight.look.opens = true then some (facts.statementsIn task.context.region)
        else task.context.statement :=
    fun _ listed same => ⟨same, (charted.goesOn known simple listed same).statement⟩
  rw [split] at here
  rw [whole, List.map_append, agenda_sightsIn first fun other there => here other
      (List.mem_append_left _ (List.mem_append_left _ there))
      ((region_of_sightsIn first other there).trans own.symm),
    agenda_sightsIn third fun other there => here other (List.mem_append_right _ there)
      ((region_of_sightsIn third other there).trans own.symm),
    agenda_of_ne fun other there => ?_, List.append_nil]
  obtain ⟨place, -, same⟩ := region_of_entries second other there
  omega

/-- In the body of a function that is entered, all is left to do. -/
theorem Charted.agenda_entered {place : Nat} {entry : Entry}
    (found : (sight.look.scheme file).functions[place]? = some entry) (block : entry.Block) :
    agenda (facts.regions.size + place) (facts.step file task).2
        ((sight.look.scheme file).sights file sight.function facts.functions.size) =
      (entry.looks file).map fun look => (none, look) := by
  have own := charted.region_eq
  have outside := known.context.region_lt
  have size := charted.charts.size_regions
  obtain ⟨next, entered, again, split, first, second, third, whole⟩ := charted.agenda_step
  have number : facts.regions.size + place = facts.functions.size + place + 1 := by omega
  have inside : ∀ task ∈ entered, task.context.region = facts.functions.size + place + 1 →
      task.context.statement = none := by
    intro other there region
    have listed : other ∈ (facts.step file task).2 := by
      rw [split]
      exact List.mem_append_left _ (List.mem_append_right _ there)
    exact (charted.begun_entered known found block listed (region.trans number.symm)).statement
  rw [whole, number, agenda_entries second found inside, agenda_of_ne fun other there => ?_,
    agenda_of_ne fun other there => ?_, List.nil_append, List.append_nil]
  · have same := region_of_sightsIn third other there
    omega
  · have same := region_of_sightsIn first other there
    omega

end Agenda

/-! ## What is declared -/

/-- The declaration of a task is that of its look. -/
theorem declared_look (home : Home) (task : Task) : (task.look home).declared file =
    ((task.declares? file).map fun entry => (file.textOf entry.1, entry.2.2.2.id)).toList := by
  cases task with
  | bind cursor context mode =>
    show Look.declared file (.bind cursor home mode.plain) = _
    unfold Look.declared Task.declares?
    by_cases form : PatternForm.ofKind cursor.kind = .name
    · simp only [if_pos form]
      cases mode <;> rfl
    · simp only [if_neg form]
      rfl
  | statement cursor context => rfl
  | loopHeader cursor context => rfl
  | expression cursor context hint => rfl

/-- What a scope declares under names are the nodes with the ids that are listed, the first one for each
name. -/
def Lists (facts : Facts) (scope : Nat) (declared : List (String × String)) : Prop :=
  ∀ name, Option.Rel facts.graph.IdAt (facts.scopes.variableIn? scope name) (declared.lookup name)

theorem Lists.later {scope : Nat} {declared : List (String × String)} (lists : facts.Lists scope declared)
    {after : Facts} (kept : facts.graph.Kept after.graph)
    (same : after.scopes.variableIn? scope = facts.scopes.variableIn? scope) :
    after.Lists scope declared := by
  intro name
  rw [same]
  exact rel_imp (fun _ _ spot => spot.kept kept) (lists name)

theorem rel_or {α β : Type} {R : α → β → Prop} {left left' : Option α} {right right' : Option β}
    (first : Option.Rel R left right) (second : Option.Rel R left' right') :
    Option.Rel R (left.or left') (right.or right') := by
  cases first with
  | none => exact second
  | some related => exact .some related

section Declared

variable {task : Task} {rest : List Task} {sight : Sight} {ahead : List Sight}
  (charted : Charted file facts (task :: rest) (sight :: ahead)) (known : task.Known facts)
include charted known

/-- In its own scope a task lists what it declares. -/
theorem Lists.own {declared : List (String × String)} (lists : facts.Lists task.context.scope declared)
    (top : facts.scopes.hoistTarget task.context.scope = task.context.scope) :
    (facts.step file task).1.Lists task.context.scope (declared ++ sight.look.declared file) := by
  have kept := charted.plays.extend.graph
  rw [← charted.head.same, declared_look]
  cases declares : task.declares? file with
  | none =>
    rw [Option.map_none, Option.toList_none, List.append_nil]
    exact lists.later kept (congrFun (tables_step declares) _)
  | some entry =>
    obtain ⟨cursor, context, mode, node⟩ := entry
    obtain ⟨rfl, -, -, -⟩ := charted.declares_yield declares
    have scope : mode.scope facts.scopes context.scope = context.scope := by
      cases mode with
      | declare word site =>
        rw [BindMode.scope]
        split
        · exact top
        · rfl
      | assign site => rfl
      | param position rest optional hasDefault => rfl
    have spot := handle_place charted.charts.formed.wellFormed node context.parent
    intro name
    show Option.Rel _ ((facts.step file _).1.scopes.variableIn? context.scope name) _
    rw [variableIn?_step declares known.context.scope, List.lookup_append, scope]
    refine rel_or (rel_imp (fun _ _ spot => spot.kept kept) (lists name)) ?_
    simp only [true_and, Option.map_some, Option.toList_some, List.lookup_cons, List.lookup_nil]
    by_cases same : file.textOf cursor = name
    · rw [if_pos same, ← same, beq_self_eq_true]
      refine .some ?_
      rw [graph_of_declares declares]
      exact spot
    · rw [if_neg same, beq_eq_false_iff_ne.2 (Ne.symm same)]
      exact .none

/-- In the scope of another body nothing is declared. -/
theorem Charted.variableIn?_other {number scope : Nat} (other : number ≠ task.context.region)
    (body : facts.scopes.bodies[number]? = some scope) :
    (facts.step file task).1.scopes.variableIn? scope = facts.scopes.variableIn? scope := by
  cases declares : task.declares? file with
  | none => exact congrFun (tables_step declares) _
  | some entry =>
    obtain ⟨cursor, context, mode, node⟩ := entry
    obtain ⟨rfl, -, -, -⟩ := charted.declares_yield declares
    funext name
    rw [variableIn?_step declares known.context.scope, if_neg, Option.or_none]
    rintro ⟨here, -⟩
    -- A scope of another body would have to receive its own hoisted declarations and those of this one.
    have hoists := Scopes.mem_bodies.1 (List.mem_of_getElem? body)
    have inside : context.scope < facts.scopes.list.size := known.context.scope
    have target := (mode.hoistTarget_scope inside).2
    rw [here, Scopes.hoistTarget_of_hoists hoists] at target
    have own := known.context.body
    change facts.scopes.bodies[context.region]? = some (facts.scopes.hoistTarget context.scope) at own
    rw [← target] at own
    have less := (List.getElem?_eq_some_iff.1 body).1
    exact other ((List.getElem?_inj less facts.scopes.nodup_bodies).1 (body.trans own.symm))

/-- In a scope that a step makes nothing is declared: the step declares in old scopes only. -/
theorem Charted.variableIn?_new {scope : Nat} (new : facts.scopes.list.size ≤ scope) (name : String) :
    (facts.step file task).1.scopes.variableIn? scope name = none := by
  have nothing : facts.scopes.variableIn? scope name = none := Scopes.variableIn?_of_le new name
  cases declares : task.declares? file with
  | none => exact (congrFun (congrFun (tables_step declares) scope) name).trans nothing
  | some declared =>
    obtain ⟨cursor, context, mode, node⟩ := declared
    obtain ⟨rfl, -, -, -⟩ := charted.declares_yield declares
    have inside : context.scope < facts.scopes.list.size := known.context.scope
    rw [variableIn?_step declares inside, nothing, if_neg, Option.or_none]
    rintro ⟨same, -⟩
    have there := (mode.hoistTarget_scope inside).1
    omega

end Declared

/-! ## One body -/

/-- The body of a region recites a script, and its scope lists declarations. What is left to do in the body
are simple looks, and they complete both to what the looks of the body come to. -/
structure Recited (file : SourceFile) (facts : Facts) (pending : List Task) (ahead : List Sight)
    (number : Nat) (looks : List Look) (scope : Nat) (script : Script)
    (declared : List (String × String)) : Prop where
  body : facts.scopes.bodies[number]? = some scope
  simple : ∀ entry ∈ agenda number pending ahead, entry.2.isSimple = true
  inScope : ∀ task ∈ pending, task.context.region = number → task.context.scope = scope
  rooted : ∀ task ∈ pending, task.context.region = number → task.adds = true →
    task.context.block = Skeleton.root
  recites : facts.Recites number scope script
  script : script.playAll file (agenda number pending ahead) = .of file looks
  lists : facts.Lists scope declared
  declared : declared ++ (agenda number pending ahead).flatMap (fun entry => entry.2.declarations file) =
    looks.flatMap (Look.declarations file)

/-- A region has as many statements as the script that it recites. -/
theorem Recites.statementsIn {scope : Nat} {script : Script} (recites : facts.Recites number scope script) :
    facts.statementsIn number = script.statements.length := by
  obtain ⟨region, found, whole⟩ := recites
  obtain ⟨sites, straight, size⟩ := whole.straight
  rw [statementsIn_of_found found, straight.size, size, whole.statements.length_eq, Array.length_toList]

theorem bodies_later {before after : Facts} (extend : before.Extends after) {scope : Nat}
    (body : before.scopes.bodies[number]? = some scope) : after.scopes.bodies[number]? = some scope := by
  obtain ⟨more, whole⟩ := Scopes.bodies_of_prefix extend.frames
  rw [← whole, List.getElem?_append_left (List.getElem?_eq_some_iff.1 body).1, body]

section Recited

variable {task : Task} {rest : List Task} {sight : Sight} {ahead : List Sight} {looks : List Look}
  {scope : Nat} {script : Script} {declared : List (String × String)}
  (charted : Charted file facts (task :: rest) (sight :: ahead)) (known : task.Known facts)
include charted known

/-- A step in the body does a look, and leaves what follows. -/
theorem Recited.own
    (recited : Recited file facts (task :: rest) (sight :: ahead) number looks scope script declared)
    (own : task.context.region = number) :
    Recited file (facts.step file task).1 ((facts.step file task).2 ++ rest)
      ((sight.look.scheme file).sights file sight.function facts.functions.size ++ ahead) number looks
      scope (script.enter file (task.context.statement, sight.look))
      (declared ++ sight.look.declared file) := by
  subst own
  obtain ⟨body, simple, inScope, rooted, recites, whole, lists, declares⟩ := recited
  rw [agenda_cons, if_pos rfl] at simple whole declares
  obtain rfl := inScope task List.mem_cons_self rfl
  have plain := simple _ List.mem_cons_self
  have top := Scopes.hoistTarget_of_hoists (Scopes.mem_bodies.1 (List.mem_of_getElem? body))
  have next : agenda task.context.region ((facts.step file task).2 ++ rest)
      ((sight.look.scheme file).sights file sight.function facts.functions.size ++ ahead) =
        (((sight.look.scheme file).next ++ (sight.look.scheme file).again).map fun look =>
          (script.place (task.context.statement, sight.look), look)) ++
            agenda task.context.region rest ahead := by
    rw [agenda_append charted.plays.stands.length_eq, charted.agenda_own known plain,
      recites.statementsIn]
    rfl
  refine ⟨bodies_later charted.plays.extend body, ?_, ?_, ?_, charted.recites known plain
    (rooted task List.mem_cons_self rfl) recites, ?_, lists.own charted known top, ?_⟩
  · intro entry inside
    rw [next] at inside
    rcases List.mem_append.1 inside with new | old
    · obtain ⟨look, there, rfl⟩ := List.mem_map.1 new
      exact Look.isSimple_of_isPart (Look.allParts_of_isSimple plain look there)
    · exact simple entry (List.mem_cons_of_mem _ old)
  · intro other listed region
    rcases List.mem_append.1 listed with new | old
    · exact (charted.goesOn known plain new region).scope
    · exact inScope other (List.mem_cons_of_mem _ old) region
  · intro other listed region adds
    rcases List.mem_append.1 listed with new | old
    · rw [(charted.goesOn known plain new region).part] at adds
      cases adds
    · exact rooted other (List.mem_cons_of_mem _ old) region adds
  · rw [next, Script.playAll_append, Script.play_eq plain, ← whole]
    rfl
  · have gathered := sight.look.gather_eq file (Look.declared file)
    rw [next, List.flatMap_append, List.flatMap_map, ← declares, List.flatMap_cons]
    show declared ++ sight.look.declared file ++ _ = declared ++
      (sight.look.gather file (Look.declared file) ++ _)
    rw [gathered]
    simp only [List.append_assoc]
    rfl

/-- A step in another body changes nothing. -/
theorem Recited.other
    (recited : Recited file facts (task :: rest) (sight :: ahead) number looks scope script declared)
    (sound : Sound file facts) (has : file.Has task.cursor) (other : number ≠ task.context.region) :
    Recited file (facts.step file task).1 ((facts.step file task).2 ++ rest)
      ((sight.look.scheme file).sights file sight.function facts.functions.size ++ ahead) number looks
      scope script declared := by
  obtain ⟨body, simple, inScope, rooted, recites, whole, lists, declares⟩ := recited
  rw [agenda_cons, if_neg other.symm] at simple whole declares
  have old : number < facts.regions.size := by
    obtain ⟨region, found, -⟩ := recites
    exact (Array.getElem?_eq_some_iff.1 found).1
  have proceeds := proceeds_step sound known has
  have extend := charted.plays.extend
  have same : agenda number ((facts.step file task).2 ++ rest)
      ((sight.look.scheme file).sights file sight.function facts.functions.size ++ ahead) =
        agenda number rest ahead := by
    rw [agenda_append charted.plays.stands.length_eq, charted.agenda_other old other, List.nil_append]
  have none : ∀ next ∈ (facts.step file task).2, next.context.region ≠ number := fun next there =>
    other_of_within (proceeds.fits next there).within old other
  refine ⟨bodies_later extend body, same.symm ▸ simple, ?_, ?_,
    recites.later extend.graph (proceeds.made.other_region old other), same.symm ▸ whole,
    lists.later extend.graph (charted.variableIn?_other known other body), same.symm ▸ declares⟩
  · intro next listed region
    rcases List.mem_append.1 listed with new | old
    · exact absurd region (none next new)
    · exact inScope next (List.mem_cons_of_mem _ old) region
  · intro next listed region
    rcases List.mem_append.1 listed with new | old
    · exact absurd region (none next new)
    · exact rooted next (List.mem_cons_of_mem _ old) region

/-- The body of a function that is entered recites nothing yet, and all is left to do. -/
theorem recited_entered (sound : Sound file facts) (ready : Ready file facts (task :: rest))
    {place : Nat} {entry : Entry} (found : (sight.look.scheme file).functions[place]? = some entry)
    (block : entry.Block) (simple : ∀ look ∈ entry.looks file, look.isSimple = true) :
    ∃ scope, Recited file (facts.step file task).1 ((facts.step file task).2 ++ rest)
      ((sight.look.scheme file).sights file sight.function facts.functions.size ++ ahead)
      (facts.regions.size + place) (entry.looks file) scope {} [] := by
  have proceeds := proceeds_step sound known (ready task List.mem_cons_self).2
  have after := proceeds.made.sound sound
  have extend := charted.plays.extend
  obtain ⟨region, held, blank⟩ := charted.blank_entered known found block
  have less := (Array.getElem?_eq_some_iff.1 held).1
  rw [← after.bodies] at less
  have body := List.getElem?_eq_getElem less
  generalize (facts.step file task).1.scopes.bodies[facts.regions.size + place] = scope at body
  have old : ∀ other ∈ rest, other.context.region ≠ facts.regions.size + place := by
    intro other there
    have := (ready other (List.mem_cons_of_mem _ there)).1.context.region_lt
    omega
  have own : ∀ other ∈ (facts.step file task).2,
      other.context.region = facts.regions.size + place → other.Begun (facts.step file task).1 :=
    fun _ there here => charted.begun_entered known found block there here
  have whole : agenda (facts.regions.size + place) ((facts.step file task).2 ++ rest)
      ((sight.look.scheme file).sights file sight.function facts.functions.size ++ ahead) =
        (entry.looks file).map fun look => (none, look) := by
    rw [agenda_append charted.plays.stands.length_eq, charted.agenda_entered known found block,
      agenda_of_ne old, List.append_nil]
  refine ⟨scope, body, ?_, ?_, ?_, ⟨region, held, Region.recites_empty blank.skeleton blank.entry
    blank.accesses⟩, ?_, ?_, ?_⟩
  · intro item inside
    rw [whole] at inside
    obtain ⟨look, there, rfl⟩ := List.mem_map.1 inside
    exact simple look there
  · intro other there here
    rcases List.mem_append.1 there with new | past
    · have top := Scopes.hoistTarget_of_hoists (own other new here).hoists
      have itself := (proceeds.fits other new).known.context.body
      rw [here, top, body] at itself
      exact (Option.some.inj itself).symm
    · exact absurd here (old other past)
  · intro other there here _
    rcases List.mem_append.1 there with new | past
    · exact (own other new here).block
    · exact absurd here (old other past)
  · rw [whole, Script.playAll_eq]
    rfl
  · have new : facts.scopes.list.size ≤ scope :=
      Scopes.le_of_bodies_of_prefix extend.frames
        (sound.bodies.symm ▸ Nat.le_add_right _ _) body
    intro name
    rw [charted.variableIn?_new known new]
    exact .none
  · rw [whole, List.nil_append, List.flatMap_map]

end Recited

end Facts

/-! ## All bodies -/

/-- The looks in the body of the module, or of a function. -/
def SourceFile.looksIn (file : SourceFile) : Option Entry → List Look
  | none => file.looks
  | some entry => entry.looks file

/-- A body is a block of simple statements. -/
structure SourceFile.Simple (file : SourceFile) (body : Option Entry) : Prop where
  block : ∀ entry, body = some entry → entry.Block
  looks : ∀ look ∈ file.looksIn body, look.isSimple = true

namespace Facts

variable {file : SourceFile} {facts : Facts} {number : Nat}

/-- A region is that of the body of the module, or of a function. -/
def IsBody (file : SourceFile) (facts : Facts) (number : Nat) : Option Entry → Prop
  | none => number = 0
  | some entry => Look.Entered file.yields entry ∧
      ∃ function, number = function + 1 ∧ facts.About function entry.node.id

theorem IsBody.later {body : Option Entry} (isBody : facts.IsBody file number body) {after : Facts}
    (extend : facts.Extends after) : after.IsBody file number body := by
  cases body with
  | none => exact isBody
  | some entry =>
    obtain ⟨entered, function, same, about⟩ := isBody
    exact ⟨entered, function, same, about.later extend⟩

/-- The bodies of all regions recite their scripts, as far as they are simple. -/
def AllRecited (file : SourceFile) (facts : Facts) (pending : List Task) (ahead : List Sight) : Prop :=
  ∀ number < facts.regions.size, ∃ body, facts.IsBody file number body ∧ (file.Simple body →
    ∃ scope script declared,
      Recited file facts pending ahead number (file.looksIn body) scope script declared)

theorem allRecited_start (file : SourceFile) :
    AllRecited file {} (statementTasks { tree := file.tree } {}) (sightsIn none file.looks) := by
  intro number less
  obtain rfl : number = 0 := by
    have size : ({} : Facts).regions.size = 1 := rfl
    omega
  have context : ∀ task ∈ statementTasks { tree := file.tree } {}, task.context = {} := by
    intro task there
    obtain ⟨child, -, rfl⟩ := List.mem_map.1 there
    rfl
  have whole : agenda 0 (statementTasks { tree := file.tree } {}) (sightsIn none file.looks) =
      file.looks.map fun look => (none, look) :=
    agenda_sightsIn (charted_start file).stands fun task there => by
      rw [context task there]
      exact ⟨rfl, rfl⟩
  refine ⟨none, rfl, fun simple => ⟨Scopes.moduleScope, {}, [], rfl, ?_, ?_, ?_,
    ⟨_, rfl, Region.recites_empty rfl rfl rfl⟩, ?_, fun name => ?_, ?_⟩⟩
  · intro entry inside
    rw [whole] at inside
    obtain ⟨look, there, rfl⟩ := List.mem_map.1 inside
    exact simple.looks look there
  · intro task there _
    rw [context task there]
  · intro task there _ _
    rw [context task there]
  · rw [whole, Script.playAll_eq]
    rfl
  · rw [show ({} : Facts).scopes = .initial from rfl, Scopes.variableIn?_initial]
    exact .none
  · rw [whole, List.nil_append, List.flatMap_map]
    rfl

theorem AllRecited.step {task : Task} {rest : List Task} {sight : Sight} {ahead : List Sight}
    (all : AllRecited file facts (task :: rest) (sight :: ahead))
    (charted : Charted file facts (task :: rest) (sight :: ahead)) (sound : Sound file facts)
    (ready : Ready file facts (task :: rest)) :
    AllRecited file (facts.step file task).1 ((facts.step file task).2 ++ rest)
      ((sight.look.scheme file).sights file sight.function facts.functions.size ++ ahead) := by
  have plays := charted.plays
  obtain ⟨known, has⟩ := ready task List.mem_cons_self
  intro number less
  by_cases old : number < facts.regions.size
  · obtain ⟨body, isBody, recited⟩ := all number old
    refine ⟨body, isBody.later plays.extend, fun simple => ?_⟩
    obtain ⟨scope, script, declared, before⟩ := recited simple
    by_cases own : task.context.region = number
    · exact ⟨_, _, _, before.own charted known own⟩
    · exact ⟨_, _, _, before.other charted known sound has (Ne.symm own)⟩
  · -- A function that the step enters.
    obtain ⟨place, rfl⟩ := Nat.exists_eq_add_of_le (Nat.le_of_not_lt old)
    have size := charted.charts.size_regions
    have sizes := plays.charts.size_regions
    have count := plays.size
    have inside : place < (sight.look.scheme file).functions.length := by omega
    have found := List.getElem?_eq_getElem inside
    obtain ⟨kind, yield, listed, same⟩ :=
      (sight.look.fits file).functions _ (List.mem_of_getElem? found)
    refine ⟨some (sight.look.scheme file).functions[place],
      ⟨⟨kind, yield, Scheme.subset_of_puts charted.puts_subset listed, same⟩,
        facts.functions.size + place, by omega,
        (plays.entered place _ found).about⟩, fun simple => ?_⟩
    obtain ⟨scope, recited⟩ := recited_entered charted known sound ready found
      (simple.block _ rfl) simple.looks
    exact ⟨scope, {}, [], recited⟩

theorem Visits.allRecited {pending : List Task} (visits : Visits file facts pending) :
    ∃ ahead, Charted file facts pending ahead ∧ AllRecited file facts pending ahead :=
  visits.follow (allRecited_start file) fun visits charted all =>
    all.step charted visits.sound.1 visits.sound.2

/-- In the end the region of a simple body recites the script of its looks, and its scope lists what they
declare. -/
structure Recitation (file : SourceFile) (facts : Facts) (number : Nat) (body : Option Entry)
    (scope : Nat) : Prop where
  top : facts.scopes.bodies[number]? = some scope
  recites : facts.Recites number scope (.of file (file.looksIn body))
  lists : facts.Lists scope ((file.looksIn body).flatMap (Look.declarations file))

/-- When the walk over a file has come to its end, each region is that of a body, and recites its script if
it is simple. Only the names are still to be looked up then. -/
theorem exists_recitations (file : SourceFile) : ∃ last : Facts, Facts.of file = last.resolveNames ∧
    ∀ number < last.regions.size, ∃ body, last.IsBody file number body ∧
      (file.Simple body → ∃ scope, Recitation file last number body scope) := by
  have last := Visits.last file
  refine ⟨_, last.of_eq, fun number less => ?_⟩
  obtain ⟨ahead, charted, all⟩ := last.allRecited
  obtain rfl := charted.done
  obtain ⟨body, isBody, recited⟩ := all number less
  refine ⟨body, isBody, fun simple => ?_⟩
  obtain ⟨scope, script, declared, whole⟩ := recited simple
  have done := whole.script
  have listed := whole.declared
  rw [show agenda number [] [] = [] from rfl] at done listed
  obtain rfl : script = _ := done
  rw [List.flatMap_nil, List.append_nil] at listed
  subst listed
  exact ⟨scope, whole.body, whole.recites, whole.lists⟩

end Facts

end CodeGraph

import CodeGraph.Proofs.Checked.Walk
import Mathlib.Data.Multiset.DershowitzManna

/-!
# The order of the walk

Tasks are ordered by what they are about, and by their ranks (`Task.Follows`). This order is well-founded,
and so is the one that it makes of stacks, as multisets (`Facts.Lower`). A step of the walk replaces a task
by tasks below it, so that the stack gets lower, however often the same tree is put on it again; and so the
walk ends from wherever it begins.

To tell which tasks come of which, each task on the stack is given a path: the places of the tasks that led
to it, each among those that one step left (`Facts.trace`). The walk does the tasks in the lexicographic
order of these paths (`Facts.DepthFirst`): a task comes before all that comes of it, and all that comes of
a task comes before the next task that was left with it.
-/

namespace CodeGraph

/-! ## The order of tasks -/

namespace Task

theorem Follows.trans {first second third : Task} (low : first.Follows second)
    (high : second.Follows third) : first.Follows third := by
  rcases low with below | ⟨same, less⟩
  · rcases high with further | ⟨same, -⟩
    · exact .inl (below.trans further)
    · exact .inl (same ▸ below)
  · rcases high with further | ⟨same', less'⟩
    · exact .inl (same ▸ further)
    · exact .inr ⟨same.trans same', Nat.lt_trans less less'⟩

theorem not_follows_self (task : Task) : ¬ task.Follows task :=
  fun follows => Nat.lt_irrefl _ follows.weight_lt

/-- A task is below the tasks that it follows. -/
instance : Preorder Task where
  le low high := low = high ∨ low.Follows high
  lt := Follows
  le_refl _ := .inl rfl
  le_trans := by
    rintro first second third (rfl | low) (rfl | high)
    · exact .inl rfl
    · exact .inr high
    · exact .inr low
    · exact .inr (low.trans high)
  lt_iff_le_not_ge first second := by
    refine ⟨fun low => ⟨.inr low, ?_⟩, ?_⟩
    · rintro (rfl | high)
      · exact not_follows_self _ low
      · exact not_follows_self _ (low.trans high)
    · rintro ⟨rfl | low, other⟩
      · exact absurd (.inl rfl) other
      · exact low

instance : WellFoundedLT Task := ⟨Subrelation.wf Follows.weight_lt (measure weight).wf⟩

end Task

namespace Facts

open Checked (Progress walkOn)

variable {file : SourceFile} {facts : Facts} {task : Task} {tasks rest : List Task}

/-- A stack is lower than another one if it comes of that one as a multiset, when some tasks are taken away
and any number of tasks are added that are below one of these. -/
def Lower (low high : List Task) : Prop :=
  Multiset.IsDershowitzMannaLT (low : Multiset Task) (high : Multiset Task)

theorem wellFounded_lower : WellFounded Lower :=
  InvImage.wf _ Multiset.wellFounded_isDershowitzMannaLT

/-- A stack gets lower when its first task is replaced by tasks that follow it. -/
theorem lower_of_follows (follow : ∀ next ∈ tasks, next.Follows task) :
    Lower (tasks ++ rest) (task :: rest) := by
  refine ⟨rest, tasks, {task}, Multiset.singleton_ne_zero task, ?_, ?_, fun next there => ?_⟩
  · rw [← Multiset.coe_add, add_comm]
  · rw [add_comm, Multiset.singleton_add, Multiset.cons_coe]
  · exact ⟨task, Multiset.mem_singleton_self task, follow next (Multiset.mem_coe.1 there)⟩

/-- The walk replaces the task on top of its stack by tasks that follow it. -/
theorem lower_of_walkOn {progress after : Progress} (taken : walkOn file progress = some after) :
    Lower after.2 progress.2 := by
  obtain ⟨facts, tasks⟩ := progress
  cases tasks with
  | nil => cases taken
  | cons task rest =>
    obtain rfl := Option.some.inj taken
    exact lower_of_follows fun _ there => follows_of_mem_step there

/-! ## Where tasks come from -/

/-- The state of a loop after a number of steps, if there are as many. -/
def stateAfter {State : Type} (step : State → Option State) (start : State) : Nat → Option State
  | 0 => some start
  | number + 1 => (stateAfter step start number).bind step

/-- The facts that have been made, and the stack of the tasks that are left, each with its path. -/
abbrev Traced := Facts × List (List Nat × Task)

/-- The tasks of a list, numbered below a path. -/
def numbered (path : List Nat) (tasks : List Task) : List (List Nat × Task) :=
  tasks.mapIdx fun place task => (path ++ [place], task)

/-- Where the walk begins, with the tasks on its stack numbered. -/
def traced (start : Progress) : Traced := (start.1, numbered [] start.2)

/-- The progress without the paths. -/
def untraced (state : Traced) : Progress := (state.1, state.2.map Prod.snd)

/-- Do the task on top of the stack, and put what it leaves there, numbered below its path. -/
def trace (file : SourceFile) (state : Traced) : Option Traced :=
  match state.2 with
  | [] => none
  | (path, task) :: rest =>
    some ((state.1.step file task).1, numbered path (state.1.step file task).2 ++ rest)

/-- `Starts file start number path facts task`: of the tasks that the walk does from `start` on, the one
with this number is `task`, to which the path `path` leads; `facts` is what has been made by then. -/
def Starts (file : SourceFile) (start : Progress) (number : Nat) (path : List Nat) (facts : Facts)
    (task : Task) : Prop :=
  ∃ rest, stateAfter (trace file) (traced start) number = some (facts, (path, task) :: rest)

/-- The walk that begins at `start` is depth-first.

* `untraced`: paths do not change what the walk does.
* `first`, `scheduled`: every task that is on the stack in the beginning, or that a step leaves, is done.
* `scheduler`: no other tasks are done, and the paths tell which task left which.
* `ordered`: tasks are done in the order of their paths.
* `finished`: all that comes of a task is done before the next task that was left with it, and before all
  that comes of that one. -/
structure DepthFirst (file : SourceFile) (start : Progress) : Prop where
  untraced : ∀ number, (stateAfter (trace file) (traced start) number).map untraced =
    stateAfter (walkOn file) start number
  first : ∀ {place task}, start.2[place]? = some task →
    ∃ number facts, Starts file start number [place] facts task
  scheduled : ∀ {number path facts task place next}, Starts file start number path facts task →
    (facts.step file task).2[place]? = some next →
      ∃ later after, number < later ∧ Starts file start later (path ++ [place]) after next
  scheduler : ∀ {number path place facts next}, Starts file start number (path ++ [place]) facts next →
    path = [] ∧ start.2[place]? = some next ∨
      ∃ earlier before task, earlier < number ∧ Starts file start earlier path before task ∧
        (before.step file task).2[place]? = some next
  ordered : ∀ {number other path path' facts facts' task task'},
    Starts file start number path facts task → Starts file start other path' facts' task' →
      (number < other ↔ path < path')
  finished : ∀ {number other path left right below below' facts facts' task task'},
    Starts file start number (path ++ left :: below) facts task →
      Starts file start other (path ++ right :: below') facts' task' → left < right →
        number < other

/-! ## Paths -/

/-- `Beside path other`: neither of the paths leads on from the other one, and where they part the first one
turns to an earlier task. -/
inductive Beside : List Nat → List Nat → Prop
  | apart {left right : Nat} {path other : List Nat} : left < right →
      Beside (left :: path) (right :: other)
  | along {place : Nat} {path other : List Nat} : Beside path other →
      Beside (place :: path) (place :: other)

/-- `Behind path other`: the other path leads on from the first one, or lies beside it. -/
def Behind (path other : List Nat) : Prop :=
  Beside path other ∨ ∃ place further, other = path ++ place :: further

variable {path other path' : List Nat}

theorem Beside.lt (beside : Beside path other) : path < other := by
  induction beside with
  | apart less => exact .rel less
  | along _ ih => exact .cons ih

theorem Beside.append (beside : Beside path other) (further further' : List Nat) :
    Beside (path ++ further) (other ++ further') := by
  induction beside with
  | apart less => exact .apart less
  | along _ ih => exact .along ih

theorem beside_of_lt (path : List Nat) {left right : Nat} (less : left < right)
    (further further' : List Nat) : Beside (path ++ left :: further) (path ++ right :: further') := by
  induction path with
  | nil => exact .apart less
  | cons place path ih => exact .along ih

theorem behind_child (path : List Nat) (place : Nat) : Behind path (path ++ [place]) :=
  .inr ⟨place, [], rfl⟩

theorem Behind.append (behind : Behind path other) (further : List Nat) :
    Behind path (other ++ further) := by
  rcases behind with beside | ⟨place, rest, rfl⟩
  · have on := beside.append [] further
    rw [List.append_nil] at on
    exact .inl on
  · exact .inr ⟨place, rest ++ further, by rw [List.append_assoc, List.cons_append]⟩

theorem Behind.lt (behind : Behind path other) : path < other := by
  rcases behind with beside | ⟨place, further, rfl⟩
  · exact beside.lt
  · induction path with
    | nil => exact .nil
    | cons place path ih => exact .cons ih

/-! ## Numbered tasks -/

theorem getElem?_numbered (path : List Nat) (tasks : List Task) (place : Nat) :
    (numbered path tasks)[place]? = tasks[place]?.map fun task => (path ++ [place], task) :=
  List.getElem?_mapIdx

theorem mem_numbered {entry : List Nat × Task} : entry ∈ numbered path tasks ↔
    ∃ place, tasks[place]? = some entry.2 ∧ entry.1 = path ++ [place] := by
  simp only [List.mem_iff_getElem?, getElem?_numbered, Option.map_eq_some_iff]
  constructor
  · rintro ⟨place, task, found, rfl⟩
    exact ⟨place, found, rfl⟩
  · rintro ⟨place, found, same⟩
    exact ⟨place, entry.2, found, by rw [← same]⟩

theorem map_snd_numbered (path : List Nat) (tasks : List Task) :
    (numbered path tasks).map Prod.snd = tasks := by
  refine List.ext_getElem? fun place => ?_
  rw [List.getElem?_map, getElem?_numbered, Option.map_map]
  exact Option.map_id'

theorem pairwise_numbered (path : List Nat) (tasks : List Task) :
    (numbered path tasks).Pairwise fun entry later => Beside entry.1 later.1 := by
  refine List.pairwise_iff_getElem.2 fun place later bound bound' less => ?_
  simp only [numbered, List.getElem_mapIdx]
  exact beside_of_lt path less [] []

/-! ## States of a loop -/

section Loop

variable {State : Type} {step : State → Option State} {start state last : State} {number : Nat}

theorem stateAfter_succ (held : stateAfter step start number = some state) :
    stateAfter step start (number + 1) = step state := by
  rw [stateAfter, held, Option.bind_some]

theorem stateAfter_add (step : State → Option State) (start : State) (number more : Nat) :
    stateAfter step start (number + more) =
      (stateAfter step start number).bind fun state => stateAfter step state more := by
  induction more with
  | zero => rw [Nat.add_zero]; exact (Option.bind_fun_some _).symm
  | succ more ih => rw [← Nat.add_assoc, stateAfter, ih, Option.bind_assoc]; rfl

/-- The first step, and the steps from there on. -/
theorem stateAfter_of_step {middle : State} (taken : step start = some middle) (number : Nat) :
    stateAfter step start (number + 1) = stateAfter step middle number := by
  rw [Nat.add_comm, stateAfter_add, stateAfter_succ rfl, taken, Option.bind_some]

/-- Before every state of a loop there are others. -/
theorem exists_state {later : Nat} (held : stateAfter step start later = some state)
    (less : number < later) : ∃ before middle, stateAfter step start number = some before ∧
      step before = some middle ∧ stateAfter step middle (later - (number + 1)) = some state := by
  obtain ⟨more, rfl⟩ := Nat.exists_eq_add_of_lt less
  rw [show number + more + 1 = (number + 1) + more by omega, stateAfter_add, stateAfter] at held
  obtain ⟨middle, first, rest⟩ := Option.bind_eq_some_iff.1 held
  obtain ⟨before, there, taken⟩ := Option.bind_eq_some_iff.1 first
  refine ⟨before, middle, there, taken, ?_⟩
  rwa [show number + more + 1 - (number + 1) = more by omega]

end Loop

/-! ## Traces -/

variable {start : Progress} {state after : Traced} {number later : Nat}

theorem untraced_traced (start : Progress) : untraced (traced start) = start :=
  Prod.ext rfl (map_snd_numbered [] start.2)

/-- Paths do not change what a step does. -/
theorem untraced_trace (file : SourceFile) (state : Traced) :
    (trace file state).map untraced = walkOn file (untraced state) := by
  obtain ⟨facts, stack⟩ := state
  cases stack with
  | nil => rfl
  | cons entry rest =>
    refine congrArg some (Prod.ext rfl ?_)
    rw [untraced, List.map_append, map_snd_numbered]
    rfl

/-- The stack gets lower with every step, and so the steps end. -/
theorem exists_halts_trace (file : SourceFile) (state : Traced) :
    ∃ last, Halts (trace file) state last := by
  refine Halts.exists_of_descent (fun state => ((untraced state).2 : Multiset Task))
    (fun _ => True) (fun _ _ _ _ => trivial) (fun state middle _ taken => ?_) trivial
  have walked : walkOn file (untraced state) = some (untraced middle) := by
    rw [← untraced_trace, taken, Option.map_some]
  exact lower_of_walkOn walked

/-- A task that is on the stack will be done. -/
theorem exists_done {last : Traced} (halts : Halts (trace file) state last)
    {entry : List Nat × Task} (inside : entry ∈ state.2) : ∃ number facts rest,
      stateAfter (trace file) state number = some (facts, entry :: rest) := by
  induction halts with
  | @ended state stop =>
    obtain ⟨facts, stack⟩ := state
    cases stack with
    | nil => cases inside
    | cons top rest => cases stop
  | @next state middle last taken _ ih =>
    obtain ⟨facts, stack⟩ := state
    cases stack with
    | nil => cases taken
    | cons top rest =>
      rcases List.mem_cons.1 inside with rfl | below
      · exact ⟨0, facts, rest, rfl⟩
      · have there : entry ∈ middle.2 := by
          obtain rfl := Option.some.inj taken
          exact List.mem_append_right _ below
        obtain ⟨number, facts', rest', held⟩ := ih there
        exact ⟨number + 1, facts', rest', (stateAfter_of_step taken number).trans held⟩

/-- One step more: the task on top of the stack is done, and what it leaves takes its place. -/
theorem exists_top (held : stateAfter (trace file) state (number + 1) = some after) :
    ∃ facts top rest, stateAfter (trace file) state number = some (facts, top :: rest) ∧
      after = ((facts.step file top.2).1, numbered top.1 (facts.step file top.2).2 ++ rest) := by
  obtain ⟨⟨facts, stack⟩, there, taken⟩ := Option.bind_eq_some_iff.1 held
  cases stack with
  | nil => cases taken
  | cons top rest => exact ⟨facts, top, rest, there, (Option.some.inj taken).symm⟩

/-- Of two tasks on the stack neither comes of the other one, and the one on top comes first. -/
theorem pairwise_beside (held : stateAfter (trace file) (traced start) number = some state) :
    state.2.Pairwise fun entry later => Beside entry.1 later.1 := by
  induction number generalizing state with
  | zero =>
    obtain rfl := Option.some.inj held
    exact pairwise_numbered [] start.2
  | succ number ih =>
    obtain ⟨facts, top, rest, there, rfl⟩ := exists_top held
    obtain ⟨right, apart⟩ := List.pairwise_cons.1 (ih there)
    -- what lies beside the task on top lies beside all that comes of it
    refine List.pairwise_append.2 ⟨pairwise_numbered _ _, apart, fun entry inside later below => ?_⟩
    obtain ⟨place, -, same⟩ := mem_numbered.1 inside
    have beside := (right later below).append [place] []
    rwa [List.append_nil, ← same] at beside

/-- What lies behind a path stays behind it. -/
theorem behind_stateAfter (held : stateAfter (trace file) state number = some after)
    (behind : ∀ entry ∈ state.2, Behind path entry.1) : ∀ entry ∈ after.2, Behind path entry.1 := by
  induction number generalizing after with
  | zero =>
    obtain rfl := Option.some.inj held
    exact behind
  | succ number ih =>
    obtain ⟨facts, top, rest, there, rfl⟩ := exists_top held
    intro entry inside
    rcases List.mem_append.1 inside with new | old
    · obtain ⟨place, -, same⟩ := mem_numbered.1 new
      exact same ▸ (ih there top List.mem_cons_self).append [place]
    · exact ih there entry (List.mem_cons_of_mem _ old)

/-- What is done later lies behind what is done before. -/
theorem Starts.behind {facts' : Facts} {task' : Task}
    (first : Starts file start number path facts task)
    (second : Starts file start later other facts' task') (less : number < later) :
    Behind path other := by
  obtain ⟨rest, here⟩ := first
  obtain ⟨rest', there⟩ := second
  obtain ⟨before, middle, held, taken, further⟩ := exists_state there less
  obtain rfl := Option.some.inj (here.symm.trans held)
  obtain rfl := Option.some.inj taken
  obtain ⟨right, -⟩ := List.pairwise_cons.1 (pairwise_beside here)
  -- one step after the task on top everything on the stack is behind it, and from then on it stays so
  refine behind_stateAfter further (fun entry inside => ?_) (other, task') List.mem_cons_self
  rcases List.mem_append.1 inside with new | old
  · obtain ⟨place, -, same⟩ := mem_numbered.1 new
    exact same ▸ behind_child path place
  · exact .inl (right entry old)

/-- The walk does tasks in the order of their paths. -/
theorem Starts.lt_iff {facts' : Facts} {task' : Task}
    (first : Starts file start number path facts task)
    (second : Starts file start later other facts' task') : number < later ↔ path < other := by
  refine ⟨fun less => (first.behind second less).lt, fun less => ?_⟩
  rcases Nat.lt_trichotomy number later with before | rfl | behind
  · exact before
  · obtain ⟨rest, here⟩ := first
    obtain ⟨rest', there⟩ := second
    cases here.symm.trans there
    exact absurd less (List.lt_irrefl path)
  · exact absurd (List.lt_trans less (second.behind first behind).lt) (List.lt_irrefl path)

/-- A task on the stack was there in the beginning, or a step left it. -/
theorem scheduler_of_mem (held : stateAfter (trace file) (traced start) number = some state)
    {entry : List Nat × Task} (inside : entry ∈ state.2) : ∃ path place, entry.1 = path ++ [place] ∧
      (path = [] ∧ start.2[place]? = some entry.2 ∨
        ∃ earlier before task, earlier < number ∧ Starts file start earlier path before task ∧
          (before.step file task).2[place]? = some entry.2) := by
  induction number generalizing state with
  | zero =>
    obtain rfl := Option.some.inj held
    obtain ⟨place, found, same⟩ := mem_numbered.1 inside
    exact ⟨[], place, same, .inl ⟨rfl, found⟩⟩
  | succ number ih =>
    obtain ⟨facts, top, rest, there, rfl⟩ := exists_top held
    rcases List.mem_append.1 inside with new | old
    · obtain ⟨place, found, same⟩ := mem_numbered.1 new
      exact ⟨top.1, place, same,
        .inr ⟨number, facts, top.2, Nat.lt_succ_self number, ⟨rest, there⟩, found⟩⟩
    · obtain ⟨path, place, same, came⟩ := ih there (List.mem_cons_of_mem _ old)
      refine ⟨path, place, same, came.imp_right ?_⟩
      rintro ⟨earlier, before, task, less, starts, left⟩
      exact ⟨earlier, before, task, Nat.lt_succ_of_lt less, starts, left⟩

/-! ## Depth first -/

theorem depthFirst (file : SourceFile) (start : Progress) : DepthFirst file start := by
  refine ⟨?untraced, ?first, ?scheduled, ?scheduler, ?ordered, ?finished⟩
  case untraced =>
    intro number
    induction number with
    | zero => exact congrArg some (untraced_traced start)
    | succ number ih =>
      rw [stateAfter, stateAfter, ← ih]
      cases stateAfter (trace file) (traced start) number with
      | none => rfl
      | some state => exact untraced_trace file state
  case first =>
    intro place task found
    obtain ⟨last, halts⟩ := exists_halts_trace file (traced start)
    have inside : ([place], task) ∈ (traced start).2 := mem_numbered.2 ⟨place, found, rfl⟩
    obtain ⟨number, facts, rest, held⟩ := exists_done halts inside
    exact ⟨number, facts, rest, held⟩
  case scheduled =>
    rintro number path facts task place next ⟨rest, here⟩ found
    obtain ⟨last, halts⟩ := exists_halts_trace file
      ((facts.step file task).1, numbered path (facts.step file task).2 ++ rest)
    have inside : (path ++ [place], next) ∈ numbered path (facts.step file task).2 :=
      mem_numbered.2 ⟨place, found, rfl⟩
    obtain ⟨more, after, rest', held⟩ := exists_done halts (List.mem_append_left rest inside)
    refine ⟨number + 1 + more, after, by omega, rest', ?_⟩
    rw [stateAfter_add, stateAfter_succ here]
    exact held
  case scheduler =>
    rintro number path place facts next ⟨rest, held⟩
    obtain ⟨path', place', same, came⟩ := scheduler_of_mem held List.mem_cons_self
    obtain ⟨rfl, last⟩ := List.append_inj' same rfl
    obtain rfl := List.singleton_inj.1 last
    exact came
  case ordered => exact fun first second => first.lt_iff second
  case finished =>
    intro number other path left right below below' facts facts' task task' first second less
    exact (first.lt_iff second).2 (beside_of_lt path less below below').lt

/-- The walk ends from wherever it begins, on every tree. A step puts tasks about the nodes below in place
of a task, or tasks about its own node with a lower rank; the stack gets lower with every step in a
well-founded order of multisets, and the walk is over when no task is left. And the walk is
depth-first: all that comes of a task is done before the next task that was left with it. -/
theorem walk_ends_depthFirst (file : SourceFile) :
    (∀ (facts : Facts) (task : Task), ∀ next ∈ (facts.step file task).2,
      next.cursor.Below task.cursor ∨ next.cursor = task.cursor ∧ next.rank < task.rank) ∧
      WellFounded Lower ∧
      (∀ progress after, walkOn file progress = some after → Lower after.2 progress.2) ∧
      (∀ facts tasks, Halts (walkOn file) (facts, tasks) (runAll file facts tasks, [])) ∧
      (∃ last, Halts (walkOn file) (Checked.beginning file) (last, []) ∧
        Facts.of file = last.resolveNames) ∧
      ∀ start, DepthFirst file start :=
  ⟨fun _ _ _ inside => follows_of_mem_step inside, wellFounded_lower,
    fun _ _ taken => lower_of_walkOn taken, Checked.halts_walkOn,
    ⟨_, Checked.halts_walkOn _ _, rfl⟩, depthFirst file⟩

end Facts

end CodeGraph
